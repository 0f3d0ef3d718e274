import InferDeck.Execution

/-!
# The scheduler's loop and its tasks

The loop thread of the continuous-batching scheduler against the threads that submit tasks, cancel
or stop them and stop the scheduler. A task is the address of the caller's `SlotTask`. The loop is
cut at the points where another thread can see a difference or where it can throw; what the
admission, the decoder and the sampler come up with is part of the action.
-/

namespace InferDeck.LlamaWrapper

inductive TokenEvent where
  | token (id : ℤ)
  | done (error : Option String)
  deriving DecidableEq

def TokenEvent.isDone : TokenEvent → Bool
  | token _ => false
  | done _ => true

/-- What the loop writes of a task, and the flags that its caller writes. -/
structure TaskCell where
  submitted : Bool := false
  cancelled : Bool := false
  callerStop : Bool := false
  /-- The sampler pointer is set. -/
  sampler : Bool := true
  freed : ℕ := 0
  events : List TokenEvent := []
  deriving DecidableEq

namespace TaskCell

def freeSampler (c : TaskCell) : TaskCell :=
  if c.sampler then { c with sampler := false, freed := c.freed + 1 } else c

def pushEvent (c : TaskCell) (event : TokenEvent) : TaskCell :=
  { c with events := c.events ++ [event] }

def doneCount (c : TaskCell) : ℕ := c.events.countP TokenEvent.isDone

end TaskCell

/-- Who has called `fail_all`. -/
inductive FailStage where
  | decode
  | handler
  | final
  deriving DecidableEq

/-- Where the loop thread is, with the task pointers that its local variables hold. -/
inductive Phase where
  | head
  | prepare (tasks : List ℕ)
  | rejecting (todo : List (ℕ × String)) (tasks : List ℕ)
  | build (todo live cancelled stopped : List ℕ)
  | removing (todo removed live : List ℕ)
  | notifying (todo live : List ℕ)
  | decode (live : List ℕ)
  | sample (todo live completed : List ℕ)
  | finishing (todo : List ℕ)
  | failing (stage : FailStage) (todo : List ℕ)
  | exit
  | ended
  deriving DecidableEq

structure LoopState where
  active : List ℕ := []
  terminalError : Option String := none
  failed : Bool := false
  stop : Bool := false
  phase : Phase := .head
  cells : ℕ → TaskCell := fun _ => {}

inductive Action where
  | submit (t : ℕ)
  | cancel (t : ℕ)
  | callerStop (t : ℕ)
  | stop
  /-- The loop's next step, where it has no choice. -/
  | advance
  /-- The pool rejects these tasks, each for its reason. -/
  | verdict (rejected : List (ℕ × String))
  | decoded
  /-- No task has put anything into the batch. -/
  | idle
  | decodeFailed (error : String)
  | emit (id : ℤ)
  | keep
  | complete
  | throw (what : String)
  deriving DecidableEq

def Action.ofLoop : Action → Bool
  | submit _ | cancel _ | callerStop _ | stop => false
  | _ => true

namespace LoopState

variable (s : LoopState)

def modify (t : ℕ) (f : TaskCell → TaskCell) : LoopState :=
  { s with cells := Function.update s.cells t (f (s.cells t)) }

def goto (phase : Phase) : LoopState := { s with phase }

def removeActive (tasks : List ℕ) : LoopState :=
  { s with active := s.active.filter fun t => t ∉ tasks }

/-- `submit`, which a caller calls once for a task. -/
def submit (t : ℕ) : Option LoopState :=
  if (s.cells t).submitted then none
  else
    let s' := s.modify t fun c => { c with submitted := true }
    match s.terminalError, s.stop with
    | some error, _ => some (s'.modify t fun c => c.freeSampler.pushEvent (.done (some error)))
    | none, true =>
        some (s'.modify t fun c => c.freeSampler.pushEvent (.done (some "scheduler stopped")))
    | none, false => some { s' with active := s'.active ++ [t] }

/-- The critical section of `fail_all`. -/
def failAll (stage : FailStage) (error : String) : LoopState :=
  { s with
    failed := true
    terminalError := some (s.terminalError.getD error)
    active := []
    phase := .failing stage s.active }

/-- Free the task's sampler, or push its terminal event once there is none. -/
def notify (t : ℕ) (error : Option String) (rest : Phase) : LoopState :=
  if (s.cells t).sampler then s.modify t TaskCell.freeSampler
  else (s.modify t fun c => c.pushEvent (.done error)).goto rest

def advance : Option LoopState :=
  match s.phase with
  | .head =>
      if s.stop then some (s.goto .exit)
      else if s.active.isEmpty then none
      else some (s.goto (.prepare s.active))
  | .rejecting [] tasks => some (s.goto (.build tasks [] [] []))
  | .rejecting ((t, error) :: todo) tasks => some (s.notify t (some error) (.rejecting todo tasks))
  | .build [] live cancelled stopped => some (s.goto (.removing (cancelled ++ stopped) [] live))
  | .build (t :: todo) live cancelled stopped =>
      if (s.cells t).cancelled then some (s.goto (.build todo live (cancelled ++ [t]) stopped))
      else if (s.cells t).callerStop then
        some (s.goto (.build todo live cancelled (stopped ++ [t])))
      else some (s.goto (.build todo (live ++ [t]) cancelled stopped))
  | .removing [] removed live => some (s.goto (.notifying removed live))
  | .removing (t :: todo) removed live =>
      some ((s.removeActive [t]).goto (.removing todo (removed ++ [t]) live))
  | .notifying [] live => some (s.goto (.decode live))
  | .notifying (t :: todo) live => some (s.notify t none (.notifying todo live))
  | .sample [] _ completed => some ((s.removeActive completed).goto (.finishing completed))
  | .finishing [] => some (s.goto .head)
  | .finishing (t :: todo) =>
      some ((s.modify t fun c => c.pushEvent (.done none)).goto (.finishing todo))
  | .failing .final [] => some (s.goto .ended)
  | .failing _ [] => some (s.goto .exit)
  | .failing stage (t :: todo) => some (s.notify t s.terminalError (.failing stage todo))
  | .exit =>
      some (s.failAll .final (if s.stop then "scheduler stopped" else "scheduler terminated"))
  | _ => none

/-- The pool's verdict over the tasks of this iteration. -/
def verdict (rejected : List (ℕ × String)) : Option LoopState :=
  match s.phase with
  | .prepare tasks =>
      let ids := rejected.map Prod.fst
      if ids.Nodup ∧ ∀ t ∈ ids, t ∈ tasks then
        some ((s.removeActive ids).goto (.rejecting rejected (tasks.filter fun t => t ∉ ids)))
      else none
  | _ => none

/-- An exception that the handler around the loop catches. -/
def throw (what : String) : Option LoopState :=
  match s.phase with
  | .failing .handler _ | .failing .final _ | .exit | .ended => none
  | _ => some (s.failAll .handler ("scheduler exception: " ++ what))

def step : Action → Option LoopState
  | .submit t => s.submit t
  | .cancel t => some (s.modify t fun c => { c with cancelled := true })
  | .callerStop t => some (s.modify t fun c => { c with callerStop := true })
  | .stop => some { s with stop := true }
  | .advance => s.advance
  | .verdict rejected => s.verdict rejected
  | .decoded =>
      match s.phase with
      | .decode live => some (s.goto (.sample live [] []))
      | _ => none
  | .idle =>
      match s.phase with
      | .decode _ => some (s.goto .head)
      | _ => none
  | .decodeFailed error =>
      match s.phase with
      | .decode _ => some (s.failAll .decode error)
      | _ => none
  | .emit id =>
      match s.phase with
      | .sample (t :: _) _ _ => some (s.modify t fun c => c.pushEvent (.token id))
      | _ => none
  | .keep =>
      match s.phase with
      | .sample (t :: todo) live completed =>
          some (s.goto (.sample todo (live ++ [t]) completed))
      | _ => none
  | .complete =>
      match s.phase with
      | .sample (t :: todo) live completed =>
          some ((s.modify t TaskCell.freeSampler).goto (.sample todo live (completed ++ [t])))
      | _ => none
  | .throw what => s.throw what

/-- Tasks that the loop has taken out of `active_` and has not notified yet. -/
def unnotified : Phase → List ℕ
  | .rejecting todo _ => todo.map Prod.fst
  | .removing _ removed _ => removed
  | .notifying todo _ => todo
  | .finishing todo => todo
  | .failing _ todo => todo
  | _ => []

/-- Tasks that the loop may still dereference in this iteration, and that it has not taken out. -/
def held : Phase → List ℕ
  | .prepare tasks => tasks
  | .rejecting _ tasks => tasks
  | .build todo live cancelled stopped => todo ++ live ++ cancelled ++ stopped
  | .removing todo _ live => todo ++ live
  | .notifying _ live => live
  | .decode live => live
  | .sample todo live completed => todo ++ live ++ completed
  | _ => []

def derefs (phase : Phase) : Action → List ℕ
  | .verdict _ | .decoded => held phase
  | .advance =>
      match phase with
      | .rejecting [] tasks => tasks
      | .rejecting ((t, _) :: _) _ => [t]
      | .build (t :: _) _ _ _ => [t]
      | .removing (t :: _) _ _ => [t]
      | .notifying (t :: _) _ => [t]
      | .sample [] live completed => live ++ completed
      | .finishing (t :: _) => [t]
      | .failing _ (t :: _) => [t]
      | _ => []
  | .emit _ | .keep | .complete =>
      match phase with
      | .sample (t :: _) _ _ => [t]
      | _ => []
  | _ => []

end LoopState

end InferDeck.LlamaWrapper
