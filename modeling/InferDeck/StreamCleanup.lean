import InferDeck.Foundation
import InferDeck.GenerationSession

/-!
# Cleaning up a chat stream

The inference thread's callback tests under the session's mutex whether the queue has room, and
waits on the condition variable where it has none. The chunk provider, the resource releaser and
the destructor of a stream call `finish_once`, whose first caller sets `aborted` where the stream
is aborted, notifies, joins the inference thread, records the request, releases the slot and
completes the voice hold. `finish_once` takes the mutex only to read the result.
-/

namespace InferDeck.Gateway

open Function Foundation

namespace StreamCleanup

variable {R : Type}

/-- What `predict_stream` leaves the inference thread with. -/
inductive Outcome (R : Type) where
  | result (result : R)
  | failed (error : Error)
  | threw (what : String)

inductive ProducerPc (R : Type) where
  /-- Inside `predict_stream`, outside of the callback. -/
  | inferring
  /-- The callback is past its first look at `aborted`. -/
  | entering (delta : InferenceDelta)
  /-- It holds the mutex. -/
  | testing (delta : InferenceDelta)
  /-- There was no room. It still holds the mutex. -/
  | blocking (delta : InferenceDelta)
  | waiting (delta : InferenceDelta)
  /-- The wait is over. It holds the mutex. -/
  | queueing (delta : InferenceDelta)
  | notifying
  /-- `predict_stream` is over. -/
  | publishing (outcome : Outcome R)
  | announcing
  | ended

/-- The arguments of a call of `finish_once`. -/
structure Finish where
  abortedStream : Bool
  fallbackStatus : ℕ

/-- Where the one call that cleans up is in `finish_once`. -/
inductive Stage (R : Type) where
  | exchanged
  | loaded
  | stored
  | joining
  | joined
  | recording (result : Option R) (error : Bool)
  | releasing
  | completing

inductive CallerPc (R : Type) where
  | idle
  /-- The chunk provider is about to lock the mutex. -/
  | locking
  /-- It holds the mutex and tests what it waits for. -/
  | looking (timedOut : Bool)
  | waiting (timedOut : Bool)
  | heartbeat
  | taken (deltas : List InferenceDelta)
  | checking (deltas : List InferenceDelta)
  | writing (deltas : List InferenceDelta)
  | trailing (error : Option ErrorCode)
  | terminal (error : Option ErrorCode)
  /-- At the start of `finish_once`. -/
  | finishing (call : Finish)
  | cleaning (stage : Stage R) (call : Finish)

inductive Party where
  | inference
  | caller (id : ℕ)
  deriving DecidableEq

structure Cleanup (R : Type) where
  cleanupDone : Bool := false
  /-- The status and the result of each recorded request. -/
  recorded : List (ℕ × Option R) := []
  released : ℕ := 0
  completed : ℕ := 0
  /-- A call of `finish_once` has returned. -/
  returned : Bool := false

structure State (R : Type) where
  mtx : Option Party := none
  /-- The threads that are blocked on the condition variable. -/
  waitSet : List Party := []
  session : GenerationSession := {}
  inferenceError : Bool := false
  errorCode : ErrorCode := .internal
  errorMsg : String := ""
  finalResult : Option R := none
  producer : ProducerPc R := .inferring
  callers : ℕ → CallerPc R := fun _ => .idle
  cleanup : Cleanup R := {}

/-- How the sink takes what the provider does next. -/
inductive Sink where
  | accepts
  | refuses
  | throws

inductive Role where
  | chunkProvider
  | resourceReleaser (success : Bool)
  | destructor

inductive Action (R : Type) where
  /-- `predict_stream` calls the callback. -/
  | deliver (delta : InferenceDelta)
  /-- `predict_stream` is over. -/
  | infer (outcome : Outcome R)
  /-- The next step of the inference thread. -/
  | produce
  /-- The callback's `notify_one` wakes a waiting thread, where there is one. -/
  | notifyOne (party : Party)
  /-- A thread wakes for no reason. -/
  | wake (party : Party)
  /-- The time limit of the chunk provider's wait is over. -/
  | expire (caller : ℕ)
  | enter (caller : ℕ) (role : Role)
  | run (caller : ℕ) (sink : Sink)

/-- The part of `map_openai_error` that reaches `finish_once`. -/
def mapOpenaiErrorStatus : ErrorCode → ℕ
  | .invalidArgument | .parseError | .contextLengthExceeded => 400
  | .notFound => 404
  | .cancelled => 499
  | .timeout => 504
  | .unavailable | .notLoaded => 503
  | _ => 500

namespace State

variable (s : State R)

def goto (caller : ℕ) (pc : CallerPc R) : State R :=
  { s with callers := update s.callers caller pc }

def lock (party : Party) : Option (State R) :=
  if s.mtx = none then some { s with mtx := some party } else none

def unlock : State R := { s with mtx := none }

def notifyAll : State R := { s with waitSet := [] }

/-- The outcome of `predict_stream`, as the inference thread leaves it in the session. -/
def publish : Outcome R → State R
  | .result result =>
      { s with
        finalResult := some result
        session := { s.session with inferenceDone := true } }
  | .failed error =>
      { s with
        inferenceError := true
        errorCode := error.code
        errorMsg := error.message
        session := { s.session with inferenceDone := true } }
  | .threw what =>
      { s with
        inferenceError := true
        errorMsg := what
        session := { s.session with inferenceDone := true } }

/-- The end of the callback, with the mutex held. -/
def queue (delta : InferenceDelta) : State R :=
  if s.session.aborted then { s.unlock with producer := .inferring }
  else
    { s.unlock with
      session := { s.session with
        deltaQueue := s.session.deltaQueue ++ [delta]
        pendingBytes := s.session.pendingBytes +
          BitVec.ofNat 64 (GenerationSession.deltaSize delta) }
      producer := .notifying }

def produce : Option (State R) :=
  match s.producer with
  | .inferring | .notifying | .ended => none
  | .entering delta => (s.lock .inference).map fun s => { s with producer := .testing delta }
  | .testing delta =>
      if s.session.aborted || s.session.hasRoom (GenerationSession.deltaSize delta) then
        some { s with producer := .queueing delta }
      else some { s with producer := .blocking delta }
  | .blocking delta =>
      some { s.unlock with waitSet := .inference :: s.waitSet, producer := .waiting delta }
  | .waiting delta =>
      if .inference ∈ s.waitSet then none
      else (s.lock .inference).map fun s => { s with producer := .testing delta }
  | .queueing delta => some (s.queue delta)
  | .publishing outcome =>
      if s.mtx = none then some { s.publish outcome with producer := .announcing } else none
  | .announcing => some { s.notifyAll with producer := .ended }

/-- What the chunk provider waits for. -/
def hasChunk : Bool :=
  !s.session.deltaQueue.isEmpty || s.session.inferenceDone || s.session.aborted

/-- The chunk provider after its wait, up to where it unlocks the mutex. -/
def provide (caller : ℕ) : State R :=
  if s.session.aborted && !s.session.inferenceDone && s.session.deltaQueue.isEmpty then
    s.unlock.goto caller (.finishing ⟨true, 499⟩)
  else if s.session.deltaQueue.isEmpty then
    s.unlock.goto caller (.trailing (if s.inferenceError then some s.errorCode else none))
  else
    { s.unlock.goto caller (.taken s.session.deltaQueue) with
      session := { s.session with
        deltaQueue := []
        pendingBytes := ChatStream.takeAll s.session.pendingBytes s.session.deltaQueue } }

/-- The provider goes on, or calls `finish_once` and gives up. -/
def send (caller : ℕ) (next : CallerPc R) : Sink → State R
  | .accepts => s.goto caller next
  | .refuses => s.goto caller (.finishing ⟨true, 499⟩)
  | .throws => s.goto caller (.finishing ⟨true, 500⟩)

def recordOf (call : Finish) (result : Option R) (error : Bool) : ℕ × Option R :=
  if result.isSome && !call.abortedStream && !error then (200, result)
  else (if call.abortedStream then 499
    else if error && decide (call.fallbackStatus < 400) then 500 else call.fallbackStatus, result)

/-- The steps of the call of `finish_once` that cleans up. -/
def clean (token : ℕ) (caller : ℕ) (call : Finish) : Stage R → Option (State R)
  | .exchanged =>
      some (s.goto caller (.cleaning .loaded
        { call with abortedStream := call.abortedStream || s.session.aborted }))
  | .loaded =>
      some { s.goto caller (.cleaning .stored call) with
        session := { s.session with aborted := call.abortedStream || s.session.aborted } }
  | .stored => some (s.notifyAll.goto caller (.cleaning .joining call))
  | .joining =>
      match s.producer with
      | .ended => some (s.goto caller (.cleaning .joined call))
      | _ => none
  | .joined =>
      if s.mtx = none then
        some (s.goto caller (.cleaning (.recording s.finalResult s.inferenceError) call))
      else none
  | .recording result error =>
      some { s.goto caller (.cleaning .releasing call) with
        cleanup := { s.cleanup with
          recorded := s.cleanup.recorded ++ [recordOf call result error] } }
  | .releasing =>
      some { s.goto caller (.cleaning .completing call) with
        cleanup := { s.cleanup with released := s.cleanup.released + 1 } }
  | .completing =>
      some { s.goto caller .idle with
        cleanup := { s.cleanup with
          completed := if token ≠ 0 then s.cleanup.completed + 1 else s.cleanup.completed
          returned := true } }

def runCaller (token : ℕ) (caller : ℕ) (sink : Sink) : Option (State R) :=
  match s.callers caller with
  | .idle => none
  | .locking => (s.lock (.caller caller)).map fun s => s.goto caller (.looking false)
  | .looking timedOut =>
      if s.hasChunk then some (s.provide caller)
      else if timedOut then some (s.unlock.goto caller .heartbeat)
      else some { s.unlock.goto caller (.waiting false) with
        waitSet := .caller caller :: s.waitSet }
  | .waiting timedOut =>
      if .caller caller ∈ s.waitSet then none
      else (s.lock (.caller caller)).map fun s => s.goto caller (.looking timedOut)
  | .heartbeat => some (s.send caller .locking sink)
  | .taken deltas => some (s.notifyAll.goto caller (.checking deltas))
  | .checking deltas => some (s.send caller (.writing deltas) sink)
  | .writing [] => some (s.goto caller .idle)
  | .writing (_ :: deltas) => some (s.send caller (.writing deltas) sink)
  | .trailing error => some (s.send caller (.terminal error) sink)
  | .terminal error =>
      some (s.send caller (.finishing ⟨false, (error.map mapOpenaiErrorStatus).getD 200⟩) sink)
  | .finishing call =>
      if s.cleanup.cleanupDone then
        some { s.goto caller .idle with cleanup := { s.cleanup with returned := true } }
      else
        some { s.goto caller (.cleaning .exchanged call) with
          cleanup := { s.cleanup with cleanupDone := true } }
  | .cleaning stage call => s.clean token caller call stage

def wake (party : Party) : State R := { s with waitSet := s.waitSet.erase party }

def expire (caller : ℕ) : Option (State R) :=
  match s.callers caller with
  | .waiting _ => some ((s.wake (.caller caller)).goto caller (.waiting true))
  | _ => none

def enter (caller : ℕ) (role : Role) : Option (State R) :=
  match s.callers caller with
  | .idle =>
      some (s.goto caller (match role with
        | .chunkProvider => .locking
        | .resourceReleaser true => .finishing ⟨false, 200⟩
        | .resourceReleaser false => .finishing ⟨true, 499⟩
        | .destructor => .finishing ⟨true, 499⟩))
  | _ => none

def step (token : ℕ) (s : State R) : Action R → Option (State R)
  | .deliver delta =>
      match s.producer with
      | .inferring =>
          if s.session.aborted then some s else some { s with producer := .entering delta }
      | _ => none
  | .infer outcome =>
      match s.producer with
      | .inferring => some { s with producer := .publishing outcome }
      | _ => none
  | .produce => s.produce
  | .notifyOne party =>
      match s.producer with
      | .notifying =>
          if s.waitSet = [] ∨ party ∈ s.waitSet then
            some { s.wake party with producer := .inferring }
          else none
      | _ => none
  | .wake party => some (s.wake party)
  | .expire caller => s.expire caller
  | .enter caller role => s.enter caller role
  | .run caller sink => s.runCaller token caller sink

end State

def CallerPc.isCleaning : CallerPc R → Bool
  | .cleaning _ _ => true
  | _ => false

/-- `aborted` is set where it has to be, and nobody is notified yet or everybody was. -/
def Stage.hasStored : Stage R → Bool
  | .exchanged | .loaded => false
  | _ => true

def Stage.recorded : Stage R → ℕ
  | .releasing | .completing => 1
  | _ => 0

def Stage.released : Stage R → ℕ
  | .completing => 1
  | _ => 0

namespace State

variable {token : ℕ} {s s' : State R}

def Blocked (s : State R) : Prop :=
  (∃ delta, s.producer = .blocking delta) ∨
    (∃ delta, s.producer = .waiting delta) ∧ Party.inference ∈ s.waitSet

def Quiet (s : State R) : Prop := ∀ caller, (s.callers caller).isCleaning = false

/-- The inference thread is blocked in the callback's wait, the stream is aborted and notified, and
`finish_once` joins the inference thread. -/
def Hung (s : State R) : Prop :=
  (∃ delta, s.producer = .waiting delta) ∧ Party.inference ∈ s.waitSet ∧
    s.session.aborted = true ∧ ∃ caller call, s.callers caller = .cleaning .joining call

/-- Recorded, released and completed once, where a call of `finish_once` has returned and none is
cleaning up, and at most once anywhere. -/
structure CleansOnce (token : ℕ) (s : State R) : Prop where
  recorded : s.cleanup.recorded.length ≤ 1
  released : s.cleanup.released ≤ 1
  completed : s.cleanup.completed ≤ 1
  finished : s.cleanup.returned = true → s.Quiet →
    s.cleanup.recorded.length = 1 ∧ s.cleanup.released = 1 ∧
      s.cleanup.completed = if token ≠ 0 then 1 else 0

structure Cleaning (s : State R) (caller : ℕ) (stage : Stage R) (call : Finish) : Prop where
  here : s.callers caller = .cleaning stage call
  alone : ∀ other ≠ caller, (s.callers other).isCleaning = false
  done : s.cleanup.cleanupDone = true
  recorded : s.cleanup.recorded.length = stage.recorded
  released : s.cleanup.released = stage.released
  completed : s.cleanup.completed = 0
  aborted : s.session.aborted = (stage.hasStored && call.abortedStream)

inductive Progress (token : ℕ) (s : State R) : Prop where
  | untouched (quiet : s.Quiet) (cleanup : s.cleanup = {}) (aborted : s.session.aborted = false)
  | cleaning (caller : ℕ) (stage : Stage R) (call : Finish) (h : s.Cleaning caller stage call)
  | cleaned (quiet : s.Quiet) (done : s.cleanup.cleanupDone = true)
      (recorded : s.cleanup.recorded.length = 1) (released : s.cleanup.released = 1)
      (completed : s.cleanup.completed = if token ≠ 0 then 1 else 0)

/-- One thread at most cleans up, and while the callback is blocked in an aborted stream that thread
has still to notify. -/
structure Inv (token : ℕ) (s : State R) : Prop where
  progress : s.Progress token
  awake : s.Blocked → s.session.aborted = true →
    ∃ caller call, s.callers caller = .cleaning .stored call

theorem Progress.cleansOnce (h : s.Progress token) : s.CleansOnce token := by
  cases h with
  | untouched quiet cleanup aborted =>
      constructor <;> simp [cleanup]
  | cleaning caller stage call h =>
      refine ⟨?_, ?_, ?_, fun _ quiet => ?_⟩
      · rw [h.recorded]
        cases stage <;> simp [Stage.recorded]
      · rw [h.released]
        cases stage <;> simp [Stage.released]
      · rw [h.completed]
        exact Nat.zero_le 1
      · have hquiet := quiet caller
        rw [h.here] at hquiet
        cases hquiet
  | cleaned quiet done recorded released completed =>
      refine ⟨recorded.le, released.le, ?_, fun _ _ => ⟨recorded, released, completed⟩⟩
      rw [completed]
      split_ifs <;> simp

theorem Inv.not_hung (h : s.Inv token) : ¬s.Hung := by
  rintro ⟨hwaiting, hset, haborted, caller, call, hjoining⟩
  obtain ⟨other, call', hstored⟩ := h.awake (Or.inr ⟨hwaiting, hset⟩) haborted
  cases h.progress with
  | untouched quiet =>
      have hquiet := quiet caller
      rw [hjoining] at hquiet
      cases hquiet
  | cleaning cleaner stage call'' hcleaning =>
      have hcaller : caller = cleaner := by
        by_contra hne
        have halone := hcleaning.alone caller hne
        rw [hjoining] at halone
        cases halone
      have hother : other = cleaner := by
        by_contra hne
        have halone := hcleaning.alone other hne
        rw [hstored] at halone
        cases halone
      rw [hother, ← hcaller, hjoining] at hstored
      cases hstored
  | cleaned quiet =>
      have hquiet := quiet caller
      rw [hjoining] at hquiet
      cases hquiet

/-- What a step does that is not a step of the cleanup. -/
structure Calm (s s' : State R) : Prop where
  callers : ∀ caller, s'.callers caller = s.callers caller ∨
    (s.callers caller).isCleaning = false ∧ (s'.callers caller).isCleaning = false
  cleanup : s'.cleanup = s.cleanup ∨
    s.cleanup.cleanupDone = true ∧ s'.cleanup = { s.cleanup with returned := true }
  aborted : s'.session.aborted = s.session.aborted
  blocked : s'.Blocked → s.Blocked ∨ s.session.aborted = false

theorem Calm.isCleaning (h : Calm s s') (caller : ℕ) :
    (s'.callers caller).isCleaning = (s.callers caller).isCleaning := by
  rcases h.callers caller with heq | ⟨hbefore, hafter⟩
  · rw [heq]
  · rw [hbefore, hafter]

theorem Calm.quiet (h : Calm s s') (hquiet : s.Quiet) : s'.Quiet := by
  intro caller
  rw [h.isCleaning, hquiet caller]

theorem Calm.here (h : Calm s s') {caller : ℕ} {stage : Stage R} {call : Finish}
    (hhere : s.callers caller = .cleaning stage call) :
    s'.callers caller = .cleaning stage call := by
  rcases h.callers caller with heq | ⟨hbefore, -⟩
  · rw [heq, hhere]
  · rw [hhere] at hbefore
    cases hbefore

theorem Calm.progress (h : Calm s s') (hs : s.Progress token) : s'.Progress token := by
  cases hs with
  | untouched quiet cleanup aborted =>
      rcases h.cleanup with heq | ⟨hdone, -⟩
      · exact .untouched (h.quiet quiet) (heq.trans cleanup) (h.aborted.trans aborted)
      · rw [cleanup] at hdone
        cases hdone
  | cleaning caller stage call hc =>
      refine .cleaning caller stage call ?_
      have hcleanup : s'.cleanup.cleanupDone = s.cleanup.cleanupDone ∧
          s'.cleanup.recorded = s.cleanup.recorded ∧ s'.cleanup.released = s.cleanup.released ∧
            s'.cleanup.completed = s.cleanup.completed := by
        rcases h.cleanup with heq | ⟨-, heq⟩ <;> simp [heq]
      obtain ⟨hdone, hrecorded, hreleased, hcompleted⟩ := hcleanup
      exact {
        here := h.here hc.here
        alone := fun other hne => (h.isCleaning other).trans (hc.alone other hne)
        done := hdone.trans hc.done
        recorded := by rw [hrecorded, hc.recorded]
        released := hreleased.trans hc.released
        completed := hcompleted.trans hc.completed
        aborted := h.aborted.trans hc.aborted }
  | cleaned quiet done recorded released completed =>
      have hquiet := h.quiet quiet
      rcases h.cleanup with heq | ⟨-, heq⟩ <;>
        exact .cleaned hquiet (by simp [heq, done]) (by simp [heq, recorded])
          (by simp [heq, released]) (by simp [heq, completed])

theorem Calm.inv (h : Calm s s') (hs : s.Inv token) : s'.Inv token := by
  refine ⟨h.progress hs.progress, fun hblocked haborted => ?_⟩
  rw [h.aborted] at haborted
  rcases h.blocked hblocked with hbefore | hrunning
  · obtain ⟨caller, call, hhere⟩ := hs.awake hbefore haborted
    exact ⟨caller, call, h.here hhere⟩
  · rw [haborted] at hrunning
    cases hrunning

theorem Calm.of_goto {caller : ℕ} {pc : CallerPc R} (hbefore : (s.callers caller).isCleaning = false)
    (hafter : pc.isCleaning = false) (hcallers : s'.callers = update s.callers caller pc)
    (hcleanup : s'.cleanup = s.cleanup ∨
      s.cleanup.cleanupDone = true ∧ s'.cleanup = { s.cleanup with returned := true })
    (haborted : s'.session.aborted = s.session.aborted) (hproducer : s'.producer = s.producer)
    (hset : Party.inference ∈ s'.waitSet → Party.inference ∈ s.waitSet) : Calm s s' where
  callers other := by
    rw [hcallers]
    by_cases hother : other = caller
    · right
      rw [hother, update_self]
      exact ⟨hbefore, hafter⟩
    · left
      rw [update_of_ne hother]
  cleanup := hcleanup
  aborted := haborted
  blocked hblocked := by
    left
    rcases hblocked with hblocking | ⟨hwaiting, hin⟩
    · exact Or.inl (hproducer ▸ hblocking)
    · exact Or.inr ⟨hproducer ▸ hwaiting, hset hin⟩

theorem lock_eq_some {party : Party} : s.lock party = some s' ↔
    s.mtx = none ∧ s' = { s with mtx := some party } := by
  rw [lock]
  split_ifs with hfree
  · simp [hfree, eq_comm]
  · simp [hfree]

theorem calm_of_producer (hcallers : s'.callers = s.callers) (hcleanup : s'.cleanup = s.cleanup)
    (haborted : s'.session.aborted = s.session.aborted)
    (hblocked : s'.Blocked → s.Blocked ∨ s.session.aborted = false) : Calm s s' :=
  ⟨fun caller => Or.inl (congrFun hcallers caller), Or.inl hcleanup, haborted, hblocked⟩

/-- A step of the callback finds no room only while the stream is not aborted. -/
theorem produce_calm (hstep : s.produce = some s') : Calm s s' := by
  unfold produce at hstep
  split at hstep
  case h_1 | h_2 | h_3 => cases hstep
  case h_4 delta hpc =>
    obtain ⟨s₁, hlock, rfl⟩ := Option.map_eq_some_iff.1 hstep
    obtain ⟨-, rfl⟩ := lock_eq_some.1 hlock
    exact calm_of_producer rfl rfl rfl (by simp [Blocked])
  case h_5 delta hpc =>
    split_ifs at hstep with htest
    · obtain rfl := Option.some.inj hstep
      exact calm_of_producer rfl rfl rfl (by simp [Blocked])
    · obtain rfl := Option.some.inj hstep
      have hrunning : s.session.aborted = false := by
        cases haborted : s.session.aborted with
        | false => rfl
        | true => simp [haborted] at htest
      exact calm_of_producer rfl rfl rfl fun _ => Or.inr hrunning
  case h_6 delta hpc =>
    obtain rfl := Option.some.inj hstep
    exact calm_of_producer rfl rfl rfl fun _ => Or.inl (Or.inl ⟨delta, hpc⟩)
  case h_7 delta hpc =>
    split_ifs at hstep with hset
    obtain ⟨s₁, hlock, rfl⟩ := Option.map_eq_some_iff.1 hstep
    obtain ⟨-, rfl⟩ := lock_eq_some.1 hlock
    exact calm_of_producer rfl rfl rfl (by simp [Blocked])
  case h_8 delta hpc =>
    obtain rfl := Option.some.inj hstep
    unfold queue
    split_ifs with haborted
    · exact calm_of_producer rfl rfl rfl (by simp [Blocked])
    · exact calm_of_producer rfl rfl rfl (by simp [Blocked])
  case h_9 outcome hpc =>
    split_ifs at hstep with hfree
    obtain rfl := Option.some.inj hstep
    cases outcome <;> exact calm_of_producer rfl rfl rfl (by simp [Blocked])
  case h_10 hpc =>
    obtain rfl := Option.some.inj hstep
    exact calm_of_producer rfl rfl rfl (by simp [Blocked])

theorem send_calm {caller : ℕ} {next : CallerPc R}
    (hbefore : (s.callers caller).isCleaning = false) (hafter : next.isCleaning = false)
    (sink : Sink) : Calm s (s.send caller next sink) := by
  cases sink
  · exact .of_goto hbefore hafter rfl (Or.inl rfl) rfl rfl id
  · exact .of_goto hbefore rfl rfl (Or.inl rfl) rfl rfl id
  · exact .of_goto hbefore rfl rfl (Or.inl rfl) rfl rfl id

theorem provide_calm {caller : ℕ} (hbefore : (s.callers caller).isCleaning = false) :
    Calm s (s.provide caller) := by
  unfold provide
  split
  · exact .of_goto hbefore rfl rfl (Or.inl rfl) rfl rfl id
  split
  · exact .of_goto hbefore rfl rfl (Or.inl rfl) rfl rfl id
  · exact .of_goto hbefore rfl rfl (Or.inl rfl) rfl rfl id

theorem enter_calm {caller : ℕ} {role : Role} (hstep : s.enter caller role = some s') :
    Calm s s' := by
  unfold enter at hstep
  split at hstep
  · rename_i hidle
    obtain rfl := Option.some.inj hstep
    refine .of_goto (by rw [hidle]; rfl) ?_ rfl (Or.inl rfl) rfl rfl id
    cases role with
    | chunkProvider => rfl
    | resourceReleaser success => cases success <;> rfl
    | destructor => rfl
  · cases hstep

theorem wake_calm (party : Party) : Calm s (s.wake party) := by
  refine calm_of_producer rfl rfl rfl ?_
  rintro (hblocking | ⟨hwaiting, hset⟩)
  · exact Or.inl (Or.inl hblocking)
  · exact Or.inl (Or.inr ⟨hwaiting, List.mem_of_mem_erase hset⟩)

theorem expire_calm {caller : ℕ} (hstep : s.expire caller = some s') : Calm s s' := by
  unfold expire at hstep
  split at hstep
  · rename_i timedOut hwaiting
    obtain rfl := Option.some.inj hstep
    exact .of_goto (by rw [hwaiting]; rfl) rfl rfl (Or.inl rfl) rfl rfl List.mem_of_mem_erase
  · cases hstep

/-- The steps of the chunk provider, and of a call of `finish_once` that finds the cleanup done. -/
theorem runCaller_calm {caller : ℕ} {sink : Sink}
    (hcalm : ∀ call, s.callers caller = .finishing call → s.cleanup.cleanupDone = true)
    (hbefore : (s.callers caller).isCleaning = false)
    (hstep : s.runCaller token caller sink = some s') : Calm s s' := by
  have hgoto : ∀ {pc : CallerPc R}, pc.isCleaning = false → Calm s (s.goto caller pc) :=
    fun hafter => .of_goto hbefore hafter rfl (Or.inl rfl) rfl rfl id
  unfold runCaller at hstep
  split at hstep
  case h_1 => cases hstep
  case h_2 hpc =>
    obtain ⟨s₁, hlock, rfl⟩ := Option.map_eq_some_iff.1 hstep
    obtain ⟨-, rfl⟩ := lock_eq_some.1 hlock
    exact .of_goto hbefore rfl rfl (Or.inl rfl) rfl rfl id
  case h_3 timedOut hpc =>
    split_ifs at hstep
    · exact Option.some.inj hstep ▸ provide_calm hbefore
    · obtain rfl := Option.some.inj hstep
      exact .of_goto hbefore rfl rfl (Or.inl rfl) rfl rfl id
    · obtain rfl := Option.some.inj hstep
      exact .of_goto hbefore rfl rfl (Or.inl rfl) rfl rfl (by simp)
  case h_4 timedOut hpc =>
    split_ifs at hstep
    obtain ⟨s₁, hlock, rfl⟩ := Option.map_eq_some_iff.1 hstep
    obtain ⟨-, rfl⟩ := lock_eq_some.1 hlock
    exact .of_goto hbefore rfl rfl (Or.inl rfl) rfl rfl id
  case h_5 hpc => exact Option.some.inj hstep ▸ send_calm hbefore rfl sink
  case h_6 deltas hpc =>
    obtain rfl := Option.some.inj hstep
    exact .of_goto hbefore rfl rfl (Or.inl rfl) rfl rfl (by simp [notifyAll, goto])
  case h_7 deltas hpc => exact Option.some.inj hstep ▸ send_calm hbefore rfl sink
  case h_8 hpc => exact Option.some.inj hstep ▸ hgoto rfl
  case h_9 delta deltas hpc => exact Option.some.inj hstep ▸ send_calm hbefore rfl sink
  case h_10 error hpc => exact Option.some.inj hstep ▸ send_calm hbefore rfl sink
  case h_11 error hpc => exact Option.some.inj hstep ▸ send_calm hbefore rfl sink
  case h_12 call hpc =>
    rw [if_pos (hcalm call hpc)] at hstep
    obtain rfl := Option.some.inj hstep
    exact .of_goto hbefore rfl rfl (Or.inr ⟨hcalm call hpc, rfl⟩) rfl rfl id
  case h_13 stage call hpc =>
    rw [hpc] at hbefore
    cases hbefore

/-- The first call of `finish_once` takes the cleanup over. -/
def exchange (s : State R) (caller : ℕ) (call : Finish) : State R :=
  { s.goto caller (.cleaning .exchanged call) with
    cleanup := { s.cleanup with cleanupDone := true } }

/-- A step is none of the cleanup's, or the exchange that begins it, or one of its stages. -/
theorem step_cases {action : Action R} (hstep : s.step token action = some s') :
    Calm s s' ∨ ∃ caller sink, action = .run caller sink ∧
      ((∃ call, s.callers caller = .finishing call ∧ s.cleanup.cleanupDone = false ∧
          s' = s.exchange caller call) ∨
        ∃ stage call, s.callers caller = .cleaning stage call ∧
          s.clean token caller call stage = some s') := by
  cases action with
  | deliver delta =>
      left
      simp only [step] at hstep
      split at hstep
      · split_ifs at hstep
        · obtain rfl := Option.some.inj hstep
          exact calm_of_producer rfl rfl rfl Or.inl
        · obtain rfl := Option.some.inj hstep
          exact calm_of_producer rfl rfl rfl (by simp [Blocked])
      · cases hstep
  | infer outcome =>
      left
      simp only [step] at hstep
      split at hstep
      · obtain rfl := Option.some.inj hstep
        exact calm_of_producer rfl rfl rfl (by simp [Blocked])
      · cases hstep
  | produce => exact Or.inl (produce_calm hstep)
  | notifyOne party =>
      left
      simp only [step] at hstep
      split at hstep
      · split_ifs at hstep
        obtain rfl := Option.some.inj hstep
        exact calm_of_producer rfl rfl rfl (by simp [Blocked])
      · cases hstep
  | wake party => exact Or.inl (Option.some.inj hstep ▸ wake_calm party)
  | expire caller => exact Or.inl (expire_calm hstep)
  | enter caller role => exact Or.inl (enter_calm hstep)
  | run caller sink =>
      by_cases hcleaning : (s.callers caller).isCleaning = true
      · right
        refine ⟨caller, sink, rfl, Or.inr ?_⟩
        cases hpc : s.callers caller with
        | cleaning stage call =>
            refine ⟨stage, call, rfl, ?_⟩
            simpa only [step, runCaller, hpc] using hstep
        | _ => rw [hpc] at hcleaning; cases hcleaning
      · rw [Bool.not_eq_true] at hcleaning
        by_cases hfirst : ∃ call, s.callers caller = .finishing call ∧ s.cleanup.cleanupDone = false
        · obtain ⟨call, hpc, hdone⟩ := hfirst
          right
          refine ⟨caller, sink, rfl, Or.inl ⟨call, hpc, hdone, ?_⟩⟩
          simp only [step, runCaller, hpc, hdone] at hstep
          exact (Option.some.inj hstep).symm
        · left
          refine runCaller_calm (fun call hpc => ?_) hcleaning hstep
          by_contra hdone
          exact hfirst ⟨call, hpc, Bool.not_eq_true _ ▸ hdone⟩

theorem Progress.cleaning_of_here (hs : s.Progress token) {caller : ℕ} {stage : Stage R}
    {call : Finish} (hhere : s.callers caller = .cleaning stage call) :
    s.Cleaning caller stage call := by
  cases hs with
  | untouched quiet =>
      have hquiet := quiet caller
      rw [hhere] at hquiet
      cases hquiet
  | cleaning cleaner stage' call' hc =>
      obtain rfl : caller = cleaner := by
        by_contra hne
        have halone := hc.alone caller hne
        rw [hhere] at halone
        cases halone
      have hsame := hc.here
      rw [hhere] at hsame
      cases hsame
      exact hc
  | cleaned quiet =>
      have hquiet := quiet caller
      rw [hhere] at hquiet
      cases hquiet

theorem Progress.exchange (hs : s.Progress token) {caller : ℕ} {call : Finish}
    (hdone : s.cleanup.cleanupDone = false) : (s.exchange caller call).Progress token := by
  cases hs with
  | untouched quiet cleanup aborted =>
      refine .cleaning caller .exchanged call ?_
      exact {
        here := update_self ..
        alone := fun other hne => by
          change ((update s.callers caller _ other).isCleaning) = false
          rw [update_of_ne hne]
          exact quiet other
        done := rfl
        recorded := by simp [State.exchange, goto, cleanup, Stage.recorded]
        released := by simp [State.exchange, goto, cleanup, Stage.released]
        completed := by simp [State.exchange, goto, cleanup]
        aborted := aborted }
  | cleaning cleaner stage call' hc => rw [hc.done] at hdone; cases hdone
  | cleaned quiet done => rw [done] at hdone; cases hdone

/-- The cleaning thread goes on to the next stage. -/
theorem Cleaning.goto {caller : ℕ} {stage stage' : Stage R} {call call' : Finish}
    (hc : s.Cleaning caller stage call)
    (hcallers : s'.callers = update s.callers caller (.cleaning stage' call'))
    (hdone : s'.cleanup.cleanupDone = s.cleanup.cleanupDone)
    (hrecorded : s'.cleanup.recorded.length = stage'.recorded)
    (hreleased : s'.cleanup.released = stage'.released)
    (hcompleted : s'.cleanup.completed = s.cleanup.completed)
    (haborted : s'.session.aborted = (stage'.hasStored && call'.abortedStream)) :
    s'.Progress token :=
  .cleaning caller stage' call' {
    here := by rw [hcallers, update_self]
    alone := fun other hne => by rw [hcallers, update_of_ne hne, hc.alone other hne]
    done := hdone.trans hc.done
    recorded := hrecorded
    released := hreleased
    completed := hcompleted.trans hc.completed
    aborted := haborted }

theorem Cleaning.next {caller : ℕ} {stage : Stage R} {call : Finish}
    (hc : s.Cleaning caller stage call) (hstep : s.clean token caller call stage = some s') :
    s'.Progress token := by
  have haborted := hc.aborted
  cases stage with
  | exchanged =>
      obtain rfl := Option.some.inj hstep
      exact hc.goto rfl rfl hc.recorded hc.released rfl haborted
  | loaded =>
      obtain rfl := Option.some.inj hstep
      have hrunning : s.session.aborted = false := haborted
      refine hc.goto rfl rfl hc.recorded hc.released rfl ?_
      simp [Stage.hasStored, hrunning]
  | stored =>
      obtain rfl := Option.some.inj hstep
      exact hc.goto rfl rfl hc.recorded hc.released rfl haborted
  | joining =>
      simp only [clean] at hstep
      split at hstep
      · obtain rfl := Option.some.inj hstep
        exact hc.goto rfl rfl hc.recorded hc.released rfl haborted
      · cases hstep
  | joined =>
      simp only [clean] at hstep
      split_ifs at hstep
      obtain rfl := Option.some.inj hstep
      exact hc.goto rfl rfl hc.recorded hc.released rfl haborted
  | recording result error =>
      obtain rfl := Option.some.inj hstep
      refine hc.goto rfl rfl ?_ hc.released rfl haborted
      have hrecorded : s.cleanup.recorded.length = 0 := hc.recorded
      simp [Stage.recorded, hrecorded]
  | releasing =>
      obtain rfl := Option.some.inj hstep
      refine hc.goto rfl rfl hc.recorded ?_ rfl haborted
      have hreleased : s.cleanup.released = 0 := hc.released
      simp [Stage.released, hreleased]
  | completing =>
      obtain rfl := Option.some.inj hstep
      refine .cleaned (fun other => ?_) hc.done hc.recorded hc.released ?_
      · change (update s.callers caller .idle other).isCleaning = false
        by_cases hother : other = caller
        · rw [hother, update_self]
          rfl
        · rw [update_of_ne hother, hc.alone other hother]
      · simp [hc.completed]

/-- Every step keeps one thread at most cleaning up. -/
theorem progress_step {action : Action R} (hs : s.Progress token)
    (hstep : s.step token action = some s') : s'.Progress token := by
  rcases step_cases hstep with hcalm | ⟨caller, sink, rfl, hexchange | hclean⟩
  · exact hcalm.progress hs
  · obtain ⟨call, -, hdone, rfl⟩ := hexchange
    exact hs.exchange hdone
  · obtain ⟨stage, call, hhere, hclean⟩ := hclean
    exact (hs.cleaning_of_here hhere).next hclean

/-- `finish_once` of an aborted stream does not notify while the callback has tested that there is
no room and is not yet in the wait. -/
def NotifiesWaiting (s : State R) (action : Action R) : Prop :=
  ∀ caller sink call, action = .run caller sink → s.callers caller = .cleaning .stored call →
    call.abortedStream = true → ∀ delta, s.producer ≠ .blocking delta

/-- The callback is blocked by no more than before, and no call of `finish_once` has passed its
notification, or else the callback is not blocked at all. -/
theorem clean_awake {caller : ℕ} {stage : Stage R} {call : Finish}
    (hc : s.Cleaning caller stage call) (hs : s.Inv token)
    (hnotifies : stage = .stored → call.abortedStream = true → ∀ delta, s.producer ≠ .blocking delta)
    (hstep : s.clean token caller call stage = some s') :
    s'.Blocked → s'.session.aborted = true →
      ∃ caller call, s'.callers caller = .cleaning .stored call := by
  have hstored : s.Blocked → s.session.aborted = true → stage = .stored := by
    intro hblocked haborted
    obtain ⟨other, call', hother⟩ := hs.awake hblocked haborted
    have hsame : other = caller := by
      by_contra hne
      have halone := hc.alone other hne
      rw [hother] at halone
      cases halone
    rw [hsame, hc.here] at hother
    cases hother
    rfl
  intro hblocked haborted
  cases stage with
  | exchanged =>
      obtain rfl := Option.some.inj hstep
      cases hstored hblocked haborted
  | loaded =>
      obtain rfl := Option.some.inj hstep
      exact ⟨caller, call, update_self ..⟩
  | stored =>
      obtain rfl := Option.some.inj hstep
      have hcall : call.abortedStream = true := by
        have habortedCall := hc.aborted
        rw [show s.session.aborted = true from haborted] at habortedCall
        simpa [Stage.hasStored] using habortedCall.symm
      rcases hblocked with ⟨delta, hblocking⟩ | ⟨-, hset⟩
      · exact absurd hblocking (hnotifies rfl hcall delta)
      · cases hset
  | joining =>
      simp only [clean] at hstep
      split at hstep
      · obtain rfl := Option.some.inj hstep
        cases hstored hblocked haborted
      · cases hstep
  | joined =>
      simp only [clean] at hstep
      split_ifs at hstep
      obtain rfl := Option.some.inj hstep
      cases hstored hblocked haborted
  | recording result error =>
      obtain rfl := Option.some.inj hstep
      cases hstored hblocked haborted
  | releasing =>
      obtain rfl := Option.some.inj hstep
      cases hstored hblocked haborted
  | completing =>
      obtain rfl := Option.some.inj hstep
      cases hstored hblocked haborted

theorem inv_step {action : Action R} (hs : s.Inv token) (hnotifies : s.NotifiesWaiting action)
    (hstep : s.step token action = some s') : s'.Inv token := by
  refine ⟨progress_step hs.progress hstep, ?_⟩
  rcases step_cases hstep with hcalm | ⟨caller, sink, rfl, hexchange | hclean⟩
  · exact (hcalm.inv hs).awake
  · obtain ⟨call, hpc, hdone, rfl⟩ := hexchange
    intro hblocked haborted
    obtain ⟨other, call', hother⟩ := hs.awake hblocked haborted
    rw [(hs.progress.cleaning_of_here hother).done] at hdone
    cases hdone
  · obtain ⟨stage, call, hhere, hclean⟩ := hclean
    refine clean_awake (hs.progress.cleaning_of_here hhere) hs ?_ hclean
    rintro rfl hcall
    exact hnotifies caller sink call rfl hhere hcall

/-- The request is recorded once, the slot released once and the hold completed at most once, also
where the join never ends. -/
theorem always_cleansOnce (token : ℕ) (actions : List (Action R)) :
    Execution.Always (step token) (CleansOnce token) {} actions := by
  have hinitial : Progress token ({} : State R) := .untouched (fun _ => rfl) rfl rfl
  intro done s _ hexec
  exact (Execution.invariant_of_step (fun _ _ _ h hstep => progress_step h hstep) hinitial
    hexec).cleansOnce

/-- The cleanup is done at most once, and neither here nor after the callback's next step is the
inference thread blocked while `finish_once` of the aborted and notified stream joins it. -/
structure Safe (token : ℕ) (s : State R) : Prop where
  once : s.CleansOnce token
  joins : ¬s.Hung
  blocks : ∀ s', s.produce = some s' → ¬s'.Hung

theorem Inv.safe (h : s.Inv token) : s.Safe token := by
  refine ⟨h.progress.cleansOnce, h.not_hung, fun s' hstep => ?_⟩
  have hnotifies : s.NotifiesWaiting .produce := fun _ _ _ heq => by cases heq
  exact (inv_step h hnotifies hstep).not_hung

/-- A notification that the callback misses leaves it to block for good. -/
theorem Inv.notifiesWaiting (h : s.Inv token) {action : Action R}
    (hnext : ∀ s', s.step token action = some s' → s'.Safe token) : s.NotifiesWaiting action := by
  rintro caller sink call rfl hhere hcall delta hblocking
  have hstep : s.step token (.run caller sink) =
      some (s.notifyAll.goto caller (.cleaning .joining call)) := by
    simp only [step, runCaller, hhere]
    rfl
  have haborted : s.session.aborted = true := by
    rw [(h.progress.cleaning_of_here hhere).aborted, hcall]
    rfl
  let s₁ := s.notifyAll.goto caller (.cleaning .joining call)
  have hproduce : s₁.produce =
      some { s₁.unlock with waitSet := .inference :: s₁.waitSet, producer := .waiting delta } := by
    have hproducer : s₁.producer = .blocking delta := hblocking
    simp only [produce, hproducer]
  apply (hnext s₁ hstep).blocks _ hproduce
  exact ⟨⟨delta, rfl⟩, List.mem_cons_self, haborted, caller, call, update_self ..⟩

theorem inv_initial : (State.Inv token ({} : State R)) := by
  refine ⟨.untouched (fun _ => rfl) rfl rfl, ?_⟩
  intro _ haborted
  cases haborted

/-- Every state of a run of a stream is safe if and only if no notification of an aborted stream
falls between the callback's test and its wait. -/
theorem always_safe_iff (token : ℕ) (actions : List (Action R)) :
    Execution.Always (step token) (Safe token) {} actions ↔
      Execution.Meets (step token) NotifiesWaiting {} actions :=
  Execution.always_iff_meets (I := Inv token) (fun _ h => h.safe)
    (fun _ _ _ h hnotifies hstep => inv_step h hnotifies hstep)
    (fun _ _ h hnext => h.notifiesWaiting hnext) inv_initial

def push (delta : InferenceDelta) : List (Action Unit) :=
  [.deliver delta, .produce, .produce, .produce, .notifyOne .inference]

/-- The queue fills up, the callback finds it full, and then the stream is released before the
callback waits. -/
def lostWakeup : List (Action Unit) :=
  (List.replicate maxPendingStreamDeltas (push { content := ['a'] })).flatten ++
    [.deliver { content := ['a'] }, .produce, .produce, .enter 0 (.resourceReleaser false),
      .run 0 .accepts, .run 0 .accepts, .run 0 .accepts, .run 0 .accepts, .produce]

/-- The inference thread is blocked for good and the caller joins it. -/
def joinsBlocked (s : State Unit) (caller : ℕ) : Bool :=
  match s.producer, s.callers caller with
  | .waiting _, .cleaning .joining _ =>
      decide (Party.inference ∈ s.waitSet) && s.session.aborted
  | _, _ => false

theorem hung_of_joinsBlocked {s : State Unit} {caller : ℕ} (h : s.joinsBlocked caller = true) :
    s.Hung := by
  unfold joinsBlocked at h
  split at h
  · rename_i delta call hproducer hcaller
    rw [Bool.and_eq_true, decide_eq_true_eq] at h
    exact ⟨⟨delta, hproducer⟩, h.1, h.2, caller, call, hcaller⟩
  · cases h

theorem lostWakeup_hangs :
    ¬ ∀ token (actions : List (Action Unit)),
      Execution.Always (step token) (fun s => ¬s.Hung ∧ s.CleansOnce token) {} actions := by
  intro hall
  have hrun : (Execution.exec (step 0) {} lostWakeup).map (·.joinsBlocked 0) = some true := by
    decide +kernel
  obtain ⟨s, hexec, hblocked⟩ := Option.map_eq_some_iff.1 hrun
  exact (hall 0 lostWakeup lostWakeup s List.prefix_rfl hexec).1 (hung_of_joinsBlocked hblocked)

end State

end StreamCleanup

end InferDeck.Gateway
