import InferDeck.SequenceIdentity
import InferDeck.PromptPositions

/-!
# The loop of a bounded scheduler

The active tasks of a scheduler with a bounded pool, in the order of their submission. A pass of
the admission looks at one task after the other while clients submit, cancel and stop; between two
passes the loop works on the admitted tasks and takes out those that have ended. A task that takes
part in a verification has its last token and a draft in the batch.
-/

namespace InferDeck.LlamaWrapper.SlotCache

open Function SequenceMemory Execution

/-- A task in `active_`. -/
structure PoolEntry where
  /-- The number of its submission. -/
  id : ℕ
  task : SlotTask
  admitted : Bool := false
  reservedPositions : ℤ := 0
  /-- The draft in the batch that is not verified yet. -/
  specDraft : List ℤ := []

namespace PoolEntry

variable (e : PoolEntry)

/-- What the admission reads of a task. -/
def pool : LlamaWrapper.SlotTask where
  slotId := e.task.slotId
  promptTokens := e.task.tokens
  promptPositionCount := e.task.prompt.promptPositionCount
  maxTokens := e.task.prompt.maxTokens
  extCancel := e.task.extCancel
  callerCancel := e.task.callerCancel
  callerStop := e.task.callerStop
  admitted := e.admitted
  reservedPositions := e.reservedPositions

def live : Bool := e.pool.live

def usedPositions : ℤ :=
  e.task.nPos + if e.specDraft = [] then 0 else 1 + e.specDraft.length

end PoolEntry

inductive PoolPhase where
  | working
  /-- A pass: the tasks still to look at, what is reserved, and whom the pass has rejected. -/
  | admitting (todo : List ℕ) (reserved : ℤ) (rejected : List (ℕ × String))

structure BoundedLoop where
  active : List PoolEntry := []
  nextId : ℕ := 0
  target : ℕ → Cells := fun _ => []
  draft : ℕ → Cells := fun _ => []
  phase : PoolPhase := .working

inductive BoundedAction where
  | submit (slotId : ℕ) (prompt : PreparedPrompt) (lastPromptTokens : List ℤ)
      (checkpoint : Checkpoint) (mtpCacheSynced : Bool)
  | signal (id : ℕ) (extCancel callerCancel callerStop : Bool)
  | beginPass
  /-- Look at the next task of the pass. -/
  | consider
  | endPass
  | draft (id : ℕ) (tokens : List ℤ)
  | work (id : ℕ) (action : SlotAction)
  | remove (id : ℕ)
  /-- `fail_all`. -/
  | fail

/-- The steps of a slot that are the loop's work on its task. -/
def SlotAction.ofLoop : SlotAction → Bool
  | init .. | media .. | prefill .. | generate .. | verify .. | cancel | stop => true
  | _ => false

/-- The loop does this to a task that the pool has admitted, with a draft of it in the batch or
with none. -/
def SlotAction.suits (e : PoolEntry) : SlotAction → Bool
  | cancel | stop => true
  | verify _ draft _ _ => e.admitted && !draft.isEmpty && decide (e.specDraft = draft)
  | _ => e.admitted && e.specDraft.isEmpty

/-- The caller's flags, which nobody takes back. -/
def SlotTask.signal (t : SlotTask) (extCancel callerCancel callerStop : Bool) : SlotTask :=
  { t with
    extCancel := t.extCancel || extCancel
    callerCancel := t.callerCancel || callerCancel
    callerStop := t.callerStop || callerStop }

namespace BoundedLoop

variable (m : LoadedModel) (s : ContinuousBatchScheduler) (kv : KvMemory (ℕ → Cells))
  (b : BoundedLoop)

def entry (id : ℕ) : Option PoolEntry := b.active.find? fun e => e.id == id

def modify (id : ℕ) (f : PoolEntry → PoolEntry) : BoundedLoop :=
  { b with active := b.active.map fun e => if e.id = id then f e else e }

def memory : PoolMemory (ℕ → Cells) where
  target := some b.target
  draft := if m.speculative then some b.draft else none

def setMemory (memory : PoolMemory (ℕ → Cells)) : BoundedLoop :=
  { b with
    target := memory.target.getD b.target
    draft := memory.draft.getD b.draft }

def admittedPositions : ℤ :=
  ContinuousBatchScheduler.reservedTotal (b.active.map PoolEntry.pool)

def grant (id : ℕ) (required : ℤ) : BoundedLoop :=
  b.modify id fun e => { e with admitted := true, reservedPositions := required }

/-- One round of the loop of `admit_bounded_pool_tasks`. -/
def consider (candidate : PoolEntry) (todo : List ℕ) (reserved : ℤ)
    (rejected : List (ℕ × String)) : BoundedLoop :=
  let required := s.reservation candidate.pool
  let reject := fun message =>
    PoolPhase.admitting todo reserved (rejected ++ [(candidate.id, message)])
  if candidate.admitted || !candidate.live then
    { b with phase := .admitting todo reserved rejected }
  else if s.capacity < required then
    { b with phase := reject "request exceeds shared context pool" }
  else if !boundedPoolCanAdmit reserved required s.capacity then
    -- the tasks behind a waiting one wait too
    { b with phase := .admitting [] reserved rejected }
  else
    let reclaimed := s.reclaimBoundedPoolCapacity kv (b.active.map PoolEntry.pool) candidate.pool
      reserved required (b.memory m)
    if !reclaimed.1 then
      { b.setMemory reclaimed.2 with
        phase := reject "unable to reclaim shared context pool capacity" }
    else
      { (b.setMemory reclaimed.2).grant candidate.id required with
        phase := .admitting todo (reserved + required) rejected }

/-- The loop's work on the entry's task. -/
def work (e : PoolEntry) (action : SlotAction) : Option BoundedLoop :=
  let view : View :=
    { slot := { sequenceId := e.task.slotId }
      call := some { stream := false, task := e.task }
      memory := ⟨b.target e.task.slotId, b.draft e.task.slotId⟩ }
  (view.step m action).bind fun view' => view'.call.map fun call =>
    { b.modify e.id fun e => { e with task := call.task, specDraft := [] } with
      target := update b.target e.task.slotId view'.memory.target
      draft := update b.draft e.task.slotId view'.memory.draft }

def step : BoundedAction → Option BoundedLoop
  | .submit slotId prompt lastPromptTokens checkpoint mtpCacheSynced =>
      some { b with
        active := b.active ++ [
          { id := b.nextId
            task := { slotId, prompt, lastPromptTokens, checkpoint, mtpCacheSynced } }]
        nextId := b.nextId + 1 }
  | .signal id extCancel callerCancel callerStop =>
      some (b.modify id fun e => { e with task := e.task.signal extCancel callerCancel callerStop })
  | .beginPass =>
      match b.phase with
      | .working =>
          some { b with
            phase := .admitting (b.active.map PoolEntry.id) b.admittedPositions [] }
      | _ => none
  | .consider =>
      match b.phase with
      | .admitting (id :: todo) reserved rejected =>
          (b.entry id).map fun candidate => b.consider m s kv candidate todo reserved rejected
      | _ => none
  | .endPass =>
      match b.phase with
      | .admitting [] _ rejected =>
          some { b with
            active := b.active.filter fun e => e.id ∉ rejected.map Prod.fst
            phase := .working }
      | _ => none
  | .draft id tokens =>
      match b.phase, b.entry id with
      | .working, some e =>
          if e.admitted && e.task.promptDone && !e.task.done then
            some (b.modify id fun e => { e with specDraft := tokens })
          else none
      | _, _ => none
  | .work id action =>
      match b.phase, b.entry id with
      | .working, some e =>
          if action.ofLoop && action.suits e then b.work m e action else none
      | _, _ => none
  | .remove id =>
      match b.phase, b.entry id with
      | .working, some e =>
          if e.task.done then some { b with active := b.active.filter fun e => e.id ≠ id }
          else none
      | _, _ => none
  | .fail => some { b with active := [], phase := .working }

end BoundedLoop

end InferDeck.LlamaWrapper.SlotCache
