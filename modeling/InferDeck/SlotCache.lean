import InferDeck.PrepareInference
import InferDeck.SchedulerLoop
import InferDeck.SequenceMemory

/-!
# Reuse of a slot's sequence

A slot keeps a record of the tokens that its sequence was decoded from. A call of
`predict_cancellable` or `predict_stream` takes a snapshot of the record, the scheduler's thread
keeps as much of the sequence as the new prompt shares with it and writes the rest, and the calling
thread writes the new record from the tokens that it kept. The steps of a call are those of one
iteration of the scheduler's loop for its task, and the tokens that the caller takes from the
queue. What other tasks do to a batch, the sampler and the memory operations that can fail are part
of the action.
-/

namespace InferDeck.LlamaWrapper.SlotCache

open Function SequenceMemory

abbrev Cells := List (Cell ℤ)

abbrev Bytes := List UInt8

structure LoadedModel where
  /-- There are a draft context and a speculative decoder. -/
  speculative : Bool
  /-- The draft context shares the memory of the target context. -/
  draftShares : Bool
  /-- The model is recurrent or hybrid. -/
  recurrent : Bool
  nBatch : ℕ
  mtpMaxActiveRequests : ℕ
  draftMargin : ℤ
  isEog : ℤ → Bool
  tokenToPiece : ℤ → Bytes

/-- States of a sequence that were captured while its prompt was decoded. -/
structure Checkpoint where
  recurrent : Option Cells := none
  recurrentDraft : Option Cells := none
  recurrentReplay : Option Cells := none
  pos : ℕ := 0

structure SlotState where
  sequenceId : ℕ
  busy : Bool := false
  sequenceBound : Bool := false
  lastPromptTokens : List ℤ := []
  checkpoint : Checkpoint := {}
  mtpCacheSynced : Bool := true

/-- A prompt as `prepare_inference` hands it over. -/
structure PreparedPrompt extends PredictSetup where
  checkpointCapturePos : ℕ
  stopTokens : List ℤ := []
  stopStrings : List Bytes := []
  logprobs : Bool := false
  media_iff : mediaChunks = [] ↔ tokenNull ∉ promptTokens
  text_positions : mediaChunks = [] → promptPositionCount = promptTokens.length
  media_positions : ∀ text, tokenNull ∉ text → text ++ [tokenNull] <+: promptTokens →
    (text.length : ℤ) ≤ promptPositionCount
  media_capture : mediaChunks ≠ [] → checkpointCapturePos = 0

/-- What `init_task` says that it did with the sequence. -/
inductive Start where
  | clear
  | extend
  | reuse
  | restore
  deriving DecidableEq

structure SlotTask where
  slotId : ℕ
  prompt : PreparedPrompt
  lastPromptTokens : List ℤ
  checkpoint : Checkpoint
  mtpCacheSynced : Bool
  extCancel : Bool := false
  callerCancel : Bool := false
  callerStop : Bool := false
  initialized : Bool := false
  start : Start := .clear
  promptPos : ℕ := 0
  promptDone : Bool := false
  nPos : ℕ := 0
  nGenerated : ℕ := 0
  lastToken : ℤ := 0
  mtpEligible : Bool := false
  outCachedPromptTokens : ℕ := 0
  outCheckpoint : Checkpoint := {}
  outMtpCacheSynced : Bool := true
  outQueue : List TokenEvent := []
  /-- The loop has taken the task out of `active_`. -/
  done : Bool := false

structure Memory where
  target : Cells := []
  draft : Cells := []

structure Iteration where
  runnable : ℕ
  hasMediaRequest : Bool := false
  /-- Another task of the batch is eligible for speculative decoding. -/
  otherEligible : Bool := false

namespace LoadedModel

variable (m : LoadedModel)

def adaptiveMtpEnabled (it : Iteration) : Bool :=
  m.speculative && decide (0 < it.runnable) && decide (0 < m.mtpMaxActiveRequests) &&
    decide (it.runnable ≤ m.mtpMaxActiveRequests)

def mtpWindow (it : Iteration) : Bool := !it.hasMediaRequest && m.adaptiveMtpEnabled it

end LoadedModel

/-- Which memory operations of `init_task` succeed: the removal of part of a sequence, and the
restoring of a captured state. -/
structure InitOutcome where
  targetTrims : Bool := true
  draftTrims : Bool := true
  restores : Bool := true

namespace SlotTask

variable (m : LoadedModel) (t : SlotTask)

def tokens : List ℤ := t.prompt.promptTokens

def shouldCancel : Bool := t.callerCancel || t.extCancel

/-- The loop has begun with the task, and its caller has not stopped or cancelled it. -/
def live : Bool := t.initialized && !t.shouldCancel && !t.callerStop

/-- The prompt's next token stands for a media chunk. -/
def atMedia : Bool := t.tokens[t.promptPos]? == some tokenNull

def push (event : TokenEvent) : SlotTask := { t with outQueue := t.outQueue ++ [event] }

def complete (error : Option String) : SlotTask := { t.push (.done error) with done := true }

/-- Leading tokens of the prompt that the record has too, less one if that is all of them. -/
def nPast : ℕ :=
  let n := commonPrefix t.lastPromptTokens t.tokens
  if t.tokens.length ≤ n then n - 1 else n

def recurrentCheckpointUsable (checkpoint : Option Cells) (pos common promptTokens : ℕ) : Bool :=
  checkpoint.isSome && decide (0 < pos) && decide (pos ≤ common) && decide (pos ≤ promptTokens)

def checkpointUsable (nPast : ℕ) : Bool :=
  let usable := fun checkpoint =>
    recurrentCheckpointUsable checkpoint t.checkpoint.pos nPast t.tokens.length
  usable t.checkpoint.recurrent &&
    (!t.mtpEligible || (!m.draftShares && decide (1 < t.checkpoint.pos) &&
      usable t.checkpoint.recurrentDraft && usable t.checkpoint.recurrentReplay))

def keepCheckpoint (usable : Bool) : SlotTask :=
  if t.checkpoint.pos = t.prompt.checkpointCapturePos ∧ usable then
    { t with outCheckpoint :=
      { recurrent := t.checkpoint.recurrent
        recurrentDraft := if t.mtpEligible then t.checkpoint.recurrentDraft else none
        recurrentReplay := if t.mtpEligible then t.checkpoint.recurrentReplay else none
        pos := t.checkpoint.pos } }
  else t

def startAt (start : Start) (k : ℕ) : SlotTask :=
  { t with start, promptPos := k, nPos := k, outCachedPromptTokens := k }

/-- The sequence as it was when the checkpoint was captured. The token that is replayed in between
is overwritten with both states. -/
def restoreCheckpoint (memory : Memory) : Memory where
  target := trim t.checkpoint.pos (t.checkpoint.recurrent.getD [])
  draft :=
    if t.mtpEligible then trim t.checkpoint.pos (t.checkpoint.recurrentDraft.getD [])
    else memory.draft

/-- `init_task` from the comparison of `n_past` with zero on. -/
def reuseSequence (outcome : InitOutcome) (nPast : ℕ) (memory : Memory) : SlotTask × Memory :=
  if nPast = 0 then (t.startAt .clear 0, {})
  else
    let physical :=
      if t.mtpEligible then min (extent memory.target) (extent memory.draft)
      else extent memory.target
    let usable := t.checkpointUsable m nPast
    let t := t.keepCheckpoint usable
    let n := min nPast physical
    if n = 0 then (t.startAt .clear 0, {})
    else if physical ≤ n then (t.startAt .extend n, memory)
    else if outcome.targetTrims && (!t.mtpEligible || outcome.draftTrims) then
      (t.startAt .reuse n,
        { target := trim n memory.target
          draft := if t.mtpEligible then trim n memory.draft else memory.draft })
    else if usable && outcome.restores then
      (t.startAt .restore t.checkpoint.pos, t.restoreCheckpoint memory)
    else (t.startAt .clear 0, {})

/-- A short continuation of a long sequence, which is not worth a resynchronisation. -/
def mtpDeferred (memory : Memory) : Bool :=
  decide (0 < t.prompt.maxTokens) && decide (t.prompt.maxTokens ≤ m.draftMargin + 2) &&
    decide (m.nBatch ≤ min t.nPast (extent memory.target))

def initTask (outcome : InitOutcome) (memory : Memory) : SlotTask × Memory :=
  let t := { t with outMtpCacheSynced := !m.speculative || t.mtpEligible }
  if !t.prompt.mediaChunks.isEmpty then
    ({ t with outMtpCacheSynced := false }.startAt .clear 0, {})
  else if t.mtpEligible && !t.mtpCacheSynced then
    if t.mtpDeferred m memory then
      reuseSequence m { t with mtpEligible := false, outMtpCacheSynced := false } outcome t.nPast
        memory
    else (t.startAt .clear 0, {})
  else reuseSequence m t outcome t.nPast memory

/-- The flags that an iteration of the loop takes back. -/
def adapt (it : Iteration) : SlotTask :=
  { t with
    mtpEligible := t.mtpEligible && m.adaptiveMtpEnabled it
    outMtpCacheSynced := t.outMtpCacheSynced && m.mtpWindow it }

/-- Cells that the batch writes for the task, in the draft context too if it processes the
batch. -/
def write (it : Iteration) (cells : Cells) (memory : Memory) : Memory where
  target := memory.target ++ cells
  draft :=
    if m.speculative && (t.mtpEligible || it.otherEligible) then memory.draft ++ cells
    else memory.draft

def evalMedia (offsets : List ℕ) (memory : Memory) : Option (SlotTask × Memory) :=
  (t.prompt.mediaChunks.find? fun chunk => chunk.tokenStart = (t.promptPos : ℤ)).map fun chunk =>
    ({ t with
        promptPos := t.promptPos + chunk.tokenCount.toNat
        nPos := t.nPos + chunk.positionCount
        outMtpCacheSynced := false },
      { memory with
        target := memory.target ++ offsets.map fun offset => ⟨t.nPos + offset, tokenNull⟩ })

/-- The tokens that the batch takes of the prompt, out of the given number that it has room for. -/
def chunkLength (room : ℕ) : ℕ :=
  let chunk := min (t.tokens.length - t.promptPos) room
  let chunk :=
    match t.prompt.mediaChunks.find? fun media => (t.promptPos : ℤ) < media.tokenStart with
    | some media => min chunk (media.tokenStart.toNat - t.promptPos)
    | none => chunk
  let capturePos := t.prompt.checkpointCapturePos
  let chunk :=
    if m.speculative && !m.draftShares && t.mtpEligible && decide (t.promptPos < capturePos - 1)
    then min chunk (capturePos - 1 - t.promptPos) else chunk
  if t.promptPos < capturePos then min chunk (capturePos - t.promptPos) else chunk

/-- Which of the states that are due at a position could be captured. -/
structure Captures where
  replay : Bool := true
  target : Bool := true
  draft : Bool := true

def captureReplay (captures : Captures) (memory : Memory) : SlotTask :=
  if m.speculative && !m.draftShares && t.mtpEligible &&
      decide (1 < t.prompt.checkpointCapturePos) &&
      decide (t.promptPos = t.prompt.checkpointCapturePos - 1) then
    { t with outCheckpoint := { t.outCheckpoint with
        recurrentReplay := if captures.replay then some memory.target else none } }
  else t

def captureCheckpoint (captures : Captures) (memory : Memory) : SlotTask :=
  if t.promptPos = t.prompt.checkpointCapturePos ∧ captures.target then
    if m.speculative && t.mtpEligible then
      if m.draftShares || t.outCheckpoint.recurrentReplay.isNone || !captures.draft then t
      else
        { t with outCheckpoint := { t.outCheckpoint with
            recurrent := some memory.target
            recurrentDraft := some memory.draft
            pos := t.prompt.checkpointCapturePos } }
    else
      { t with outCheckpoint :=
        { recurrent := some memory.target, pos := t.prompt.checkpointCapturePos } }
  else t

def stopToken (id : ℤ) : Bool := m.isEog id || t.prompt.stopTokens.contains id

def generationLimitReached : Bool :=
  decide (t.prompt.maxTokens ≤ 0) || decide (t.prompt.maxTokens - 1 ≤ t.nGenerated)

def sampled (id : ℤ) : SlotTask :=
  let t := { t with promptDone := true }
  if t.stopToken m id then t.complete none
  else if t.generationLimitReached then (t.push (.token id)).complete none
  else { t.push (.token id) with lastToken := id, nGenerated := t.nGenerated + 1 }

def prefill (it : Iteration) (room : ℕ) (captures : Captures) (id : ℤ) (memory : Memory) :
    SlotTask × Memory :=
  let t := t.adapt m it
  let chunk := t.chunkLength m room
  let memory := t.write m it (layout t.nPos ((t.tokens.drop t.promptPos).take chunk)) memory
  let last := t.tokens.length ≤ t.promptPos + chunk
  let t := { t with
    promptPos := t.promptPos + chunk
    nPos :=
      if last ∧ 0 < t.prompt.promptPositionCount then t.prompt.promptPositionCount.toNat
      else t.nPos + chunk }
  let t := (t.captureReplay m captures memory).captureCheckpoint m captures memory
  (if last then t.sampled m id else t, memory)

def generate (it : Iteration) (id : ℤ) (memory : Memory) : SlotTask × Memory :=
  let t := t.adapt m it
  let memory := t.write m it (layout t.nPos [t.lastToken]) memory
  ({ t with nPos := t.nPos + 1 }.sampled m id, memory)

/-- The tokens that the target context has accepted, until one of them ends the task. -/
def accept (t : SlotTask) : List ℤ → SlotTask
  | [] => t
  | id :: ids =>
      if t.stopToken m id then t.complete none
      else
        let t := { t.push (.token id) with nGenerated := t.nGenerated + 1 }
        if t.prompt.maxTokens ≤ t.nGenerated then t.complete none
        else accept { t with lastToken := id } ids

/-- The last token and a draft are decoded, and the draft's first tokens accepted with the one that
the target context samples after them. -/
def verify (it : Iteration) (draft : List ℤ) (accepted : ℕ) (id : ℤ) (memory : Memory) :
    SlotTask × Memory :=
  let t := t.adapt m it
  let memory := t.write m it (layout t.nPos (t.lastToken :: draft)) memory
  let ids := draft.take accepted ++ [id]
  let t := { t with nPos := t.nPos + ids.length }
  (t.accept m ids, { target := trim t.nPos memory.target, draft := trim t.nPos memory.draft })

end SlotTask

structure Call where
  /-- Of `predict_stream`, not of `predict_cancellable`. -/
  stream : Bool
  task : SlotTask
  generated : Bytes := []
  decodedIds : List ℤ := []
  stringStopped : Bool := false
  callbackAborted : Bool := false
  /-- The tokens that the call has taken from the queue before it stopped. -/
  drained : List ℤ := []

namespace Call

variable (m : LoadedModel) (c : Call)

/-- The token's part of the callback that is given to `drain_task`. -/
def onToken (callback : Bool) (id : ℤ) : Bool × Call :=
  if c.callbackAborted || c.stringStopped then (false, c)
  else
    let piece := m.tokenToPiece id
    if c.stream && piece.isEmpty then (true, { c with drained := c.drained ++ [id] })
    else
      let generated := c.generated ++ piece
      match c.task.prompt.stopStrings.find? fun stop => !stop.isEmpty && stop.isSuffixOf generated with
      | some stop =>
          (false, { c with
            generated := generated.take (generated.length - stop.length)
            stringStopped := true
            task := { c.task with callerStop := true } })
      | none =>
          let c := { c with
            generated
            decodedIds := c.decodedIds ++ [id]
            drained := c.drained ++ [id] }
          if c.stream && !callback then (false, { c with callbackAborted := true }) else (true, c)

def drainToken (callback : Bool) (id : ℤ) : Call :=
  let (more, c) := c.onToken m callback id
  if !more && !c.task.callerStop then { c with task := { c.task with callerCancel := true } } else c

def updateSlot (slot : SlotState) : SlotState :=
  if c.task.initialized then
    if c.task.shouldCancel then
      { slot with lastPromptTokens := [], checkpoint := {}, mtpCacheSynced := false }
    else
      { slot with
        lastPromptTokens := c.task.tokens ++ c.decodedIds
        checkpoint := c.task.outCheckpoint
        mtpCacheSynced := c.task.outMtpCacheSynced }
  else slot

end Call

structure View where
  slot : SlotState
  call : Option Call
  memory : Memory

inductive SlotAction where
  | acquire
  | release
  /-- The client goes away. -/
  | extCancel
  | init (it : Iteration) (outcome : InitOutcome)
  | media (offsets : List ℕ)
  | prefill (it : Iteration) (room : ℕ) (captures : SlotTask.Captures) (id : ℤ)
  | generate (it : Iteration) (id : ℤ)
  | verify (it : Iteration) (draft : List ℤ) (accepted : ℕ) (id : ℤ)
  | cancel
  | stop
  | reject (error : String)
  | evict
  | drain (callback : Bool)

namespace View

variable (m : LoadedModel) (v : View)

/-- Let the loop work on the call's task, which it has initialised and nobody has ended. -/
def schedule (guard : SlotTask → Bool) (f : SlotTask → Memory → Option (SlotTask × Memory)) :
    Option View :=
  v.call.bind fun c =>
    if c.task.done || !guard c.task then none
    else (f c.task v.memory).map fun r =>
      { v with call := some { c with task := r.1 }, memory := r.2 }

def step : SlotAction → Option View
  | .acquire => if v.slot.busy then none else some { v with slot := { v.slot with busy := true } }
  | .release =>
      if v.call.isSome then none
      else some { v with slot := { v.slot with busy := false, sequenceBound := false } }
  | .extCancel =>
      v.call.map fun c => { v with call := some { c with task := { c.task with extCancel := true } } }
  | .init it outcome =>
      v.schedule (fun t => !t.initialized && !t.shouldCancel && !t.callerStop) fun t memory =>
        let eligible := m.mtpWindow it && t.prompt.mediaChunks.isEmpty && !t.prompt.logprobs
        some ({ t with mtpEligible := eligible, initialized := true }.initTask m outcome memory)
  | .media offsets =>
      v.schedule (fun t => t.live && !t.promptDone && t.atMedia) fun t memory =>
        t.evalMedia offsets memory
  | .prefill it room captures id =>
      v.schedule (fun t => t.live && !t.promptDone && decide (t.promptPos < t.tokens.length) &&
        !t.atMedia && decide (0 < (t.adapt m it).chunkLength m room)) fun t memory =>
        some (t.prefill m it room captures id memory)
  | .generate it id =>
      v.schedule (fun t => t.live && t.promptDone) fun t memory =>
        some (t.generate m it id memory)
  | .verify it draft accepted id =>
      v.schedule (fun t => t.live && t.promptDone && (t.adapt m it).mtpEligible &&
        m.mtpWindow it && decide (accepted ≤ draft.length)) fun t memory =>
        some (t.verify m it draft accepted id memory)
  | .cancel =>
      v.schedule SlotTask.shouldCancel fun t _ => some (t.complete none, {})
  | .stop =>
      v.schedule (fun t => !t.shouldCancel && t.callerStop) fun t memory =>
        some (t.complete none, memory)
  | .reject error =>
      v.schedule (fun t => !t.initialized) fun t memory => some (t.complete (some error), memory)
  | .evict =>
      if v.call.any fun c => c.task.initialized && !c.task.done then none
      else some { v with memory := {} }
  | .drain callback =>
      v.call.bind fun c =>
        match c.task.outQueue with
        | [] => none
        | .token id :: queue =>
            some { v with
              call := some ({ c with task := { c.task with outQueue := queue } }.drainToken m
                callback id) }
        | .done (some _) :: _ => some { v with call := none }
        | .done none :: _ => some { v with slot := c.updateSlot v.slot, call := none }

end View

structure Engine where
  nSlots : ℕ
  slots : ℕ → SlotState
  calls : ℕ → Option Call
  target : ℕ → Cells
  draft : ℕ → Cells

inductive Action where
  | start (slot : ℕ) (stream : Bool) (prompt : PreparedPrompt)
  | onSlot (slot : ℕ) (action : SlotAction)

namespace Engine

variable (m : LoadedModel) (s : Engine)

def loaded (nSlots : ℕ) : Engine where
  nSlots := nSlots
  slots := fun i => { sequenceId := i }
  calls := fun _ => none
  target := fun _ => []
  draft := fun _ => []

def view (i : ℕ) : View where
  slot := s.slots i
  call := s.calls i
  memory := ⟨s.target (s.slots i).sequenceId, s.draft (s.slots i).sequenceId⟩

def put (i : ℕ) (v : View) : Engine :=
  { s with
    slots := update s.slots i v.slot
    calls := update s.calls i v.call
    target := update s.target v.slot.sequenceId v.memory.target
    draft := update s.draft v.slot.sequenceId v.memory.draft }

def reusablePrefix (prompt : PreparedPrompt) (slot : SlotState) : ℕ :=
  let common := commonPrefix prompt.promptTokens slot.lastPromptTokens
  if m.recurrent then
    if SlotTask.recurrentCheckpointUsable slot.checkpoint.recurrent slot.checkpoint.pos common
        prompt.promptTokens.length then slot.checkpoint.pos
    else 0
  else common

/-- The slot with the longest reusable prefix that no call is bound to. -/
def bestSlot (prompt : PreparedPrompt) (i : ℕ) : ℕ :=
  (List.range s.nSlots).foldl (fun best j =>
    if (s.slots j).sequenceBound then best
    else if reusablePrefix m prompt (s.slots best) < reusablePrefix m prompt (s.slots j) then j
    else best) i

def swapSlots (i j : ℕ) : Engine :=
  let first : SlotState := { s.slots j with busy := (s.slots i).busy }
  let second : SlotState := { s.slots i with busy := (s.slots j).busy }
  { s with slots := update (update s.slots i first) j second }

def bind (i : ℕ) (stream : Bool) (prompt : PreparedPrompt) : Engine :=
  let slot := { s.slots i with sequenceBound := true }
  { s with
    slots := update s.slots i slot
    calls := update s.calls i (some
      { stream
        task :=
          { slotId := slot.sequenceId
            prompt
            lastPromptTokens := slot.lastPromptTokens
            checkpoint := slot.checkpoint
            mtpCacheSynced := slot.mtpCacheSynced } }) }

def start (i : ℕ) (stream : Bool) (prompt : PreparedPrompt) : Option Engine :=
  if s.nSlots ≤ i ∨ (s.slots i).busy = false ∨ (s.calls i).isSome then none
  else
    let best := s.bestSlot m prompt i
    if prompt.mediaChunks.isEmpty && !(s.slots i).sequenceBound && decide (best ≠ i) then
      some ((s.swapSlots i best).bind i stream prompt)
    else some (s.bind i stream prompt)

def step : Action → Option Engine
  | .start i stream prompt => s.start m i stream prompt
  | .onSlot i action =>
      if i < s.nSlots then ((s.view i).step m action).map (s.put i) else none

end Engine

end InferDeck.LlamaWrapper.SlotCache
