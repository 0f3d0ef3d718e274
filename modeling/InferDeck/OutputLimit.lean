import InferDeck.PoolPositions
import InferDeck.SequenceIdentity

/-!
# The output limit of a task

A task emits tokens in plain steps, one at a time, and in verifications of a draft, several at once.
The limit is tested before a plain step counts its token and after a verification has counted it.
What the task emits is, of the tokens that were sampled, those before the first stop token, up to
the limit. The count that is published is of as many, unless a plain step has reached the limit: it
ends the task without counting its token.
-/

namespace InferDeck.LlamaWrapper.SlotCache

open SequenceMemory Execution

namespace TokenEvent

def token? : TokenEvent → Option ℤ
  | .token id => some id
  | .done _ => none

end TokenEvent

namespace SlotTask

variable (m : LoadedModel) (t : SlotTask)

/-- The tokens that the task has emitted, where nobody takes them from the queue. -/
def emitted : List ℤ := t.outQueue.filterMap TokenEvent.token?

/-- The greatest number of tokens that the task emits. -/
def outputLimit : ℕ := max 1 t.prompt.maxTokens.toNat

/-- The token that a plain step samples: the last chunk of the prompt or a decoded token. -/
def plainToken : SlotAction → Option ℤ
  | .prefill it room _ id =>
      if t.tokens.length ≤ t.promptPos + (t.adapt m it).chunkLength m room then some id else none
  | .generate _ id => some id
  | _ => none

def sampledBy : SlotAction → List ℤ
  | .verify _ draft accepted id => draft.take accepted ++ [id]
  | action => (t.plainToken m action).toList

end SlotTask

/-- A task with the tokens that were sampled for it and the count that is published. -/
structure TaskRun where
  task : SlotTask
  memory : Memory := {}
  sampled : List ℤ := []
  /-- `output_tokens` of the progress. -/
  outputTokens : ℕ := 0

inductive TaskAction where
  | signal (extCancel callerCancel callerStop : Bool)
  | work (action : SlotAction)

/-- The loop goes on to publish the progress of the task. -/
def SlotAction.publishes : SlotAction → Bool
  | prefill .. | generate .. | verify .. => true
  | _ => false

namespace TaskRun

variable (m : LoadedModel) (r : TaskRun)

def submitted (slotId : ℕ) (prompt : PreparedPrompt) (lastPromptTokens : List ℤ)
    (checkpoint : Checkpoint) (mtpCacheSynced : Bool) (memory : Memory) : TaskRun where
  task := { slotId, prompt, lastPromptTokens, checkpoint, mtpCacheSynced }
  memory

def view : View where
  slot := { sequenceId := r.task.slotId }
  call := some { stream := false, task := r.task }
  memory := r.memory

def step : TaskAction → Option TaskRun
  | .signal extCancel callerCancel callerStop =>
      some { r with task := r.task.signal extCancel callerCancel callerStop }
  | .work action =>
      if action.ofLoop then
        (r.view.step m action).bind fun v => v.call.map fun c =>
          { task := c.task
            memory := v.memory
            sampled := r.sampled ++ r.task.sampledBy m action
            outputTokens := if action.publishes then c.task.nGenerated else r.outputTokens }
      else none

structure Limited : Prop where
  atMost : r.task.emitted.length ≤ r.task.outputLimit
  noneAfterStop : r.task.emitted <+: r.sampled.takeWhile fun id => !r.task.stopToken m id
  ended : r.task.done = true → r.task.emitted.length = r.task.outputLimit ∨
    (∃ id ∈ r.sampled, r.task.stopToken m id = true) ∨ r.task.shouldCancel = true ∨
      r.task.callerStop = true

def Published : Prop := r.outputTokens = r.task.emitted.length

/-- No plain step samples a token that reaches the limit and does not stop the task by itself. -/
def Counts : TaskAction → Prop
  | .signal .. => True
  | .work action => ∀ id ∈ r.task.plainToken m action,
      r.task.stopToken m id = true ∨ r.task.generationLimitReached = false

end TaskRun

/-! ### One task -/

namespace SlotTask

variable {m : LoadedModel} {t t' : SlotTask} {sampled : List ℤ}

structure SameOutput (t t' : SlotTask) : Prop where
  prompt : t'.prompt = t.prompt
  promptDone : t'.promptDone = t.promptDone
  nGenerated : t'.nGenerated = t.nGenerated
  done : t'.done = t.done
  outQueue : t'.outQueue = t.outQueue
  extCancel : t'.extCancel = t.extCancel
  callerCancel : t'.callerCancel = t.callerCancel
  callerStop : t'.callerStop = t.callerStop

theorem SameOutput.refl (t : SlotTask) : t.SameOutput t := ⟨rfl, rfl, rfl, rfl, rfl, rfl, rfl, rfl⟩

theorem SameOutput.trans {t'' : SlotTask} (h : t.SameOutput t') (h' : t'.SameOutput t'') :
    t.SameOutput t'' where
  prompt := h'.prompt.trans h.prompt
  promptDone := h'.promptDone.trans h.promptDone
  nGenerated := h'.nGenerated.trans h.nGenerated
  done := h'.done.trans h.done
  outQueue := h'.outQueue.trans h.outQueue
  extCancel := h'.extCancel.trans h.extCancel
  callerCancel := h'.callerCancel.trans h.callerCancel
  callerStop := h'.callerStop.trans h.callerStop

theorem sameOutput_keepCheckpoint (t : SlotTask) (usable : Bool) :
    t.SameOutput (t.keepCheckpoint usable) := by
  unfold keepCheckpoint
  split_ifs <;> exact ⟨rfl, rfl, rfl, rfl, rfl, rfl, rfl, rfl⟩

theorem sameOutput_startAt (h : t.SameOutput t') (start : Start) (k : ℕ) :
    t.SameOutput (t'.startAt start k) :=
  h.trans ⟨rfl, rfl, rfl, rfl, rfl, rfl, rfl, rfl⟩

theorem sameOutput_reuseSequence (outcome : InitOutcome) (n : ℕ) (memory : Memory) :
    t.SameOutput (t.reuseSequence m outcome n memory).1 := by
  have hkeep := sameOutput_keepCheckpoint t (t.checkpointUsable m n)
  unfold reuseSequence
  dsimp only
  generalize (if t.mtpEligible = true then min (extent memory.target) (extent memory.draft)
    else extent memory.target) = physical
  split_ifs
  · exact sameOutput_startAt (.refl t) _ _
  all_goals exact sameOutput_startAt hkeep _ _

theorem sameOutput_initTask (outcome : InitOutcome) (memory : Memory) :
    t.SameOutput (t.initTask m outcome memory).1 := by
  have hsynced (synced eligible : Bool) :
      t.SameOutput { t with outMtpCacheSynced := synced, mtpEligible := eligible } :=
    ⟨rfl, rfl, rfl, rfl, rfl, rfl, rfl, rfl⟩
  unfold initTask
  dsimp only
  split_ifs
  · exact sameOutput_startAt (hsynced _ _) _ _
  · exact (hsynced _ _).trans (sameOutput_reuseSequence outcome _ memory)
  · exact sameOutput_startAt (hsynced _ _) _ _
  · exact (hsynced _ _).trans (sameOutput_reuseSequence outcome _ memory)

theorem sameOutput_captureReplay (t : SlotTask) (captures : Captures) (memory : Memory) :
    t.SameOutput (t.captureReplay m captures memory) := by
  unfold captureReplay
  split_ifs <;> exact ⟨rfl, rfl, rfl, rfl, rfl, rfl, rfl, rfl⟩

theorem sameOutput_captureCheckpoint (t : SlotTask) (captures : Captures) (memory : Memory) :
    t.SameOutput (t.captureCheckpoint m captures memory) := by
  unfold captureCheckpoint
  split_ifs <;> exact ⟨rfl, rfl, rfl, rfl, rfl, rfl, rfl, rfl⟩

/-- A chunk of the prompt emits nothing before a token is sampled after the last one. -/
theorem prefill_output (t : SlotTask) (it : Iteration) (room : ℕ) (captures : Captures) (id : ℤ)
    (memory : Memory) :
    ∃ t', t.SameOutput t' ∧ (t.prefill m it room captures id memory).1 =
      if t.tokens.length ≤ t.promptPos + (t.adapt m it).chunkLength m room then t'.sampled m id
      else t' := by
  unfold prefill
  dsimp only
  generalize (t.adapt m it).write m it _ memory = memory'
  generalize hmoved : ({ t.adapt m it with promptPos := _, nPos := _ } : SlotTask) = moved
  have hcourse : t.SameOutput moved := by
    rw [← hmoved]
    exact ⟨rfl, rfl, rfl, rfl, rfl, rfl, rfl, rfl⟩
  have hreplay := sameOutput_captureReplay (m := m) moved captures memory'
  have hcheckpoint := sameOutput_captureCheckpoint (m := m) (moved.captureReplay m captures memory')
    captures memory'
  exact ⟨_, (hcourse.trans hreplay).trans hcheckpoint, rfl⟩

structure Tracks (m : LoadedModel) (t : SlotTask) (sampled : List ℤ) : Prop where
  emitted : t.emitted = (sampled.takeWhile fun id => !t.stopToken m id).take t.outputLimit
  running : t.done = false → (∀ id ∈ sampled, t.stopToken m id = false) ∧
    sampled.length = t.nGenerated ∧ sampled.length < t.outputLimit
  started : t.promptDone = true → sampled ≠ []
  ended : t.done = true → t.emitted.length = t.outputLimit ∨
    (∃ id ∈ sampled, t.stopToken m id = true) ∨ t.shouldCancel = true ∨ t.callerStop = true

namespace Tracks

theorem of_sameOutput (h : t.Tracks m sampled) (hsame : t.SameOutput t') : t'.Tracks m sampled := by
  obtain ⟨hprompt, hphase, hcount, hdone, hqueue, hext, hcancel, hstop⟩ := hsame
  have hemitted : t'.emitted = t.emitted := by rw [SlotTask.emitted, hqueue, SlotTask.emitted]
  have hlimit : t'.outputLimit = t.outputLimit := by rw [outputLimit, hprompt, outputLimit]
  have htoken : t'.stopToken m = t.stopToken m := by
    funext id
    rw [stopToken, hprompt, stopToken]
  refine ⟨?_, ?_, ?_, ?_⟩
  · rw [hemitted, hlimit, htoken]
    exact h.emitted
  · rw [hdone, hcount, hlimit, htoken]
    exact h.running
  · rw [hphase]
    exact h.started
  · rw [hdone, hemitted, hlimit, htoken, shouldCancel, hext, hcancel, hstop]
    exact h.ended

theorem takeWhile_append (h : t.Tracks m sampled) (hdone : t.done = false) (ids : List ℤ) :
    ((sampled ++ ids).takeWhile fun id => !t.stopToken m id) =
      sampled ++ ids.takeWhile fun id => !t.stopToken m id := by
  apply List.takeWhile_append_of_pos
  intro id hid
  rw [(h.running hdone).1 id hid]
  rfl

/-- While a task runs, it has emitted all that was sampled. -/
theorem emitted_of_running (h : t.Tracks m sampled) (hdone : t.done = false) :
    t.emitted = sampled := by
  have hall := h.takeWhile_append hdone []
  rw [List.takeWhile_nil, List.append_nil] at hall
  rw [h.emitted, hall, List.take_of_length_le (h.running hdone).2.2.le]

end Tracks

structure Pushes (t t' : SlotTask) (events : List TokenEvent) : Prop where
  prompt : t'.prompt = t.prompt
  outQueue : t'.outQueue = t.outQueue ++ events
  promptDone : t'.promptDone = true

namespace Pushes

variable {events : List TokenEvent}

theorem emitted (h : t.Pushes t' events) :
    t'.emitted = t.emitted ++ events.filterMap TokenEvent.token? := by
  rw [SlotTask.emitted, h.outQueue, List.filterMap_append, SlotTask.emitted]

theorem outputLimit (h : t.Pushes t' events) : t'.outputLimit = t.outputLimit := by
  rw [SlotTask.outputLimit, h.prompt, SlotTask.outputLimit]

theorem stopToken (h : t.Pushes t' events) : t'.stopToken m = t.stopToken m := by
  funext id
  rw [SlotTask.stopToken, h.prompt, SlotTask.stopToken]

end Pushes

namespace Tracks

variable {id : ℤ}

/-- A stop token ends the task, and what was sampled with it is left out. -/
theorem stops (h : t.Tracks m sampled) (hdone : t.done = false)
    (hpush : t.Pushes t' [.done none]) (hended : t'.done = true) (hstop : t.stopToken m id = true)
    (ids : List ℤ) : t'.Tracks m (sampled ++ id :: ids) where
  emitted := by
    rw [hpush.emitted, hpush.outputLimit, hpush.stopToken, h.emitted_of_running hdone,
      h.takeWhile_append hdone, List.takeWhile_cons_of_neg (by simp [hstop]), List.append_nil,
      List.take_of_length_le (h.running hdone).2.2.le]
    exact List.append_nil sampled
  running hrunning := by
    rw [hended] at hrunning
    cases hrunning
  started _ := by simp
  ended _ := by
    rw [hpush.stopToken]
    exact .inr (.inl ⟨id, by simp, hstop⟩)

/-- The token at the limit is the last one that is emitted. -/
theorem fills (h : t.Tracks m sampled) (hdone : t.done = false)
    (hpush : t.Pushes t' [.token id, .done none]) (hended : t'.done = true)
    (hstop : t.stopToken m id = false) (hlimit : t.outputLimit ≤ sampled.length + 1)
    (ids : List ℤ) : t'.Tracks m (sampled ++ id :: ids) := by
  have hlt := (h.running hdone).2.2
  have hemitted : t'.emitted = sampled ++ [id] := by
    rw [hpush.emitted, h.emitted_of_running hdone]
    rfl
  refine ⟨?_, ?_, fun _ => by simp, fun _ => .inl ?_⟩
  · rw [hemitted, hpush.outputLimit, hpush.stopToken, h.takeWhile_append hdone,
      List.takeWhile_cons_of_pos (by simp [hstop]),
      show t.outputLimit = sampled.length + 1 by omega, List.take_length_add_append]
    rfl
  · intro hrunning
    rw [hended] at hrunning
    cases hrunning
  · rw [hemitted, hpush.outputLimit, List.length_append, List.length_singleton]
    omega

/-- A token below the limit is emitted and counted. -/
theorem grows (h : t.Tracks m sampled) (hdone : t.done = false) (hpush : t.Pushes t' [.token id])
    (hrunning : t'.done = false) (hcount : t'.nGenerated = t.nGenerated + 1)
    (hstop : t.stopToken m id = false) (hlimit : sampled.length + 1 < t.outputLimit) :
    t'.Tracks m (sampled ++ [id]) := by
  obtain ⟨hnone, hlength, -⟩ := h.running hdone
  refine ⟨?_, fun _ => ⟨?_, ?_, ?_⟩, fun _ => by simp, ?_⟩
  · rw [hpush.emitted, hpush.outputLimit, hpush.stopToken, h.emitted_of_running hdone,
      h.takeWhile_append hdone, List.takeWhile_cons_of_pos (by simp [hstop]), List.takeWhile_nil,
      List.take_of_length_le (by simpa using hlimit.le)]
    rfl
  · intro x hx
    rw [hpush.stopToken]
    rcases List.mem_append.1 hx with hx | hx
    · exact hnone x hx
    · rw [List.mem_singleton.1 hx]
      exact hstop
  · rw [List.length_append, List.length_singleton, hlength, hcount]
  · rw [hpush.outputLimit, List.length_append, List.length_singleton]
    exact hlimit
  · intro hended
    rw [hrunning] at hended
    cases hended

theorem outputLimit_le (h : t.Tracks m sampled) (hdone : t.done = false)
    (hlimit : t.generationLimitReached = true) : t.outputLimit ≤ sampled.length + 1 := by
  have hlength := (h.running hdone).2.1
  simp only [generationLimitReached, Bool.or_eq_true, decide_eq_true_eq] at hlimit
  unfold outputLimit
  omega

theorem lt_outputLimit (h : t.Tracks m sampled) (hdone : t.done = false)
    (hlimit : t.generationLimitReached = false) : sampled.length + 1 < t.outputLimit := by
  have hlength := (h.running hdone).2.1
  simp only [generationLimitReached, Bool.or_eq_false_iff, decide_eq_false_iff_not] at hlimit
  unfold outputLimit
  omega

theorem sample (h : t.Tracks m sampled) (hdone : t.done = false) (id : ℤ) :
    (t.sampled m id).Tracks m (sampled ++ [id]) := by
  unfold SlotTask.sampled
  dsimp only
  split_ifs with hstop hlimit
  · have hpush : t.Pushes ({ t with promptDone := true }.complete none) [.done none] :=
      ⟨rfl, rfl, rfl⟩
    exact h.stops hdone hpush rfl hstop []
  · have hpush : t.Pushes (({ t with promptDone := true }.push (.token id)).complete none)
        [.token id, .done none] := by
      refine ⟨rfl, ?_, rfl⟩
      simp [complete, push]
    exact h.fills hdone hpush rfl (Bool.eq_false_iff.2 hstop) (h.outputLimit_le hdone hlimit) []
  · exact h.grows hdone ⟨rfl, rfl, rfl⟩ hdone rfl (Bool.eq_false_iff.2 hstop)
      (h.lt_outputLimit hdone (Bool.eq_false_iff.2 hlimit))

theorem accept (h : t.Tracks m sampled) (hdone : t.done = false) (hphase : t.promptDone = true)
    (ids : List ℤ) : (t.accept m ids).Tracks m (sampled ++ ids) := by
  induction ids generalizing t sampled with
  | nil =>
      rw [List.append_nil]
      exact h
  | cons id ids ih =>
      obtain ⟨-, hlength, hlt⟩ := h.running hdone
      have hpositive := List.length_pos_of_ne_nil (h.started hphase)
      have hlimit : (t.outputLimit : ℤ) = t.prompt.maxTokens := by
        unfold outputLimit at hlt ⊢
        omega
      unfold SlotTask.accept
      dsimp only
      split_ifs with hstop hfull
      · have hpush : t.Pushes (t.complete none) [.done none] := ⟨rfl, rfl, hphase⟩
        exact h.stops hdone hpush rfl hstop ids
      · have hpush : t.Pushes ({ t.push (.token id) with
            nGenerated := t.nGenerated + 1 }.complete none) [.token id, .done none] := by
          refine ⟨rfl, ?_, hphase⟩
          simp [complete, push]
        have hfull' : t.prompt.maxTokens ≤ ((t.nGenerated + 1 : ℕ) : ℤ) := hfull
        refine h.fills hdone hpush rfl (Bool.eq_false_iff.2 hstop) ?_ ids
        omega
      · have hbelow : ¬ t.prompt.maxTokens ≤ ((t.nGenerated + 1 : ℕ) : ℤ) := hfull
        have hgrown : SlotTask.Tracks m { t.push (.token id) with
            nGenerated := t.nGenerated + 1, lastToken := id } (sampled ++ [id]) := by
          refine h.grows hdone ⟨rfl, rfl, hphase⟩ hdone rfl (Bool.eq_false_iff.2 hstop) ?_
          omega
        have hrest := ih hgrown hdone hphase
        rwa [List.append_assoc, List.singleton_append] at hrest

/-- A cancelled or stopped task emits nothing more. -/
theorem ends (h : t.Tracks m sampled)
    (hcause : t.shouldCancel = true ∨ t.callerStop = true) : (t.complete none).Tracks m sampled where
  emitted := by
    have hemitted : (t.complete none).emitted = t.emitted := by
      simp [SlotTask.emitted, complete, push, TokenEvent.token?]
    rw [hemitted]
    exact h.emitted
  running hrunning := by cases hrunning
  started := h.started
  ended _ := .inr (.inr hcause)

theorem signal (h : t.Tracks m sampled) (extCancel callerCancel callerStop : Bool) :
    (t.signal extCancel callerCancel callerStop).Tracks m sampled where
  emitted := h.emitted
  running := h.running
  started := h.started
  ended hdone := by
    rcases h.ended hdone with hfull | hstop | hcancel | hcaller
    · exact .inl hfull
    · exact .inr (.inl hstop)
    · right; right; left
      simp only [shouldCancel, Bool.or_eq_true, SlotTask.signal] at hcancel ⊢
      exact hcancel.imp .inl .inl
    · right; right; right
      simp [SlotTask.signal, hcaller]

end Tracks

end SlotTask

/-! ### Runs -/

namespace TaskRun

variable {m : LoadedModel} {r r' : TaskRun}

inductive Worked (m : LoadedModel) (r : TaskRun) : SlotAction → TaskRun → Prop
  | quiet {a : SlotAction} {r' : TaskRun} (hrunning : r.task.done = false)
      (hsame : r.task.SameOutput r'.task)
      (hsampled : r'.sampled = r.sampled) (hnone : r.task.plainToken m a = none)
      (hcount : r'.outputTokens = r.task.nGenerated ∨ r'.outputTokens = r.outputTokens) :
      Worked m r a r'
  | plain {a : SlotAction} {r' : TaskRun} {t : SlotTask} {id : ℤ} (hsame : r.task.SameOutput t)
      (hrunning : r.task.done = false) (htask : r'.task = t.sampled m id)
      (hsampled : r'.sampled = r.sampled ++ [id]) (htoken : r.task.plainToken m a = some id)
      (hcount : r'.outputTokens = r'.task.nGenerated) : Worked m r a r'
  | verified {a : SlotAction} {r' : TaskRun} {t : SlotTask} {ids : List ℤ}
      (hsame : r.task.SameOutput t) (hrunning : r.task.done = false)
      (hphase : r.task.promptDone = true) (htask : r'.task = t.accept m ids)
      (hsampled : r'.sampled = r.sampled ++ ids) (hnone : r.task.plainToken m a = none)
      (hcount : r'.outputTokens = r'.task.nGenerated) : Worked m r a r'
  | ended {a : SlotAction} {r' : TaskRun} (hrunning : r.task.done = false)
      (hcause : r.task.shouldCancel = true ∨ r.task.callerStop = true)
      (htask : r'.task = r.task.complete none) (hsampled : r'.sampled = r.sampled)
      (hnone : r.task.plainToken m a = none) (hcount : r'.outputTokens = r.outputTokens) :
      Worked m r a r'

theorem schedule_spec {guard : SlotTask → Bool} {f : SlotTask → Memory → Option (SlotTask × Memory)}
    {v : View} (h : r.view.schedule guard f = some v) :
    r.task.done = false ∧ guard r.task = true ∧ ∃ t memory, f r.task r.memory = some (t, memory) ∧
      v.call = some { stream := false, task := t } := by
  simp only [View.schedule, view, Option.bind_some] at h
  split_ifs at h with hguard
  obtain ⟨result, hresult, rfl⟩ := Option.map_eq_some_iff.1 h
  simp only [Bool.or_eq_true, Bool.not_eq_true', not_or, Bool.not_eq_true, Bool.not_eq_false]
    at hguard
  exact ⟨hguard.1, hguard.2, _, _, hresult, rfl⟩

theorem worked {a : SlotAction} (h : r.step m (.work a) = some r') : Worked m r a r' := by
  have hloop : a.ofLoop = true := by
    by_contra hnot
    rw [step, if_neg hnot] at h
    cases h
  rw [step, if_pos hloop] at h
  obtain ⟨v, hv, h⟩ := Option.bind_eq_some_iff.1 h
  obtain ⟨c, hc, rfl⟩ := Option.map_eq_some_iff.1 h
  cases a with
  | init it outcome =>
      simp only [View.step] at hv
      obtain ⟨hrunning, -, t, memory, ht, hcall⟩ := schedule_spec hv
      obtain rfl := Option.some.inj (hc.symm.trans hcall)
      have htask : _ = t := congrArg Prod.fst (Option.some.inj ht)
      refine .quiet hrunning ?_ (List.append_nil _) rfl (.inr rfl)
      subst htask
      refine SlotTask.SameOutput.trans ?_ (SlotTask.sameOutput_initTask outcome r.memory)
      exact ⟨rfl, rfl, rfl, rfl, rfl, rfl, rfl, rfl⟩
  | media offsets =>
      simp only [View.step] at hv
      obtain ⟨hrunning, -, t, memory, ht, hcall⟩ := schedule_spec hv
      obtain rfl := Option.some.inj (hc.symm.trans hcall)
      obtain ⟨chunk, -, hchunk⟩ := Option.map_eq_some_iff.1 ht
      have htask : _ = t := congrArg Prod.fst hchunk
      refine .quiet hrunning ?_ (List.append_nil _) rfl (.inr rfl)
      subst htask
      exact ⟨rfl, rfl, rfl, rfl, rfl, rfl, rfl, rfl⟩
  | prefill it room captures id =>
      simp only [View.step] at hv
      obtain ⟨hrunning, -, t, memory, ht, hcall⟩ := schedule_spec hv
      obtain rfl := Option.some.inj (hc.symm.trans hcall)
      have htask : _ = t := congrArg Prod.fst (Option.some.inj ht)
      obtain ⟨t', hsame, hprefill⟩ :=
        SlotTask.prefill_output (m := m) r.task it room captures id r.memory
      rw [hprefill] at htask
      by_cases hlast : r.task.tokens.length ≤
          r.task.promptPos + (r.task.adapt m it).chunkLength m room
      · rw [if_pos hlast] at htask
        have htoken : r.task.plainToken m (.prefill it room captures id) = some id := if_pos hlast
        refine .plain hsame hrunning htask.symm ?_ htoken rfl
        simp only [SlotTask.sampledBy, htoken, Option.toList_some]
      · rw [if_neg hlast] at htask
        have htoken : r.task.plainToken m (.prefill it room captures id) = none := if_neg hlast
        subst htask
        refine .quiet hrunning hsame ?_ htoken (.inl hsame.nGenerated)
        simp only [SlotTask.sampledBy, htoken, Option.toList_none, List.append_nil]
  | generate it id =>
      simp only [View.step] at hv
      obtain ⟨hrunning, -, t, memory, ht, hcall⟩ := schedule_spec hv
      obtain rfl := Option.some.inj (hc.symm.trans hcall)
      have htask : _ = t := congrArg Prod.fst (Option.some.inj ht)
      refine .plain (t := { r.task.adapt m it with nPos := r.task.nPos + 1 }) ?_ hrunning
        htask.symm rfl rfl rfl
      exact ⟨rfl, rfl, rfl, rfl, rfl, rfl, rfl, rfl⟩
  | verify it draft accepted id =>
      simp only [View.step] at hv
      obtain ⟨hrunning, hguard, t, memory, ht, hcall⟩ := schedule_spec hv
      obtain rfl := Option.some.inj (hc.symm.trans hcall)
      have htask : _ = t := congrArg Prod.fst (Option.some.inj ht)
      simp only [Bool.and_eq_true] at hguard
      refine .verified (t := { r.task.adapt m it with
        nPos := r.task.nPos + (draft.take accepted ++ [id]).length }) ?_ hrunning
        hguard.1.1.1.2 htask.symm rfl rfl rfl
      exact ⟨rfl, rfl, rfl, rfl, rfl, rfl, rfl, rfl⟩
  | cancel =>
      simp only [View.step] at hv
      obtain ⟨hrunning, hguard, t, memory, ht, hcall⟩ := schedule_spec hv
      obtain rfl := Option.some.inj (hc.symm.trans hcall)
      have htask : _ = t := congrArg Prod.fst (Option.some.inj ht)
      exact .ended hrunning (.inl hguard) htask.symm (List.append_nil _) rfl rfl
  | stop =>
      simp only [View.step] at hv
      obtain ⟨hrunning, hguard, t, memory, ht, hcall⟩ := schedule_spec hv
      obtain rfl := Option.some.inj (hc.symm.trans hcall)
      have htask : _ = t := congrArg Prod.fst (Option.some.inj ht)
      exact .ended hrunning (.inr (Bool.and_eq_true_iff.1 hguard).2) htask.symm
        (List.append_nil _) rfl rfl
  | acquire | release | extCancel | reject | evict | drain => cases hloop

theorem tracks_step (h : r.task.Tracks m r.sampled) {a : TaskAction} (hstep : r.step m a = some r') :
    r'.task.Tracks m r'.sampled := by
  cases a with
  | signal extCancel callerCancel callerStop =>
      obtain rfl := Option.some.inj hstep
      exact h.signal extCancel callerCancel callerStop
  | work a =>
      have hworked := worked hstep
      cases hworked with
      | quiet hrunning hsame hsampled =>
          rw [hsampled]
          exact h.of_sameOutput hsame
      | plain hsame hrunning htask hsampled =>
          rw [htask, hsampled]
          exact (h.of_sameOutput hsame).sample (hsame.done.trans hrunning) _
      | verified hsame hrunning hphase htask hsampled =>
          rw [htask, hsampled]
          exact (h.of_sameOutput hsame).accept (hsame.done.trans hrunning)
            (hsame.promptDone.trans hphase) _
      | ended hrunning hcause htask hsampled =>
          rw [htask, hsampled]
          exact h.ends hcause

theorem tracks_submitted (slotId : ℕ) (prompt : PreparedPrompt) (lastPromptTokens : List ℤ)
    (checkpoint : Checkpoint) (mtpCacheSynced : Bool) (memory : Memory) :
    (submitted slotId prompt lastPromptTokens checkpoint mtpCacheSynced memory).task.Tracks m [] where
  emitted := List.take_nil.symm
  running _ := ⟨fun id hid => absurd hid List.not_mem_nil, rfl,
    lt_of_lt_of_le Nat.zero_lt_one (le_max_left 1 prompt.maxTokens.toNat)⟩
  started h := by cases h
  ended h := by cases h

theorem limited_of_tracks (h : r.task.Tracks m r.sampled) : r.Limited m where
  atMost := by
    rw [h.emitted]
    exact List.length_take_le _ _
  noneAfterStop := by
    rw [h.emitted]
    exact List.take_prefix _ _
  ended := h.ended

/-- As many tokens are published as the task has emitted. -/
structure Counted (m : LoadedModel) (r : TaskRun) : Prop where
  tracks : r.task.Tracks m r.sampled
  published : r.Published

theorem count_of_running (h : r.task.Tracks m r.sampled) (hrunning : r.task.done = false) :
    r.task.nGenerated = r.task.emitted.length := by
  rw [h.emitted_of_running hrunning]
  exact (h.running hrunning).2.1.symm

/-- A verification counts every token that it emits. -/
theorem count_accept {t : SlotTask} (ids : List ℤ) (h : t.nGenerated = t.emitted.length) :
    (t.accept m ids).nGenerated = (t.accept m ids).emitted.length := by
  induction ids generalizing t with
  | nil => exact h
  | cons id ids ih =>
      have hpush : t.nGenerated + 1 = (t.emitted ++ [id]).length := by
        rw [List.length_append, List.length_singleton, h]
      have hqueue : (t.push (.token id)).emitted = t.emitted ++ [id] := by
        simp [SlotTask.emitted, SlotTask.push, TokenEvent.token?]
      have hdone (t : SlotTask) : (t.complete none).emitted = t.emitted := by
        simp [SlotTask.emitted, SlotTask.complete, SlotTask.push, TokenEvent.token?]
      unfold SlotTask.accept
      dsimp only
      split_ifs
      · rw [hdone]
        exact h
      · rw [hdone]
        exact hpush.trans (congrArg List.length hqueue).symm
      · exact ih (hpush.trans (congrArg List.length hqueue).symm)

/-- A plain step counts the token that it emits, unless that is the last one of the limit. -/
theorem count_sampled {t : SlotTask} (id : ℤ) (h : t.nGenerated = t.emitted.length) :
    (t.sampled m id).nGenerated = (t.sampled m id).emitted.length ↔
      t.stopToken m id = true ∨ t.generationLimitReached = false := by
  have hdone (t : SlotTask) : (t.complete none).emitted = t.emitted := by
    simp [SlotTask.emitted, SlotTask.complete, SlotTask.push, TokenEvent.token?]
  have hqueue (t : SlotTask) : (t.push (.token id)).emitted = t.emitted ++ [id] := by
    simp [SlotTask.emitted, SlotTask.push, TokenEvent.token?]
  by_cases hstop : t.stopToken m id = true
  · have heq : t.sampled m id = { t with promptDone := true }.complete none := if_pos hstop
    rw [heq, hdone]
    exact iff_of_true h (.inl hstop)
  · by_cases hlimit : t.generationLimitReached = true
    · have heq : t.sampled m id =
          ({ t with promptDone := true }.push (.token id)).complete none :=
        (if_neg hstop).trans (if_pos hlimit)
      rw [heq, hdone, hqueue, List.length_append, List.length_singleton]
      refine iff_of_false (fun hcount => ?_) (by simp [hstop, hlimit])
      have hcount' : t.nGenerated = t.emitted.length + 1 := hcount
      omega
    · have heq : t.sampled m id = { { t with promptDone := true }.push (.token id) with
          lastToken := id, nGenerated := t.nGenerated + 1 } :=
        (if_neg hstop).trans (if_neg hlimit)
      refine iff_of_true ?_ (.inr (Bool.eq_false_iff.2 hlimit))
      have hemitted : (t.sampled m id).emitted = t.emitted ++ [id] := by
        rw [heq]
        exact hqueue t
      rw [hemitted, heq, List.length_append, List.length_singleton, ← h]

/-- What a step publishes is the count of the emitted tokens, where the step counts its own. -/
theorem published_step (h : r.Counted m) {a : TaskAction} (hstep : r.step m a = some r') :
    r'.Published ↔ r.Counts m a := by
  cases a with
  | signal extCancel callerCancel callerStop =>
      obtain rfl := Option.some.inj hstep
      exact iff_of_true h.published trivial
  | work a =>
      have hworked := worked hstep
      have hsame {t : SlotTask} (hsame : r.task.SameOutput t) (hrunning : r.task.done = false) :
          t.nGenerated = t.emitted.length := by
        rw [hsame.nGenerated, SlotTask.emitted, hsame.outQueue]
        exact count_of_running h.tracks hrunning
      cases hworked with
      | quiet hrunning houtput _ hnone hcount =>
          refine iff_of_true ?_ (by simp [Counts, hnone])
          have hlength := hsame houtput hrunning
          rw [houtput.nGenerated] at hlength
          have hpublished := h.published
          rw [Published, ← count_of_running h.tracks hrunning] at hpublished
          rw [Published, ← hlength]
          exact hcount.elim id fun heq => heq.trans hpublished
      | @plain t id houtput hrunning htask _ htoken hcount =>
          have hstop : t.stopToken m id = r.task.stopToken m id := by
            rw [SlotTask.stopToken, houtput.prompt, SlotTask.stopToken]
          have hlimit : t.generationLimitReached = r.task.generationLimitReached := by
            rw [SlotTask.generationLimitReached, houtput.prompt, houtput.nGenerated,
              SlotTask.generationLimitReached]
          rw [Published, hcount, htask, count_sampled id (hsame houtput hrunning), hstop, hlimit]
          simp [Counts, htoken]
      | verified houtput hrunning _ htask _ hnone hcount =>
          refine iff_of_true ?_ (by simp [Counts, hnone])
          rw [Published, hcount, htask]
          exact count_accept _ (hsame houtput hrunning)
      | ended hrunning _ htask _ hnone hcount =>
          refine iff_of_true ?_ (by simp [Counts, hnone])
          have hemitted : (r.task.complete none).emitted = r.task.emitted := by
            simp [SlotTask.emitted, SlotTask.complete, SlotTask.push, TokenEvent.token?]
          rw [Published, hcount, htask, hemitted]
          exact h.published

/-- The limit is kept in every run, over plain steps and verifications in any order. The count that
is published is right throughout exactly the runs in which no plain step reaches the limit. -/
theorem outputLimit_kept (m : LoadedModel) (slotId : ℕ) (prompt : PreparedPrompt)
    (lastPromptTokens : List ℤ) (checkpoint : Checkpoint) (mtpCacheSynced : Bool) (memory : Memory)
    (actions : List TaskAction) :
    Always (step m) (Limited m)
        (submitted slotId prompt lastPromptTokens checkpoint mtpCacheSynced memory) actions ∧
      (Always (step m) (fun r => r.Limited m ∧ r.Published)
          (submitted slotId prompt lastPromptTokens checkpoint mtpCacheSynced memory) actions ↔
        Meets (step m) (fun r a => ∀ r', r.step m a = some r' → r.Counts m a)
          (submitted slotId prompt lastPromptTokens checkpoint mtpCacheSynced memory) actions) := by
  have hstart := tracks_submitted (m := m) slotId prompt lastPromptTokens checkpoint mtpCacheSynced
    memory
  constructor
  · intro done r hdone hrun
    exact limited_of_tracks (invariant_of_step (I := fun r => r.task.Tracks m r.sampled)
      (fun r a r' h hstep => tracks_step h hstep) hstart hrun)
  · refine always_iff_meets (I := Counted m) (fun r h => ⟨limited_of_tracks h.tracks, h.published⟩)
      ?_ ?_ ⟨hstart, rfl⟩
    · intro r a r' h hcounts hstep
      exact ⟨tracks_step h.tracks hstep, (published_step h hstep).2 (hcounts r' hstep)⟩
    · intro r a h hkept r' hstep
      exact (published_step h hstep).1 (hkept r' hstep).2

def oneTokenPrompt : PreparedPrompt := { Wrapper.shortPrompt with maxTokens := 1 }

/-- The only token of an answer is emitted, and none is published. -/
theorem oneToken_notPublished :
    ∃ r, exec (step Wrapper.textModel) (submitted 0 oneTokenPrompt [] {} true {})
        [.work (.init { runnable := 1 } {}), .work (.prefill { runnable := 1 } 8 {} 7)] = some r ∧
      r.task.emitted = [7] ∧ r.outputTokens = 0 ∧ ¬ r.Published := by
  refine ⟨_, rfl, rfl, rfl, ?_⟩
  intro h
  have hcount : (0 : ℕ) = 1 := h
  cases hcount

end TaskRun

end InferDeck.LlamaWrapper.SlotCache
