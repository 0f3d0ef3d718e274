import InferDeck.PoolPositions
import InferDeck.TaskInvariant

/-!
# Truncation of a prompt

A prompt that does not fit the context window of its request loses a part in its middle. What is
left is not empty, and leaves room for output, unless the window has one token only: then nothing is
left, and the scheduler's loop holds a task that it neither decodes nor finishes.
-/

namespace InferDeck.LlamaWrapper

open InferDeck.Foundation

/-! ### The tokens that are left -/

/-- `kept` is `tokens` without a part in the middle. -/
def KeepsEnds (tokens kept : List ℤ) : Prop :=
  ∃ head middle tail, tokens = head ++ middle ++ tail ∧ kept = head ++ tail

section Truncate

variable {tokens : List ℤ} {nCtx maxOutputTokens : ℤ}

theorem keepsEnds_self (tokens : List ℤ) : KeepsEnds tokens tokens := ⟨tokens, [], [], by simp⟩

theorem keepsEnds_take_drop {a b : ℕ} (h : a + b ≤ tokens.length) :
    KeepsEnds tokens (tokens.take a ++ tokens.drop (tokens.length - b)) := by
  refine ⟨tokens.take a, (tokens.drop a).take (tokens.length - b - a),
    tokens.drop (tokens.length - b), ?_, rfl⟩
  have hdrop : tokens.drop (tokens.length - b) =
      (tokens.drop a).drop (tokens.length - b - a) := by
    rw [List.drop_drop]
    congr 1
    omega
  rw [hdrop, List.append_assoc, List.take_append_drop, List.take_append_drop]

/-- The reserve for the output is at most a quarter of the window. -/
theorem outputReserve_bounds (maxOutputTokens : ℤ) (h : 1 ≤ nCtx) :
    0 ≤ outputReserve nCtx maxOutputTokens ∧ 4 * outputReserve nCtx maxOutputTokens ≤ nCtx := by
  have hquarter : nCtx.tdiv 4 = nCtx / 4 := Int.tdiv_eq_ediv_of_nonneg (by omega)
  unfold outputReserve
  rw [hquarter]
  dsimp only
  split_ifs <;> omega

theorem maybeTruncatePrompt_of_lt (h : (tokens.length : ℤ) < nCtx) :
    maybeTruncatePrompt tokens nCtx maxOutputTokens = tokens := by
  rw [maybeTruncatePrompt, if_pos h]

theorem maybeTruncatePrompt_of_le (maxOutputTokens : ℤ) (hpositive : 1 ≤ nCtx) (h : nCtx ≤ tokens.length) :
    KeepsEnds tokens (maybeTruncatePrompt tokens nCtx maxOutputTokens) ∧
      ((maybeTruncatePrompt tokens nCtx maxOutputTokens).length : ℤ) =
        nCtx - outputReserve nCtx maxOutputTokens - 1 := by
  obtain ⟨hreserve, hquarter⟩ := outputReserve_bounds maxOutputTokens hpositive
  obtain ⟨target, htarget⟩ :
      ∃ target, nCtx - outputReserve nCtx maxOutputTokens - 1 = target := ⟨_, rfl⟩
  have hhead : target.tdiv 4 = target / 4 := Int.tdiv_eq_ediv_of_nonneg (by omega)
  rw [maybeTruncatePrompt, if_neg (by omega)]
  dsimp only
  rw [htarget, hhead]
  constructor
  · exact keepsEnds_take_drop (by omega)
  · rw [List.length_append, List.length_take, List.length_drop]
    omega

end Truncate

/-- A prompt that fits its window beside the output that it may have. -/
structure PredictSetup.Fits (s : PredictSetup) (tokens : List ℤ) : Prop where
  nonempty : 0 < s.promptTokens.length
  below : (s.promptTokens.length : ℤ) < s.nCtxSeq
  ends : KeepsEnds tokens s.promptTokens
  output : 1 ≤ s.maxTokens
  budget : s.promptTokens.length + s.maxTokens ≤ s.nCtxSeq

namespace LlamaCppModel

variable {ρ : Type} {m : LlamaCppModel} {tokenize : Tokenizer ρ} {req : InferenceRequest ρ}

theorem maxTokens_bounds (m : LlamaCppModel) (req : InferenceRequest ρ) {budget : ℤ}
    (h : 1 ≤ budget) : 1 ≤ m.maxTokens req budget ∧ m.maxTokens req budget ≤ budget := by
  unfold maxTokens
  dsimp only
  split_ifs <;> omega

/-- The budget that `prepare_prompt` gives to the chat template. -/
def promptBudget (m : LlamaCppModel) (req : InferenceRequest ρ) : ℤ :=
  let limit := m.requestContextLimit req
  if m.cfg.truncatePrompt && decide (0 < limit) then
    limit - outputReserve limit req.maxOutputTokens - 1 else 0

theorem preparePrompt_text {tokens : List ℤ}
    (h : tokenize req (m.promptBudget req) = .ok (.text tokens)) :
    m.preparePrompt tokenize req (m.requestContextLimit req) =
      .ok { promptTokens := tokens
            promptPositionCount := tokens.length
            nCtxSeq := m.requestContextLimit req } := by
  unfold promptBudget at h
  unfold preparePrompt
  dsimp only at h ⊢
  rw [h]
  rfl

/-- With truncation enabled every text prompt is prepared. -/
theorem prepareInference_text {tokens : List ℤ} (htruncate : m.cfg.truncatePrompt = true)
    (h : tokenize req (m.promptBudget req) = .ok (.text tokens)) :
    ∃ s, m.prepareInference tokenize req = .ok s ∧ s.nCtxSeq = m.requestContextLimit req ∧
      s.mediaChunks = [] ∧
      s.promptTokens = maybeTruncatePrompt tokens s.nCtxSeq req.maxOutputTokens ∧
      s.maxTokens = m.maxTokens req (max 1 (s.nCtxSeq - s.promptTokens.length - 1)) := by
  have hcontext : promptContext { promptTokens := tokens
                                  promptPositionCount := tokens.length
                                  nCtxSeq := m.requestContextLimit req } = tokens.length := by
    unfold promptContext
    split_ifs <;> rfl
  unfold prepareInference
  dsimp only
  rw [preparePrompt_text h]
  simp only [bind, Except.bind, hcontext]
  by_cases hlong : m.requestContextLimit req ≤ tokens.length
  · rw [if_pos hlong]
    simp only [htruncate, List.isEmpty_nil, Bool.not_true, Bool.or_self, Bool.false_eq_true,
      if_false]
    exact ⟨_, rfl, rfl, rfl, rfl, rfl⟩
  · rw [if_neg hlong]
    refine ⟨_, rfl, rfl, rfl, ?_, rfl⟩
    rw [maybeTruncatePrompt_of_lt (not_le.1 hlong)]

/-- What is left fits exactly where something was there and the window has two tokens. -/
theorem fits_iff {tokens : List ℤ} {s : PredictSetup} (hlimit : 1 ≤ s.nCtxSeq)
    (hprompt : s.promptTokens = maybeTruncatePrompt tokens s.nCtxSeq req.maxOutputTokens)
    (hmax : s.maxTokens = m.maxTokens req (max 1 (s.nCtxSeq - s.promptTokens.length - 1))) :
    s.Fits tokens ↔ tokens ≠ [] ∧ 2 ≤ s.nCtxSeq := by
  obtain ⟨houtput, hbudget⟩ := maxTokens_bounds m req
    (le_max_left 1 (s.nCtxSeq - s.promptTokens.length - 1))
  rw [← hmax] at houtput hbudget
  by_cases hlong : s.nCtxSeq ≤ tokens.length
  · obtain ⟨hends, hlength⟩ :=
      maybeTruncatePrompt_of_le req.maxOutputTokens hlimit hlong
    obtain ⟨hreserve, hquarter⟩ :=
      outputReserve_bounds req.maxOutputTokens hlimit
    rw [← hprompt] at hends hlength
    constructor
    · intro h
      have hnonempty := h.nonempty
      refine ⟨?_, by omega⟩
      rintro rfl
      rw [List.length_nil] at hlong
      omega
    · rintro ⟨-, hwindow⟩
      exact ⟨by omega, by omega, hends, houtput, by omega⟩
  · rw [maybeTruncatePrompt_of_lt (not_le.1 hlong)] at hprompt
    constructor
    · intro h
      have hnonempty := h.nonempty
      rw [hprompt] at hnonempty
      exact ⟨List.ne_nil_of_length_pos hnonempty, by omega⟩
    · rintro ⟨hne, -⟩
      have hpositive := List.length_pos_of_ne_nil hne
      rw [hprompt] at hbudget
      refine ⟨?_, ?_, ?_, houtput, ?_⟩
      · rwa [hprompt]
      · rw [hprompt]
        exact not_le.1 hlong
      · rw [hprompt]
        exact keepsEnds_self tokens
      · rw [hprompt]
        omega

end LlamaCppModel

end InferDeck.LlamaWrapper

/-! ### The task in the scheduler's loop -/

namespace InferDeck.LlamaWrapper.SlotCache

open Execution SequenceMemory

namespace SlotTask

variable {m : LoadedModel} {t : SlotTask}

/-- The tokens that a task puts into a batch that has room for `room` more, with `draft` behind its
last token once the prompt is done. -/
def batchTokens (m : LoadedModel) (t : SlotTask) (room : ℕ) (draft : List ℤ) : ℕ :=
  if t.promptDone then if 1 + draft.length ≤ room then 1 + draft.length else 0
  else t.chunkLength m room

def CanContribute (m : LoadedModel) (t : SlotTask) : Prop :=
  ∀ room, 0 < room → 0 < t.batchTokens m room []

/-- A task of text whose prompt is not empty has not passed all of it before it generates. -/
def HasWork (t : SlotTask) : Prop :=
  t.prompt.mediaChunks = [] → t.tokens ≠ [] → t.promptDone = false → t.promptPos < t.tokens.length

theorem nPast_lt (h : t.tokens ≠ []) : t.nPast < t.tokens.length := by
  have hpositive := List.length_pos_of_ne_nil h
  have hcommon := commonPrefix_le_right t.lastPromptTokens t.tokens
  unfold nPast
  dsimp only
  split_ifs <;> omega

theorem promptPos_reuseSequence_le (outcome : InitOutcome) (n : ℕ) (memory : Memory) :
    (t.reuseSequence m outcome n memory).1.promptPos ≤ n := by
  have hpos : (t.keepCheckpoint (t.checkpointUsable m n)).checkpoint.pos = t.checkpoint.pos := by
    unfold keepCheckpoint
    split_ifs <;> rfl
  unfold reuseSequence
  dsimp only
  generalize (if t.mtpEligible = true then min (extent memory.target) (extent memory.draft)
    else extent memory.target) = physical
  split_ifs with hzero hmin hextend htrim heligible hrestore
  · exact Nat.zero_le n
  · exact Nat.zero_le n
  · exact min_le_left n physical
  · exact min_le_left n physical
  · exact min_le_left n physical
  · have husable := (Bool.and_eq_true_iff.1 hrestore).1
    simp only [checkpointUsable, recurrentCheckpointUsable, Bool.and_eq_true,
      decide_eq_true_eq] at husable
    change (t.keepCheckpoint (t.checkpointUsable m n)).checkpoint.pos ≤ n
    rw [hpos]
    exact husable.1.1.2
  · exact Nat.zero_le n

/-- `init_task` leaves at least the last token of the prompt to decode. -/
theorem promptPos_initTask_lt (outcome : InitOutcome) (memory : Memory) (h : t.tokens ≠ []) :
    (t.initTask m outcome memory).1.promptPos < t.tokens.length := by
  have hpositive := List.length_pos_of_ne_nil h
  have hpast := nPast_lt h
  unfold initTask
  dsimp only
  split_ifs
  · exact hpositive
  · exact (promptPos_reuseSequence_le outcome _ memory).trans_lt hpast
  · exact hpositive
  · exact (promptPos_reuseSequence_le outcome _ memory).trans_lt hpast

theorem hasWork_of_done {t' : SlotTask} (h : t'.promptDone = true) : t'.HasWork := by
  intro _ _ hnot
  rw [h] at hnot
  cases hnot

theorem hasWork_invariant (m : LoadedModel) : TaskInvariant m HasWork where
  sameWork {t t'} hsame h hmedia hne hdone := by
    rw [hsame.prompt] at hmedia
    rw [hsame.promptDone] at hdone
    unfold tokens at hne ⊢
    rw [hsame.prompt] at hne ⊢
    rw [hsame.promptPos]
    exact h hmedia hne hdone
  init {t} eligible outcome memory _ _ := by
    intro _ hne _
    have hprompt := (initTask_starts (m := m)
      (t := { t with mtpEligible := eligible, initialized := true }) outcome memory).1.prompt
    unfold tokens at hne ⊢
    rw [hprompt] at hne ⊢
    exact promptPos_initTask_lt (m := m)
      (t := { t with mtpEligible := eligible, initialized := true }) outcome memory hne
  media {t offsets memory r} _ heval _ := by
    intro hmedia
    obtain ⟨chunk, hchunk, rfl⟩ := Option.map_eq_some_iff.1 heval
    rw [show t.prompt.mediaChunks = [] from hmedia] at hchunk
    cases hchunk
  prefill {t} it room captures id memory hdone _ := by
    obtain ⟨chunk, t', -, hcourse, hpos, -, hprefill⟩ :=
      prefill_cases (m := m) t it room captures id memory
    rw [hprefill]
    split_ifs with hlast
    · exact hasWork_of_done (sampled_samples id).promptDone
    · intro _ _ _
      unfold tokens at hlast ⊢
      rw [hcourse.prompt, hpos]
      exact not_le.1 hlast
  generate {t} it id memory _ _ := hasWork_of_done (sampled_samples id).promptDone
  verify {t} it draft accepted id memory hdone _ :=
    hasWork_of_done ((accept_accepts _).promptDone.trans hdone)

theorem hasWork_of_fresh (t : SlotTask) (h : TaskInvariant.Fresh t) : t.HasWork := by
  intro _ hne _
  rw [h.2.1]
  exact List.length_pos_of_ne_nil hne

/-- While there is something of the prompt left, a batch with room takes a token of it. -/
theorem chunkLength_pos (hmedia : t.prompt.mediaChunks = []) (h : t.promptPos < t.tokens.length)
    {room : ℕ} (hroom : 0 < room) : 0 < t.chunkLength m room := by
  unfold chunkLength
  rw [hmedia]
  simp only [List.find?_nil, Bool.and_eq_true, decide_eq_true_eq]
  split_ifs <;> simp only [lt_min_iff] <;> omega

theorem HasWork.canContribute (h : t.HasWork) (hmedia : t.prompt.mediaChunks = [])
    (hne : t.tokens ≠ []) : t.CanContribute m := by
  intro room hroom
  unfold batchTokens
  cases hdone : t.promptDone with
  | true => simp [Nat.one_le_iff_ne_zero.2 hroom.ne']
  | false => exact chunkLength_pos hmedia (h hmedia hne hdone) hroom

/-- No batch ever takes anything of an empty prompt. -/
theorem batchTokens_of_empty (hempty : t.tokens = []) (hdone : t.promptDone = false) (room : ℕ)
    (draft : List ℤ) : t.batchTokens m room draft = 0 := by
  have hle := (t.chunkLength_le (m := m) room).1
  rw [hempty] at hle
  rw [batchTokens, hdone]
  exact Nat.le_zero.1 (hle.trans (Nat.sub_le _ _))

end SlotTask

/-- Whatever happens to a scheduler, a task with this prompt that runs can contribute to a batch. -/
def NeverStalls (s : PredictSetup) : Prop :=
  ∀ (m : LoadedModel) (nSlots : ℕ) (actions : List Action) (e : Engine),
    exec (Engine.step m) (Engine.loaded nSlots) actions = some e →
      ∀ i c, e.calls i = some c → c.task.prompt.toPredictSetup = s → c.task.live = true →
        c.task.done = false → c.task.CanContribute m

theorem neverStalls {s : PredictSetup} (hmedia : s.mediaChunks = []) (hne : s.promptTokens ≠ []) :
    NeverStalls s := by
  intro m nSlots actions e hrun i c hc hs _ _
  have hwork := (SlotTask.hasWork_invariant m).engine SlotTask.hasWork_of_fresh hrun i c hc
  apply hwork.canContribute
  · rw [hs]
    exact hmedia
  · rw [SlotTask.tokens, hs]
    exact hne

/-! ### Requests of the chat route -/

section Route

open InferDeck.Foundation

/-- The truncated prompt of a request fits its window and never stalls the scheduler, exactly where
the prompt has a token and the window two. -/
theorem truncation_progresses {ρ : Type} (m : LlamaCppModel) (tokenize : Tokenizer ρ)
    (req : InferenceRequest ρ) {ctx : LlamaContext} {tokens : List ℤ}
    (hctx : m.sharedCtx = some ctx) (hpositive : 0 < ctx.nCtxSeq)
    (hwindow : ∀ window, req.contextWindow = some window → 1 ≤ window)
    (htruncate : m.cfg.truncatePrompt = true)
    (htokens : tokenize req (m.promptBudget req) = .ok (.text tokens)) :
    ∃ s, m.prepareInference tokenize req = .ok s ∧
      (s.Fits tokens ∧ NeverStalls s ↔ tokens ≠ [] ∧ 2 ≤ m.requestContextLimit req) := by
  have hloaded : 1 ≤ m.loadedNCtxSeq := by
    have hslot : 512 ≤ m.ctxPerSlot := le_max_left _ _
    unfold LlamaCppModel.loadedNCtxSeq
    rw [hctx]
    simp only [Option.map_some, Option.getD_some]
    split_ifs <;> omega
  have hlimit : 1 ≤ m.requestContextLimit req := by
    unfold LlamaCppModel.requestContextLimit
    cases hwin : req.contextWindow with
    | none => exact hloaded
    | some window => exact le_min hloaded (hwindow window hwin)
  obtain ⟨s, hs, hnCtx, hmedia, hprompt, hmax⟩ :=
    LlamaCppModel.prepareInference_text htruncate htokens
  rw [← hnCtx] at hlimit
  have hfits := LlamaCppModel.fits_iff (m := m) hlimit hprompt hmax
  refine ⟨s, hs, ?_⟩
  rw [← hnCtx]
  constructor
  · exact fun h => hfits.1 h.1
  · intro h
    have hfit := hfits.2 h
    exact ⟨hfit, neverStalls hmedia (List.ne_nil_of_length_pos hfit.nonempty)⟩

def chatModel : LlamaCppModel where
  info := { name := "chat" }
  loaded := true
  sharedCtx := some { nCtx := 4096, nCtxSeq := 4096, nSeqMax := 1 }

def threeTokens : Tokenizer Unit := fun _ _ => .ok (.text [5, 6, 7])

theorem truncation_progresses_twoTokens :
    ∃ s, chatModel.prepareInference threeTokens
        { content := (), contextWindow := some 2 } = .ok s ∧
      (s.Fits [5, 6, 7] ∧ NeverStalls s ↔
        [5, 6, 7] ≠ ([] : List ℤ) ∧ 2 ≤ chatModel.requestContextLimit
          ({ content := (), contextWindow := some 2 } : InferenceRequest Unit)) :=
  truncation_progresses chatModel threeTokens { content := (), contextWindow := some 2 } rfl
    (by decide) (fun window h => by obtain rfl := Option.some.inj h; decide) rfl rfl

def nothingLeft : PreparedPrompt where
  promptTokens := []
  nCtxSeq := 1
  maxTokens := 1
  checkpointCapturePos := 3
  media_iff := by decide
  text_positions _ := rfl
  media_positions _ _ h := by simp at h
  media_capture h := absurd rfl h

/-- A request with `num_ctx` 1 keeps no token of its prompt, and the scheduler's loop then holds a
task that runs and that no batch takes anything of. -/
theorem oneTokenWindow_stalls :
    ∃ s, chatModel.prepareInference threeTokens
        { content := (), contextWindow := some 1 } = .ok s ∧
      ¬ s.Fits [5, 6, 7] ∧ ¬ NeverStalls s := by
  refine ⟨nothingLeft.toPredictSetup, by decide, fun h => absurd h.nonempty (by decide), fun h => ?_⟩
  have hrun : ∃ e, exec (Engine.step Wrapper.textModel) (Engine.loaded 1)
      [.onSlot 0 .acquire, .start 0 false nothingLeft,
        .onSlot 0 (.init { runnable := 1 } {})] = some e ∧
      ∃ c, e.calls 0 = some c ∧ c.task.prompt.toPredictSetup = nothingLeft.toPredictSetup ∧
        c.task.live = true ∧ c.task.done = false ∧ c.task.promptDone = false :=
    ⟨_, rfl, _, rfl, rfl, rfl, rfl, rfl⟩
  obtain ⟨e, hexec, c, hc, hprompt, hlive, hdone, hphase⟩ := hrun
  have hcontributes := h Wrapper.textModel 1 _ e hexec 0 c hc hprompt hlive hdone 1 one_pos
  rw [SlotTask.batchTokens_of_empty (by rw [SlotTask.tokens, hprompt]; rfl) hphase] at hcontributes
  exact absurd hcontributes (lt_irrefl 0)

end Route

end InferDeck.LlamaWrapper.SlotCache
