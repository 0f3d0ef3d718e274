import InferDeck.LlamaCppModel

/-!
# Two computations of a request's budget

`estimate_request_demand` tells the coordinator how much context a request needs, and
`prepare_inference` gives the scheduler the prompt and the greatest number of output tokens. Both
start from the same prompt. The chat template and the tokenizers are a parameter: `tokenize` gives
what they make of a request within a prompt budget.
-/

namespace InferDeck.LlamaWrapper

open InferDeck.Foundation InferDeck.Model

/-- A request: what the chat template and the tokenizers read of it, and its limits. -/
structure InferenceRequest (ρ : Type) where
  content : ρ
  maxOutputTokens : ℤ := 0
  contextWindow : Option ℤ := none

inductive PromptChunk where
  | text (tokens : List ℤ)
  | image (tokenCount : ℤ) (positions : ℕ) (copied : Bool)
  | audio
  deriving DecidableEq

/-- The result of tokenization: the prompt's tokens, or its chunks where it holds media. -/
inductive TokenizedPrompt where
  | text (tokens : List ℤ)
  | media (chunks : List PromptChunk)
  deriving DecidableEq

abbrev Tokenizer (ρ : Type) := InferenceRequest ρ → ℤ → Result TokenizedPrompt

structure MediaChunk where
  tokenStart : ℤ
  tokenCount : ℤ
  positionCount : ℕ
  deriving DecidableEq

structure PredictSetup where
  promptTokens : List ℤ := []
  mediaChunks : List MediaChunk := []
  promptPositionCount : ℤ := 0
  nCtxSeq : ℤ := 0
  maxTokens : ℤ := 0
  deriving DecidableEq

def tokenNull : ℤ := -1

def PromptChunk.positions : PromptChunk → ℕ
  | text tokens => tokens.length
  | image _ positions _ => positions
  | audio => 0

/-- `mtmd_helper_get_n_pos`. -/
def promptPositions (chunks : List PromptChunk) : ℕ := (chunks.map PromptChunk.positions).sum

def appendChunks : List PromptChunk → PredictSetup → Result PredictSetup
  | [], s => .ok s
  | .text tokens :: chunks, s =>
      appendChunks chunks { s with promptTokens := s.promptTokens ++ tokens }
  | .image tokenCount positions copied :: chunks, s =>
      if !copied || decide (tokenCount ≤ 0) then
        err .internal "multimodal prompt produced an invalid image chunk"
      else
        appendChunks chunks { s with
          promptTokens := s.promptTokens ++ List.replicate tokenCount.toNat tokenNull
          mediaChunks := s.mediaChunks ++ [⟨s.promptTokens.length, tokenCount, positions⟩] }
  | .audio :: _, _ => err .invalidArgument "only image media is supported for chat inference"

/-- The output tokens that a truncated prompt leaves room for. -/
def outputReserve (nCtx maxOutputTokens : ℤ) : ℤ :=
  let reserveHi := nCtx.tdiv 4
  max (min 256 reserveHi) (min (if 0 < maxOutputTokens then maxOutputTokens else 1024) reserveHi)

def maybeTruncatePrompt (tokens : List ℤ) (nCtx maxOutputTokens : ℤ) : List ℤ :=
  if (tokens.length : ℤ) < nCtx then tokens
  else
    let target := nCtx - outputReserve nCtx maxOutputTokens - 1
    let keepHead := min 1024 (target.tdiv 4)
    let keepTail := target - keepHead
    tokens.take keepHead.toNat ++ tokens.drop (tokens.length - keepTail.toNat)

namespace LlamaCppModel

variable {ρ : Type} (m : LlamaCppModel) (tokenize : Tokenizer ρ)

def loadedNCtxSeq : ℤ :=
  let nCtxSeq := (m.sharedCtx.map LlamaContext.nCtxSeq).getD 0
  if m.info.concurrencyAuto then m.ctxPerSlot
  else if m.cfg.kvUnified then min m.ctxPerSlot nCtxSeq
  else nCtxSeq

def requestContextLimit (req : InferenceRequest ρ) : ℤ :=
  match req.contextWindow with
  | some window => min m.loadedNCtxSeq window
  | none => m.loadedNCtxSeq

def preparePrompt (req : InferenceRequest ρ) (requestContextLimit : ℤ) : Result PredictSetup := do
  let budget := if m.cfg.truncatePrompt && decide (0 < requestContextLimit) then
    requestContextLimit - outputReserve requestContextLimit req.maxOutputTokens - 1 else 0
  match ← tokenize req budget with
  | .text tokens =>
      .ok { promptTokens := tokens
            promptPositionCount := tokens.length
            nCtxSeq := requestContextLimit }
  | .media chunks =>
      let s ← appendChunks chunks { promptPositionCount := promptPositions chunks }
      if s.promptTokens.getLast? = none ∨ s.promptTokens.getLast? = some tokenNull then
        err .internal "multimodal chat template did not produce a text generation suffix"
      else .ok { s with nCtxSeq := requestContextLimit }

def promptContext (s : PredictSetup) : ℤ :=
  if 0 < s.promptPositionCount then s.promptPositionCount else s.promptTokens.length

def estimateRequestDemand (req : InferenceRequest ρ) : Result RequestDemand := do
  let limit := m.requestContextLimit req
  let prompt ← m.preparePrompt tokenize req limit
  let promptPositions :=
    if decide (limit ≤ promptContext prompt) && m.cfg.truncatePrompt && prompt.mediaChunks.isEmpty
    then ((maybeTruncatePrompt prompt.promptTokens limit req.maxOutputTokens).length : ℤ)
    else promptContext prompt
  let contextBudget := max 1 (limit - promptPositions - 1)
  let outputTokens :=
    if 0 < req.maxOutputTokens then min req.maxOutputTokens contextBudget else contextBudget
  .ok { promptPositions
        outputTokens
        requiredContext := promptPositions + outputTokens + 1
        requiredSequences := 1 }

/-- The greatest number of output tokens, from the budget that the prompt leaves. -/
def maxTokens (req : InferenceRequest ρ) (ctxBudget : ℤ) : ℤ :=
  let outputLimit :=
    if 0 < req.maxOutputTokens then req.maxOutputTokens else m.info.defaultMaxOutputTokens
  if 0 < outputLimit then min outputLimit ctxBudget else ctxBudget

/-- `prepare_inference` up to the snapshot of the slots. -/
def prepareInference (req : InferenceRequest ρ) : Result PredictSetup := do
  let nCtxSeq := m.requestContextLimit req
  let s ← m.preparePrompt tokenize req nCtxSeq
  if nCtxSeq ≤ promptContext s then
    if !m.cfg.truncatePrompt || !s.mediaChunks.isEmpty then
      err .contextLengthExceeded ("This model's maximum context length is " ++ toString nCtxSeq ++
        " tokens. However, your messages resulted in " ++ toString (promptContext s) ++
        " tokens. Please reduce the length of the messages.")
    else
      let tokens := maybeTruncatePrompt s.promptTokens nCtxSeq req.maxOutputTokens
      .ok { s with
        promptTokens := tokens
        promptPositionCount := tokens.length
        maxTokens := m.maxTokens req (max 1 (nCtxSeq - tokens.length - 1)) }
  else
    .ok { s with
      maxTokens := m.maxTokens req (max 1 (nCtxSeq - s.promptPositionCount - 1)) }

section Budget

variable {m tokenize} {m₀ : LlamaCppModel} {req : InferenceRequest ρ} {ctx : LlamaContext}

theorem promptContext_nonneg (s : PredictSetup) : 0 ≤ promptContext s := by
  unfold promptContext
  split_ifs <;> omega

/-- The limit of a request depends on the settings only, not on the present context. -/
theorem loadedNCtxSeq_eq (hctx : m.sharedCtx = some ctx) (hholds : HoldsRequest m ctx) :
    m.loadedNCtxSeq = m.ctxPerSlot := by
  unfold loadedNCtxSeq
  rcases hholds with hconcurrent | ⟨hunified, hroom⟩
  · simp [hconcurrent]
  · simp [hctx, hunified, min_eq_left hroom]

theorem appendChunks_keeps {chunks : List PromptChunk} {s s' : PredictSetup}
    (h : appendChunks chunks s = .ok s') :
    s'.promptPositionCount = s.promptPositionCount ∧
      (s'.promptTokens.getLast? = s.promptTokens.getLast? ∨
        s'.promptTokens.getLast? = some tokenNull ∨ 0 < promptPositions chunks) := by
  induction chunks generalizing s with
  | nil =>
      obtain rfl := Except.ok.inj h
      exact ⟨rfl, Or.inl rfl⟩
  | cons chunk chunks ih =>
      cases chunk with
      | text tokens =>
          obtain ⟨hcount, hlast⟩ := ih h
          refine ⟨hcount, ?_⟩
          cases tokens with
          | nil =>
              rw [List.append_nil] at hlast
              simpa [promptPositions, PromptChunk.positions] using hlast
          | cons token tokens =>
              right; right
              simp only [promptPositions, PromptChunk.positions, List.map_cons, List.sum_cons,
                List.length_cons]
              omega
      | image tokenCount positions copied =>
          unfold appendChunks at h
          split_ifs at h with hinvalid
          · exact absurd h err_ne_ok
          · obtain ⟨hcount, hlast⟩ := ih h
            refine ⟨hcount, ?_⟩
            simp only [Bool.or_eq_true, Bool.not_eq_true', decide_eq_true_eq, not_or, not_le]
              at hinvalid
            obtain ⟨n, hn⟩ : ∃ n, tokenCount.toNat = n + 1 := ⟨tokenCount.toNat - 1, by omega⟩
            rw [hn, List.replicate_succ', ← List.append_assoc, List.getLast?_concat] at hlast
            rcases hlast with hlast | hlast | hpositions
            · exact Or.inr (Or.inl hlast)
            · exact Or.inr (Or.inl hlast)
            · right; right
              simp only [promptPositions, List.map_cons, List.sum_cons] at hpositions ⊢
              omega
      | audio => exact absurd h err_ne_ok

/-- The position count that the budget of `prepare_inference` starts from is the prompt's. -/
theorem preparePrompt_ok {limit : ℤ} {s : PredictSetup}
    (h : m.preparePrompt tokenize req limit = .ok s) :
    s.promptPositionCount = promptContext s := by
  unfold preparePrompt at h
  obtain ⟨prompt, _, h⟩ := bind_eq_ok.1 h
  cases prompt with
  | text tokens =>
      obtain rfl := Except.ok.inj h
      unfold promptContext
      split_ifs <;> rfl
  | media chunks =>
      obtain ⟨s₁, happend, h⟩ := bind_eq_ok.1 h
      obtain ⟨hcount, hlast⟩ := appendChunks_keeps happend
      split_ifs at h with hsuffix
      · exact absurd h err_ne_ok
      · obtain rfl := Except.ok.inj h
        have hpositions : 0 < promptPositions chunks := by
          rw [not_or] at hsuffix
          rcases hlast with hlast | hlast | hpositions
          · exact absurd hlast hsuffix.1
          · exact absurd hlast hsuffix.2
          · exact hpositions
        have hpositive : 0 < s₁.promptPositionCount := by
          rw [hcount]
          exact Int.natCast_pos.2 hpositions
        simp [promptContext, hpositive]

/-- The output that the estimate counts and `prepare_inference` does not ask for. -/
def unusedOutput (m : LlamaCppModel) (req : InferenceRequest ρ) (outputTokens : ℤ) : ℤ :=
  if 0 < req.maxOutputTokens ∨ m.info.defaultMaxOutputTokens ≤ 0 then 0
  else max 0 (outputTokens - m.info.defaultMaxOutputTokens)

theorem unusedOutput_nonneg (m : LlamaCppModel) (req : InferenceRequest ρ) (outputTokens : ℤ) :
    0 ≤ unusedOutput m req outputTokens := by
  unfold unusedOutput
  split_ifs <;> omega

theorem maxTokens_eq (m : LlamaCppModel) (req : InferenceRequest ρ) {budget : ℤ}
    (hbudget : 0 < budget) :
    0 < m.maxTokens req budget ∧
      m.maxTokens req budget + unusedOutput m req
          (if 0 < req.maxOutputTokens then min req.maxOutputTokens budget else budget) =
        (if 0 < req.maxOutputTokens then min req.maxOutputTokens budget else budget) := by
  unfold maxTokens unusedOutput
  dsimp only
  split_ifs <;> omega

/-- Both computations start from the same prompt, and the estimate is the larger one. -/
theorem budget_eq {demand : RequestDemand} {s : PredictSetup} (hcfg : m₀.cfg = m.cfg)
    (hlimit : m₀.loadedNCtxSeq = m.loadedNCtxSeq)
    (hestimate : m₀.estimateRequestDemand tokenize req = .ok demand)
    (hprepare : m.prepareInference tokenize req = .ok s) :
    0 < s.maxTokens ∧ promptContext s + s.maxTokens + 1 + unusedOutput m req demand.outputTokens =
      demand.requiredContext := by
  have hrequestLimit : m₀.requestContextLimit req = m.requestContextLimit req := by
    simp only [requestContextLimit, hlimit]
  have hprompt : ∀ limit, m₀.preparePrompt tokenize req limit = m.preparePrompt tokenize req limit := by
    intro limit
    simp only [preparePrompt, hcfg]
  unfold estimateRequestDemand at hestimate
  unfold prepareInference at hprepare
  rw [hrequestLimit] at hestimate
  obtain ⟨prompt, hprepared, hestimate⟩ := bind_eq_ok.1 hestimate
  obtain ⟨prompt', hprepared', hprepare⟩ := bind_eq_ok.1 hprepare
  rw [hprompt] at hprepared
  obtain rfl := Except.ok.inj (hprepared.symm.trans hprepared')
  have hcount := preparePrompt_ok hprepared
  by_cases hlong : m.requestContextLimit req ≤ promptContext prompt
  · rw [if_pos hlong] at hprepare
    split_ifs at hprepare with hrefuse
    · exact absurd hprepare err_ne_ok
    · simp only [Bool.or_eq_true, Bool.not_eq_true', not_or, Bool.not_eq_false] at hrefuse
      obtain rfl := Except.ok.inj hprepare
      simp only [hlong, hcfg, hrefuse, decide_true, Bool.and_self, if_true] at hestimate
      obtain rfl := Except.ok.inj hestimate
      have hbudget : 0 < max 1 (m.requestContextLimit req - (maybeTruncatePrompt prompt.promptTokens
          (m.requestContextLimit req) req.maxOutputTokens).length - 1) := by omega
      obtain ⟨hpositive, hmax⟩ := maxTokens_eq m req hbudget
      refine ⟨hpositive, ?_⟩
      simp only [promptContext, ite_self]
      omega
  · rw [if_neg hlong] at hprepare
    obtain rfl := Except.ok.inj hprepare
    simp only [hlong, decide_false, Bool.false_and, Bool.false_eq_true, if_false] at hestimate
    rw [← hcount] at hestimate
    obtain rfl := Except.ok.inj hestimate
    have hbudget : 0 < max 1 (m.requestContextLimit req - prompt.promptPositionCount - 1) := by
      omega
    obtain ⟨hpositive, hmax⟩ := maxTokens_eq m req hbudget
    have hsame : ∀ n, promptContext { prompt with maxTokens := n } = prompt.promptPositionCount :=
      fun _ => hcount.symm
    refine ⟨hpositive, ?_⟩
    rw [hsame]
    dsimp only
    omega

end Budget

end LlamaCppModel

end InferDeck.LlamaWrapper
