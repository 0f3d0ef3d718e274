import InferDeck.PrepareInference

/-!
# Positions of a prompt

A token of text occupies one position, and a media chunk as many as it says, whatever number of
placeholder tokens stand for it. The weights of a prompt are the positions of its tokens, with all
positions of a chunk on its first placeholder.
-/

namespace InferDeck.LlamaWrapper

open InferDeck.Foundation

structure PredictSetup.Placed (s : PredictSetup) (weights : List ℕ) : Prop where
  length : weights.length = s.promptTokens.length
  text : ∀ (i : ℕ) (t : ℤ), s.promptTokens[i]? = some t → t ≠ tokenNull → weights[i]? = some 1
  covered : ∀ i : ℕ, s.promptTokens[i]? = some tokenNull →
    ∃ chunk ∈ s.mediaChunks, chunk.tokenStart ≤ i ∧ (i : ℤ) < chunk.tokenStart + chunk.tokenCount
  chunks : ∀ chunk ∈ s.mediaChunks, ∃ start count : ℕ, chunk.tokenStart = start ∧
    chunk.tokenCount = count ∧ 0 < count ∧ start + count ≤ s.promptTokens.length ∧
    (∀ i, start ≤ i → i < start + count → s.promptTokens[i]? = some tokenNull) ∧
    (weights.take (start + count)).sum = (weights.take start).sum + chunk.positionCount
  sorted : s.mediaChunks.Pairwise fun a b => a.tokenStart < b.tokenStart

namespace PredictSetup.Placed

variable {s : PredictSetup} {weights : List ℕ}

theorem empty (count nCtxSeq maxTokens : ℤ) :
    Placed { promptPositionCount := count, nCtxSeq, maxTokens } [] := by
  constructor <;> simp

theorem appendText (h : s.Placed weights) {tokens : List ℤ} (htext : tokenNull ∉ tokens) :
    Placed { s with promptTokens := s.promptTokens ++ tokens }
      (weights ++ List.replicate tokens.length 1) where
  length := by simp [h.length]
  text i t ht hne := by
    dsimp only at ht
    rw [List.getElem?_append] at ht ⊢
    rw [h.length]
    split_ifs at ht ⊢ with hi
    · exact h.text i t ht hne
    · obtain ⟨hlt, -⟩ := List.getElem?_eq_some_iff.1 ht
      exact List.getElem?_replicate_of_lt hlt
  covered i hi := by
    dsimp only at hi
    rw [List.getElem?_append] at hi
    split_ifs at hi with hlt
    · exact h.covered i hi
    · exact absurd (List.mem_of_getElem? hi) htext
  chunks chunk hchunk := by
    obtain ⟨start, count, hstart, hcount, hpos, hle, hnull, hsum⟩ := h.chunks chunk hchunk
    refine ⟨start, count, hstart, hcount, hpos, by simp; omega, ?_, ?_⟩
    · intro i hlo hhi
      rw [List.getElem?_append_left (by omega)]
      exact hnull i hlo hhi
    · rw [List.take_append_of_le_length (by rw [h.length]; exact hle),
        List.take_append_of_le_length (by rw [h.length]; omega)]
      exact hsum
  sorted := h.sorted

theorem appendImage (h : s.Placed weights) {count : ℕ} (hcount : 0 < count) (positions : ℕ) :
    Placed { s with
        promptTokens := s.promptTokens ++ List.replicate count tokenNull
        mediaChunks := s.mediaChunks ++ [⟨s.promptTokens.length, count, positions⟩] }
      (weights ++ positions :: List.replicate (count - 1) 0) where
  length := by
    simp [h.length]
    omega
  text i t ht hne := by
    dsimp only at ht
    rw [List.getElem?_append] at ht
    split_ifs at ht with hi
    · rw [List.getElem?_append_left (by rw [h.length]; exact hi)]
      exact h.text i t ht hne
    · exact absurd (List.eq_of_mem_replicate (List.mem_of_getElem? ht)) hne
  covered i hi := by
    dsimp only at hi ⊢
    rw [List.getElem?_append] at hi
    split_ifs at hi with hlt
    · obtain ⟨chunk, hchunk, hcover⟩ := h.covered i hi
      exact ⟨chunk, List.mem_append_left _ hchunk, hcover⟩
    · obtain ⟨hlt', -⟩ := List.getElem?_eq_some_iff.1 hi
      rw [List.length_replicate] at hlt'
      refine ⟨_, List.mem_append_right _ (List.mem_singleton_self _), ?_, ?_⟩
      · dsimp only
        omega
      · dsimp only
        omega
  chunks chunk hchunk := by
    rcases List.mem_append.1 hchunk with hold | hnew
    · obtain ⟨start, count', hstart, hcount', hpos, hle, hnull, hsum⟩ := h.chunks chunk hold
      refine ⟨start, count', hstart, hcount', hpos, by simp; omega, ?_, ?_⟩
      · intro i hlo hhi
        rw [List.getElem?_append_left (by omega)]
        exact hnull i hlo hhi
      · rw [List.take_append_of_le_length (by rw [h.length]; exact hle),
          List.take_append_of_le_length (by rw [h.length]; omega)]
        exact hsum
    · obtain rfl := List.mem_singleton.1 hnew
      refine ⟨s.promptTokens.length, count, rfl, rfl, hcount, by simp, ?_, ?_⟩
      · intro i hlo hhi
        rw [List.getElem?_append_right hlo]
        exact List.getElem?_replicate_of_lt (by omega)
      · have hlen : weights.length + count =
            (weights ++ positions :: List.replicate (count - 1) 0).length := by
          simp
          omega
        rw [← h.length, hlen, List.take_length, List.take_left]
        simp
  sorted := by
    dsimp only
    rw [List.pairwise_append]
    refine ⟨h.sorted, List.pairwise_singleton _ _, ?_⟩
    intro a ha b hb
    obtain rfl := List.mem_singleton.1 hb
    obtain ⟨start, count', hstart, -, hpos, hle, -, -⟩ := h.chunks a ha
    dsimp only
    omega

/-- Text alone, one position for each token. -/
theorem ofText (hmedia : s.mediaChunks = []) (htext : tokenNull ∉ s.promptTokens) :
    s.Placed (List.replicate s.promptTokens.length 1) where
  length := by simp
  text i t ht _ := by
    obtain ⟨hlt, -⟩ := List.getElem?_eq_some_iff.1 ht
    exact List.getElem?_replicate_of_lt hlt
  covered i hi := absurd (List.mem_of_getElem? hi) htext
  chunks chunk hchunk := by simp [hmedia] at hchunk
  sorted := by simp [hmedia]

theorem appendChunks {chunks : List PromptChunk} {s' : PredictSetup} (h : s.Placed weights)
    (htext : ∀ tokens, .text tokens ∈ chunks → tokenNull ∉ tokens)
    (happend : LlamaWrapper.appendChunks chunks s = .ok s') :
    ∃ weights', s'.Placed weights' ∧ weights'.sum = weights.sum + promptPositions chunks := by
  induction chunks generalizing s weights with
  | nil =>
      obtain rfl := Except.ok.inj happend
      exact ⟨weights, h, rfl⟩
  | cons chunk chunks ih =>
      have hrest := fun tokens hmem => htext tokens (List.mem_cons_of_mem _ hmem)
      cases chunk with
      | text tokens =>
          obtain ⟨weights', hplaced, hsum⟩ :=
            ih (h.appendText (htext tokens List.mem_cons_self)) hrest happend
          refine ⟨weights', hplaced, ?_⟩
          simp only [hsum, List.sum_append, List.sum_replicate, promptPositions, List.map_cons,
            List.sum_cons, PromptChunk.positions, smul_eq_mul, mul_one]
          omega
      | image tokenCount positions copied =>
          unfold LlamaWrapper.appendChunks at happend
          split_ifs at happend with hinvalid
          · exact absurd happend err_ne_ok
          · simp only [Bool.or_eq_true, Bool.not_eq_true', decide_eq_true_eq, not_or, not_le]
              at hinvalid
            obtain ⟨count, rfl⟩ := Int.eq_ofNat_of_zero_le hinvalid.2.le
            obtain ⟨weights', hplaced, hsum⟩ :=
              ih (h.appendImage (by omega) positions) hrest happend
            refine ⟨weights', hplaced, ?_⟩
            simp only [hsum, List.sum_append, List.sum_cons, List.sum_replicate, promptPositions,
              List.map_cons, PromptChunk.positions, smul_eq_mul, mul_zero]
            omega
      | audio => exact absurd happend err_ne_ok

/-- Tokens of text from `k` on occupy one position each. -/
theorem take_sum_text (h : s.Placed weights) {k n : ℕ}
    (htext : ∀ i, k ≤ i → i < k + n → ∃ t, s.promptTokens[i]? = some t ∧ t ≠ tokenNull) :
    (weights.take (k + n)).sum = (weights.take k).sum + n := by
  induction n with
  | zero => rfl
  | succ n ih =>
      obtain ⟨t, ht, hne⟩ := htext (k + n) (by omega) (by omega)
      have hweight := h.text (k + n) t ht hne
      rw [← Nat.add_assoc, List.take_add_one, hweight, List.sum_append,
        ih fun i hlo hhi => htext i hlo (by omega)]
      simp only [Option.toList_some, List.sum_singleton]
      omega

/-- Between a token of text and the next media chunk there is text only. -/
theorem text_before_media (h : s.Placed weights) {k n : ℕ}
    (hk : s.promptTokens[k]? ≠ some tokenNull) (hn : k + n ≤ s.promptTokens.length)
    (hnext : ∀ chunk, s.mediaChunks.find? (fun chunk => decide ((k : ℤ) < chunk.tokenStart)) =
      some chunk → n ≤ chunk.tokenStart.toNat - k) :
    ∀ i, k ≤ i → i < k + n → ∃ t, s.promptTokens[i]? = some t ∧ t ≠ tokenNull := by
  intro i hlo hhi
  have hlt : i < s.promptTokens.length := by omega
  refine ⟨s.promptTokens[i], List.getElem?_eq_getElem hlt, ?_⟩
  intro hnull
  have hi : s.promptTokens[i]? = some tokenNull := by
    rw [List.getElem?_eq_getElem (by omega), hnull]
  obtain ⟨chunk, hchunk, hstart, hend⟩ := h.covered i hi
  obtain ⟨start, count, hs, hc, -, -, hnulls, -⟩ := h.chunks chunk hchunk
  rw [hs, hc] at hend
  rw [hs] at hstart
  by_cases hbefore : start ≤ k
  · exact hk (hnulls k hbefore (by omega))
  · -- the first chunk after `k` starts no later than this one
    cases hfind : s.mediaChunks.find? (fun chunk => decide ((k : ℤ) < chunk.tokenStart)) with
    | none =>
        have hnot := List.find?_eq_none.1 hfind chunk hchunk
        rw [decide_eq_true_iff, hs] at hnot
        omega
    | some first =>
        have hle := hnext first hfind
        have hfirst : first.tokenStart ≤ chunk.tokenStart := by
          obtain ⟨-, before, after, hsplit, hnone⟩ := List.find?_eq_some_iff_append.1 hfind
          rw [hsplit] at hchunk
          rcases List.mem_append.1 hchunk with hmem | hmem
          · have hnot := hnone chunk hmem
            rw [Bool.not_eq_true', decide_eq_false_iff_not, hs] at hnot
            omega
          · rcases List.mem_cons.1 hmem with rfl | hmem
            · exact le_rfl
            · have hsorted := h.sorted
              rw [hsplit, List.pairwise_append] at hsorted
              exact ((List.pairwise_cons.1 hsorted.2.1).1 chunk hmem).le
        omega

theorem media_iff (h : s.Placed weights) : s.mediaChunks = [] ↔ tokenNull ∉ s.promptTokens := by
  constructor
  · intro hmedia hnull
    obtain ⟨i, hi⟩ := List.getElem?_of_mem hnull
    obtain ⟨chunk, hchunk, -⟩ := h.covered i hi
    simp [hmedia] at hchunk
  · intro htext
    refine List.eq_nil_iff_forall_not_mem.2 fun chunk hchunk => ?_
    obtain ⟨start, count, -, -, hpos, -, hnulls, -⟩ := h.chunks chunk hchunk
    exact htext (List.mem_of_getElem? (hnulls start le_rfl (by omega)))

/-- Text at the start occupies one position for each token. -/
theorem take_sum_of_prefix (h : s.Placed weights) {text : List ℤ} (htext : tokenNull ∉ text)
    (hbegins : text <+: s.promptTokens) : (weights.take text.length).sum = text.length := by
  have hsum := h.take_sum_text (k := 0) (n := text.length) fun i _ hi => by
    rw [Nat.zero_add] at hi
    refine ⟨text[i], ?_, fun hnull => htext (hnull ▸ List.getElem_mem hi)⟩
    rw [← List.prefix_iff_getElem?.1 hbegins i hi]
  simpa using hsum

end PredictSetup.Placed

namespace LlamaCppModel

variable {ρ : Type} {m : LlamaCppModel} {tokenize : Tokenizer ρ} {req : InferenceRequest ρ}

/-- No token of a vocabulary is the placeholder of the media chunks. -/
def TextTokens (tokenize : Tokenizer ρ) : Prop :=
  ∀ req budget, (∀ tokens, tokenize req budget = .ok (.text tokens) → tokenNull ∉ tokens) ∧
    ∀ chunks tokens, tokenize req budget = .ok (.media chunks) → .text tokens ∈ chunks →
      tokenNull ∉ tokens

theorem tokenNull_not_mem_truncated {tokens : List ℤ} (h : tokenNull ∉ tokens) (n k : ℤ) :
    tokenNull ∉ maybeTruncatePrompt tokens n k := by
  unfold maybeTruncatePrompt
  dsimp only
  split_ifs
  · exact h
  · intro hmem
    rcases List.mem_append.1 hmem with hmem | hmem
    · exact h (List.mem_of_mem_take hmem)
    · exact h (List.mem_of_mem_drop hmem)

/-- A prompt as `prepare_prompt` makes it, with its weights. -/
theorem placed_preparePrompt (htext : TextTokens tokenize) {limit : ℤ} {s : PredictSetup}
    (h : m.preparePrompt tokenize req limit = .ok s) :
    ∃ weights, s.Placed weights ∧ (weights.sum : ℤ) = s.promptPositionCount ∧
      (s.mediaChunks = [] → tokenNull ∉ s.promptTokens) := by
  unfold preparePrompt at h
  obtain ⟨tokenized, htok, h⟩ := bind_eq_ok.1 h
  cases tokenized with
  | text tokens =>
      obtain rfl := Except.ok.inj h
      have hnull := (htext req _).1 tokens htok
      exact ⟨_, .ofText rfl hnull, by simp, fun _ => hnull⟩
  | media chunks =>
      obtain ⟨s', happend, h⟩ := bind_eq_ok.1 h
      split_ifs at h
      · exact absurd h err_ne_ok
      · obtain rfl := Except.ok.inj h
        obtain ⟨weights, hplaced, hsum⟩ := (PredictSetup.Placed.empty _ 0 0).appendChunks
          (fun tokens hmem => (htext req _).2 chunks tokens htok hmem) happend
        have hcount := (appendChunks_keeps happend).1
        refine ⟨weights, ⟨hplaced.length, hplaced.text, hplaced.covered, hplaced.chunks,
          hplaced.sorted⟩, ?_, ?_⟩
        · simp [hsum, hcount]
        · intro hmedia hnull
          obtain ⟨i, hi⟩ := List.getElem?_of_mem hnull
          obtain ⟨chunk, hchunk, -⟩ := hplaced.covered i hi
          simp [show s'.mediaChunks = [] from hmedia] at hchunk

theorem sum_le_promptContext {s : PredictSetup} {weights : List ℕ}
    (h : (weights.sum : ℤ) = s.promptPositionCount) : (weights.sum : ℤ) ≤ promptContext s := by
  unfold promptContext
  split_ifs <;> omega

/-- The weights of a prompt as `prepare_inference` makes it are its positions. -/
theorem placed_prepareInference (htext : TextTokens tokenize) {s : PredictSetup}
    (h : m.prepareInference tokenize req = .ok s) :
    ∃ weights, s.Placed weights ∧ (weights.sum : ℤ) = s.promptPositionCount := by
  unfold prepareInference at h
  obtain ⟨s₀, hprompt, h⟩ := bind_eq_ok.1 h
  obtain ⟨weights, hplaced, hsum, hnull⟩ := placed_preparePrompt htext hprompt
  split_ifs at h with hlong hkeep
  · exact absurd h err_ne_ok
  · obtain rfl := Except.ok.inj h
    obtain ⟨-, hmedia⟩ : m.cfg.truncatePrompt = true ∧ s₀.mediaChunks = [] := by
      simpa using hkeep
    have htruncated := tokenNull_not_mem_truncated (hnull hmedia)
    exact ⟨_, .ofText hmedia (htruncated _ _), by simp⟩
  · obtain rfl := Except.ok.inj h
    exact ⟨weights, ⟨hplaced.length, hplaced.text, hplaced.covered, hplaced.chunks,
      hplaced.sorted⟩, hsum⟩

end LlamaCppModel

end InferDeck.LlamaWrapper
