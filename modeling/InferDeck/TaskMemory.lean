import InferDeck.SlotCache

/-!
# What a task leaves in the memory

While its prompt is written, a task's sequence holds the part of the prompt that it has passed.
While it generates, the sequence holds the prompt and every token that was emitted but the last
one. Whenever the task ends, the sequence agrees with the prompt followed by any first part of what
was emitted. A prompt with media is tracked up to its first media chunk.
-/

namespace InferDeck.LlamaWrapper.SlotCache

open SequenceMemory

/-- A record of the prompt and of any first tokens that were emitted agrees with the memory. -/
def Settled (tokens : List ℤ) (cells : Cells) (emitted : List ℤ) : Prop :=
  ∀ kept, kept <+: emitted → Agrees tokenNull (tokens ++ kept) cells

/-- The memory is written up to the text's end, and beyond it only at later positions: the text is
the prompt's part before its first media chunk. -/
def PastMedia (tokens : List ℤ) (cells : Cells) (nPos : ℕ) : Prop :=
  ∃ text rest, tokenNull ∉ text ∧ text ++ [tokenNull] <+: tokens ∧ cells = layout 0 text ++ rest ∧
    (∀ c ∈ rest, text.length ≤ c.pos) ∧ text.length ≤ nPos

/-- How far the memory is written, before a token is sampled or the last one is decoded. -/
def Written (tokens : List ℤ) (cells : Cells) (nPos : ℕ) (text : List ℤ) : Prop :=
  cells = layout 0 (tokens ++ text) ∧ nPos = (tokens ++ text).length ∨
    PastMedia tokens cells nPos

/-- The captured states are those of the prompt's first tokens. -/
structure CheckpointOf (tokens : List ℤ) (c : Checkpoint) : Prop where
  target : ∀ cells, c.recurrent = some cells → cells = layout 0 (tokens.take c.pos)
  draft : ∀ cells, c.recurrentDraft = some cells → cells = layout 0 (tokens.take c.pos)
  le : c.pos ≤ tokens.length

section Settled

variable {tokens : List ℤ} {cells : Cells} {emitted text : List ℤ} {nPos : ℕ}

theorem settled_nil (tokens emitted : List ℤ) : Settled tokens [] emitted :=
  fun kept _ => agrees_nil tokenNull (tokens ++ kept)

theorem settled_layout (h : emitted <+: text ∨ text <+: emitted) :
    Settled tokens (layout 0 (tokens ++ text)) emitted := by
  intro kept hkept
  have hcompare : kept <+: text ∨ text <+: kept := by
    rcases h with h | h
    · exact Or.inl (hkept.trans h)
    · exact List.prefix_or_prefix_of_prefix hkept h
  exact agrees_layout (hcompare.imp (List.prefix_append_right_inj tokens).2
    (List.prefix_append_right_inj tokens).2)

theorem PastMedia.settled (h : PastMedia tokens cells nPos) (emitted : List ℤ) :
    Settled tokens cells emitted := by
  intro kept _
  obtain ⟨text, rest, -, hmark, hcells, hrest, -⟩ := h
  exact ⟨text, rest, hcells, hrest, Or.inr (hmark.trans (List.prefix_append tokens kept))⟩

/-- Writing at the present position and going on from there keeps what is before the media. -/
theorem PastMedia.write (h : PastMedia tokens cells nPos) {cells' : Cells} {nPos' : ℕ}
    (hcells : ∀ c ∈ cells', nPos ≤ c.pos)
    (hpos : ∀ text, tokenNull ∉ text → text ++ [tokenNull] <+: tokens → text.length ≤ nPos →
      text.length ≤ nPos') : PastMedia tokens (cells ++ cells') nPos' := by
  obtain ⟨text, rest, hnull, hmark, rfl, hrest, hle⟩ := h
  refine ⟨text, rest ++ cells', hnull, hmark, by rw [List.append_assoc], ?_, hpos text hnull hmark hle⟩
  intro c hc
  rcases List.mem_append.1 hc with hc | hc
  · exact hrest c hc
  · exact hle.trans (hcells c hc)

theorem Written.settled (h : Written tokens cells nPos text)
    (hemitted : emitted <+: text ∨ text <+: emitted) : Settled tokens cells emitted := by
  rcases h with ⟨rfl, -⟩ | h
  · exact settled_layout hemitted
  · exact h.settled emitted

theorem Written.write (h : Written tokens cells nPos text) (ids : List ℤ) :
    Written tokens (cells ++ layout nPos ids) (nPos + ids.length) (text ++ ids) := by
  rcases h with ⟨rfl, rfl⟩ | h
  · left
    refine ⟨?_, by simp [Nat.add_assoc]⟩
    rw [← List.append_assoc, layout_append 0 (tokens ++ text), Nat.zero_add]
  · exact Or.inr (h.write (fun c hc => (pos_of_mem_layout hc).1) fun _ _ _ hle => by omega)

/-- Removing what was written after the first of the new tokens. -/
theorem Written.trim (h : Written tokens cells nPos text) {ids ids' : List ℤ} (hids : ids <+: ids') :
    Written tokens (trim (nPos + ids.length) (cells ++ layout nPos ids')) (nPos + ids.length)
      (text ++ ids) := by
  have hlayout : SequenceMemory.trim (nPos + ids.length) (layout nPos ids') = layout nPos ids := by
    rw [trim_layout, Nat.add_sub_cancel_left, take_eq_take_of_le hids (Nat.le_refl _),
      List.take_length]
  rw [trim_append, hlayout]
  rcases h with ⟨rfl, rfl⟩ | h
  · rw [trim_eq_self (fun c hc => ?_)]
    · exact Written.write (Or.inl ⟨rfl, rfl⟩) ids
    · have := pos_of_mem_layout hc
      omega
  · obtain ⟨media, rest, hnull, hmark, rfl, hrest, hle⟩ := h
    have hkept : SequenceMemory.trim (nPos + ids.length) (layout 0 media) = layout 0 media :=
      trim_eq_self fun c hc => by
        have := pos_of_mem_layout hc
        omega
    rw [trim_append, hkept]
    refine Written.write (Or.inr ⟨media, _, hnull, hmark, rfl, fun c hc => ?_, hle⟩) ids
    exact hrest c (List.mem_of_mem_filter hc)

end Settled

/-- How far the memory is written while the prompt is. -/
def Prefilled (tokens : List ℤ) (cells : Cells) (promptPos nPos : ℕ) : Prop :=
  (cells = layout 0 (tokens.take promptPos) ∧ nPos = promptPos ∧ promptPos ≤ tokens.length ∧
    tokenNull ∉ tokens.take promptPos) ∨ PastMedia tokens cells nPos

section Prefilled

variable {tokens : List ℤ} {cells : Cells} {promptPos nPos : ℕ}

theorem prefilled_start (tokens : List ℤ) : Prefilled tokens [] 0 0 :=
  Or.inl ⟨by simp, rfl, Nat.zero_le _, by simp⟩

theorem Prefilled.settled (h : Prefilled tokens cells promptPos nPos) :
    Settled tokens cells [] := by
  rcases h with ⟨rfl, -, -, -⟩ | h
  · intro kept hkept
    rw [List.prefix_nil.1 hkept, List.append_nil]
    exact agrees_layout (Or.inr (List.take_prefix promptPos tokens))
  · exact h.settled []

theorem Prefilled.write (h : Prefilled tokens cells promptPos nPos) {chunk : ℕ}
    (hchunk : promptPos + chunk ≤ tokens.length) :
    Prefilled tokens (cells ++ layout nPos ((tokens.drop promptPos).take chunk))
      (promptPos + chunk) (nPos + chunk) := by
  rcases h with ⟨rfl, rfl, hle, hnull⟩ | h
  · have hcells : layout 0 (tokens.take nPos) ++ layout nPos ((tokens.drop nPos).take chunk) =
        layout 0 (tokens.take (nPos + chunk)) := by
      rw [List.take_add, layout_append, Nat.zero_add, List.length_take_of_le hle]
    rw [hcells]
    by_cases hnew : tokenNull ∈ tokens.take (nPos + chunk)
    · obtain ⟨text, rest, heq, hnot⟩ := List.eq_append_cons_of_mem hnew
      right
      have hlength : text.length + 1 ≤ nPos + chunk := by
        have := congrArg List.length heq
        rw [List.length_take_of_le hchunk, List.length_append, List.length_cons] at this
        omega
      refine ⟨text, layout text.length (tokenNull :: rest), hnot, ?_, ?_,
        fun c hc => (pos_of_mem_layout hc).1, by omega⟩
      · have hpre : text ++ [tokenNull] <+: tokens.take (nPos + chunk) := ⟨rest, by simp [heq]⟩
        exact hpre.trans (List.take_prefix _ tokens)
      · rw [heq, layout_append, Nat.zero_add]
    · exact Or.inl ⟨rfl, rfl, hchunk, hnew⟩
  · exact Or.inr (h.write (fun c hc => (pos_of_mem_layout hc).1) fun _ _ _ hle => by omega)

theorem Prefilled.media (h : Prefilled tokens cells promptPos nPos)
    (hnull : tokens[promptPos]? = some tokenNull) {cells' : Cells} {nPos' : ℕ}
    (hcells : ∀ c ∈ cells', nPos ≤ c.pos) (hpos : nPos ≤ nPos') :
    PastMedia tokens (cells ++ cells') nPos' := by
  rcases h with ⟨rfl, rfl, hle, hnot⟩ | h
  · refine ⟨tokens.take nPos, cells', hnot, ?_, rfl, ?_, ?_⟩
    · have htake : tokens.take (nPos + 1) = tokens.take nPos ++ [tokenNull] := by
        rw [List.take_add_one, hnull]
        rfl
      exact htake ▸ List.take_prefix (nPos + 1) tokens
    · intro c hc
      rw [List.length_take_of_le hle]
      exact hcells c hc
    · rw [List.length_take_of_le hle]
      exact hpos
  · exact h.write hcells fun _ _ _ hle => by omega

/-- The whole prompt is written; the next position is the one after all of its positions. -/
theorem Prefilled.written {prompt : PreparedPrompt} {promptPos nPos' : ℕ}
    (h : Prefilled prompt.promptTokens cells promptPos nPos)
    (hlast : prompt.promptTokens.length ≤ promptPos)
    (hpos : nPos' = if 0 < prompt.promptPositionCount then prompt.promptPositionCount.toNat
      else nPos) : Written prompt.promptTokens cells nPos' [] := by
  rcases h with ⟨rfl, rfl, hle, hnull⟩ | h
  · rw [List.take_of_length_le hlast] at hnull ⊢
    have hcount := prompt.text_positions (prompt.media_iff.2 hnull)
    left
    rw [List.append_nil]
    refine ⟨rfl, ?_⟩
    rw [hpos]
    split_ifs <;> omega
  · obtain ⟨text, rest, hnull, hmark, hcells, hrest, hle⟩ := h
    have hcount := prompt.media_positions text hnull hmark
    refine Or.inr ⟨text, rest, hnull, hmark, hcells, hrest, ?_⟩
    rw [hpos]
    split_ifs <;> omega

end Prefilled

end InferDeck.LlamaWrapper.SlotCache
