import InferDeck.Utf8Buffer
import Mathlib.Data.List.TakeWhile

/-!
# What the UTF-8 buffers keep

A buffer withholds the character that has begun and is not complete, whatever the bytes are. Of a
text of valid characters it therefore lets valid pieces through. The entries of the probabilities of
a delta are kept where its content is let through as it came, and lost otherwise.
-/

namespace InferDeck.Gateway

/-! ### Valid texts -/

def isUtf8Char : Text → Bool
  | [a] => decide (a.toNat < 0x80)
  | [a, b] => decide (0xc2 ≤ a.toNat) && decide (a.toNat ≤ 0xdf) && isUtf8Continuation b
  | [a, b, c] =>
      decide (0xe0 ≤ a.toNat) && decide (a.toNat ≤ 0xef) && isUtf8Continuation b &&
        isUtf8Continuation c && decide (a.toNat = 0xe0 → 0xa0 ≤ b.toNat) &&
        decide (a.toNat = 0xed → b.toNat ≤ 0x9f)
  | [a, b, c, d] =>
      decide (0xf0 ≤ a.toNat) && decide (a.toNat ≤ 0xf4) && isUtf8Continuation b &&
        isUtf8Continuation c && isUtf8Continuation d &&
        decide (a.toNat = 0xf0 → 0x90 ≤ b.toNat) && decide (a.toNat = 0xf4 → b.toNat ≤ 0x8f)
  | _ => false

inductive ValidUtf8 : Text → Prop where
  | nil : ValidUtf8 []
  | char {c rest : Text} (hc : isUtf8Char c = true) (hrest : ValidUtf8 rest) :
      ValidUtf8 (c ++ rest)

/-- A first byte and its continuation bytes. -/
structure Utf8Sequence (lead : Char) (continuations : Text) : Prop where
  leads : isUtf8Continuation lead = false
  continues : ∀ b ∈ continuations, isUtf8Continuation b = true

/-- A character that has begun and is not complete. -/
structure Incomplete (lead : Char) (continuations : Text) : Prop extends
    Utf8Sequence lead continuations where
  short : continuations.length + 1 < utf8SequenceLength lead

def heldBytes (text : Text) : Text := text.drop (incompleteUtf8Suffix text)

theorem utf8SequenceLength_le (lead : Char) : utf8SequenceLength lead ≤ 4 := by
  unfold utf8SequenceLength
  split_ifs <;> omega

theorem lead_of_sequenceLength {lead : Char} (h : utf8SequenceLength lead ≠ 0) :
    isUtf8Continuation lead = false := by
  unfold utf8SequenceLength at h
  unfold isUtf8Continuation
  rw [decide_eq_false_iff_not]
  split_ifs at h <;> omega

theorem sequence_of_isUtf8Char {c : Text} (h : isUtf8Char c = true) :
    ∃ lead continuations, c = lead :: continuations ∧ Utf8Sequence lead continuations ∧
      utf8SequenceLength lead ≤ continuations.length + 1 ∧
        (continuations ≠ [] → utf8SequenceLength lead = continuations.length + 1) := by
  unfold isUtf8Char at h
  split at h
  · rename_i a
    rw [decide_eq_true_eq] at h
    refine ⟨a, [], rfl, ⟨?_, by simp⟩, ?_, fun hne => absurd rfl hne⟩
    · rw [isUtf8Continuation, decide_eq_false_iff_not]
      omega
    · unfold utf8SequenceLength
      split_ifs <;> omega
  · rename_i a b
    simp only [Bool.and_eq_true, decide_eq_true_eq] at h
    have hlength : utf8SequenceLength a = 2 := by
      unfold utf8SequenceLength
      rw [if_pos ⟨h.1.1, h.1.2⟩]
    exact ⟨a, [b], rfl, ⟨lead_of_sequenceLength (by omega), by simpa using h.2⟩, hlength.le,
      fun _ => hlength⟩
  · rename_i a b c
    simp only [Bool.and_eq_true, decide_eq_true_eq] at h
    have hlength : utf8SequenceLength a = 3 := by
      unfold utf8SequenceLength
      rw [if_neg (by omega), if_pos ⟨h.1.1.1.1.1, h.1.1.1.1.2⟩]
    exact ⟨a, [b, c], rfl, ⟨lead_of_sequenceLength (by omega),
      by simpa using ⟨h.1.1.1.2, h.1.1.2⟩⟩, hlength.le, fun _ => hlength⟩
  · rename_i a b c d
    simp only [Bool.and_eq_true, decide_eq_true_eq] at h
    have hlength : utf8SequenceLength a = 4 := by
      unfold utf8SequenceLength
      rw [if_neg (by omega), if_neg (by omega), if_pos ⟨h.1.1.1.1.1.1, h.1.1.1.1.1.2⟩]
    exact ⟨a, [b, c, d], rfl, ⟨lead_of_sequenceLength (by omega),
      by simpa using ⟨h.1.1.1.1.2, h.1.1.1.2, h.1.1.2⟩⟩, hlength.le, fun _ => hlength⟩
  · cases h

section Held

variable {text x y : Text} {lead : Char} {continuations : Text}

theorem heldBytes_of_incomplete (h : Incomplete lead continuations) :
    heldBytes (y ++ lead :: continuations) = lead :: continuations := by
  have hlength := h.short
  have hle := utf8SequenceLength_le lead
  have hwhile : (((y ++ lead :: continuations).reverse.take 3).takeWhile
      isUtf8Continuation).length = continuations.length := by
    obtain ⟨k, hk⟩ : ∃ k, 3 - continuations.reverse.length = k + 1 :=
      ⟨2 - continuations.length, by rw [List.length_reverse]; omega⟩
    rw [List.reverse_append, List.reverse_cons, List.append_assoc, List.singleton_append,
      List.take_append, List.take_of_length_le (by rw [List.length_reverse]; omega), hk,
      List.take_succ_cons, List.takeWhile_append_of_pos (by simpa using h.continues),
      List.takeWhile_cons_of_neg (by simp [h.leads]), List.append_nil, List.length_reverse]
  have hsuffix : incompleteUtf8Suffix (y ++ lead :: continuations) = y.length := by
    have hsize : (y ++ lead :: continuations).length = y.length + continuations.length + 1 := by
      rw [List.length_append, List.length_cons]
      omega
    have hindex : (y ++ lead :: continuations).length - continuations.length - 1 = y.length := by
      omega
    have hlead : (y ++ lead :: continuations)[y.length]? = some lead := by simp
    rw [incompleteUtf8Suffix]
    simp only [hwhile, hindex, hlead]
    rw [if_neg (by omega), if_pos (by omega)]
  rw [heldBytes, hsuffix, List.drop_left]

theorem incomplete_of_heldBytes (h : heldBytes text ≠ []) :
    ∃ y lead continuations, text = y ++ lead :: continuations ∧ Incomplete lead continuations := by
  unfold heldBytes incompleteUtf8Suffix at h
  generalize hwhile : (text.reverse.take 3).takeWhile isUtf8Continuation = whole at h
  dsimp only at h
  split at h
  · exact absurd (List.drop_length) h
  · rename_i lead hlead
    split_ifs at h with hzero hshort
    · exact absurd List.drop_length h
    · have hprefix : whole <+: text.reverse := by
        rw [← hwhile]
        exact (List.takeWhile_prefix _).trans (List.take_prefix _ _)
      obtain ⟨n, hn⟩ : ∃ n, text.length - whole.length - 1 = n := ⟨_, rfl⟩
      have hle := hprefix.length_le
      rw [List.length_reverse] at hle
      rw [hn] at hlead
      have hindex : n + 1 = text.length - whole.length := by omega
      have hdrop : text.drop (n + 1) = whole.reverse := by
        rw [hindex, ← List.reverse_reverse (text.drop _), List.reverse_drop]
        congr 1
        rw [List.prefix_iff_eq_take.1 hprefix]
        congr 1
        simp
        omega
      have hcontinues : ∀ b ∈ whole, isUtf8Continuation b = true := by
        intro b hb
        rw [← hwhile] at hb
        exact List.mem_takeWhile_imp hb
      refine ⟨text.take n, lead, whole.reverse, ?_, ⟨⟨lead_of_sequenceLength (by omega), ?_⟩, ?_⟩⟩
      · obtain ⟨hlt, hget⟩ := List.getElem?_eq_some_iff.1 hlead
        rw [← hdrop, ← hget, ← List.drop_eq_getElem_cons hlt, List.take_append_drop]
      · simpa using hcontinues
      · rw [List.length_reverse]
        exact hshort
    · exact absurd List.drop_length h

theorem heldBytes_eq_nil_iff :
    heldBytes text = [] ↔ ∀ y lead continuations, text = y ++ lead :: continuations →
      ¬ Incomplete lead continuations := by
  constructor
  · rintro h y lead continuations rfl hincomplete
    rw [heldBytes_of_incomplete hincomplete] at h
    cases h
  · intro h
    by_contra hne
    obtain ⟨y, lead, continuations, htext, hincomplete⟩ := incomplete_of_heldBytes hne
    exact h y lead continuations htext hincomplete

theorem heldBytes_length_le : (heldBytes text).length ≤ 3 := by
  by_cases h : heldBytes text = []
  · simp [h]
  · obtain ⟨y, lead, continuations, rfl, hincomplete⟩ := incomplete_of_heldBytes h
    rw [heldBytes_of_incomplete hincomplete, List.length_cons]
    have hshort := hincomplete.short
    have hle := utf8SequenceLength_le lead
    omega

/-- What a buffer lets through need not be known for what it will withhold. -/
theorem heldBytes_append (h : heldBytes (x ++ y) = y) (chunk : Text) :
    heldBytes (x ++ (y ++ chunk)) = heldBytes (y ++ chunk) := by
  by_cases hright : heldBytes (y ++ chunk) = []
  · rw [hright, heldBytes_eq_nil_iff]
    intro z lead continuations htext hincomplete
    rcases List.append_eq_append_iff.1 htext with ⟨s, -, hs⟩ | ⟨s, hx, hs⟩
    · exact heldBytes_eq_nil_iff.1 hright s lead continuations hs hincomplete
    · cases s with
      | nil => exact heldBytes_eq_nil_iff.1 hright [] lead continuations hs.symm hincomplete
      | cons first s =>
          -- The character would have begun before `y`, and then all of it were withheld.
          rw [List.cons_append] at hs
          obtain ⟨rfl, hcontinuations⟩ := List.cons.inj hs
          have hbegun : Incomplete lead (s ++ y) := by
            refine ⟨⟨hincomplete.leads, fun b hb => hincomplete.continues b ?_⟩, ?_⟩
            · rw [hcontinuations, ← List.append_assoc]
              exact List.mem_append_left _ hb
            · have hshort := hincomplete.short
              rw [hcontinuations] at hshort
              simp only [List.length_append] at hshort ⊢
              omega
          rw [hx, List.append_assoc, List.cons_append, heldBytes_of_incomplete hbegun] at h
          have hlength := congrArg List.length h
          rw [List.length_cons, List.length_append] at hlength
          omega
  · obtain ⟨z, lead, continuations, htext, hincomplete⟩ := incomplete_of_heldBytes hright
    rw [htext, heldBytes_of_incomplete hincomplete, ← List.append_assoc,
      heldBytes_of_incomplete hincomplete]

theorem heldBytes_of_valid (h : ValidUtf8 text) : heldBytes text = [] := by
  rw [heldBytes_eq_nil_iff]
  induction h with
  | nil => exact fun z lead continuations htext => absurd htext (by simp)
  | @char c rest hc _ ih =>
      intro z lead continuations htext hincomplete
      obtain ⟨first, following, rfl, hsequence, hlong, -⟩ := sequence_of_isUtf8Char hc
      rcases List.append_eq_append_iff.1 htext with ⟨s, -, hs⟩ | ⟨s, hchar, hs⟩
      · exact ih s lead continuations hs hincomplete
      · cases s with
        | nil => exact ih [] lead continuations hs.symm hincomplete
        | cons b s =>
            rw [List.cons_append] at hs
            obtain ⟨rfl, rfl⟩ := List.cons.inj hs
            cases z with
            | nil =>
                obtain ⟨rfl, rfl⟩ := List.cons.inj hchar
                have hshort := hincomplete.short
                rw [List.length_append] at hshort
                omega
            | cons b z =>
                obtain ⟨rfl, rfl⟩ := List.cons.inj hchar
                have hleads := hincomplete.leads
                rw [hsequence.continues lead (by simp)] at hleads
                cases hleads

/-- The start of a valid text is a valid text and the start of a character. -/
theorem valid_append (h : ValidUtf8 text) (htext : text = x ++ y) :
    ∃ v begun, x = v ++ begun ∧ ValidUtf8 v ∧ ValidUtf8 (begun ++ y) ∧
      (begun = [] ∨ ∃ lead continuations,
        begun = lead :: continuations ∧ Incomplete lead continuations) := by
  induction h generalizing x with
  | nil =>
      obtain ⟨rfl, rfl⟩ := List.append_eq_nil_iff.1 htext.symm
      exact ⟨[], [], rfl, .nil, .nil, .inl rfl⟩
  | @char c rest hc hrest ih =>
      rcases List.append_eq_append_iff.1 htext with ⟨s, rfl, hs⟩ | ⟨s, hchar, hs⟩
      · obtain ⟨v, begun, rfl, hv, hbegun, hend⟩ := ih hs
        exact ⟨c ++ v, begun, (List.append_assoc _ _ _).symm, .char hc hv, hbegun, hend⟩
      · by_cases hs' : s = []
        · rw [hs', List.append_nil] at hchar
          rw [hs', List.nil_append] at hs
          refine ⟨c, [], by simp [hchar], by simpa using ValidUtf8.char hc .nil, ?_, .inl rfl⟩
          rw [hs]
          exact hrest
        · have hwhole : ValidUtf8 (x ++ y) := by
            rw [hs, ← List.append_assoc, ← hchar]
            exact .char hc hrest
          cases x with
          | nil => exact ⟨[], [], rfl, .nil, hwhole, .inl rfl⟩
          | cons lead continuations =>
              refine ⟨[], lead :: continuations, rfl, .nil, hwhole,
                .inr ⟨lead, continuations, rfl, ?_⟩⟩
              obtain ⟨first, following, rfl, hsequence, -, hlength⟩ := sequence_of_isUtf8Char hc
              rw [List.cons_append] at hchar
              obtain ⟨rfl, rfl⟩ := List.cons.inj hchar
              have hpositive := List.length_pos_of_ne_nil hs'
              refine ⟨⟨hsequence.leads, fun b hb =>
                hsequence.continues b (List.mem_append_left _ hb)⟩, ?_⟩
              rw [hlength (by simp [hs']), List.length_append]
              omega

end Held

/-- Of a valid text, what is let through is valid, and what is withheld goes on to a valid text. -/
theorem onChunk_valid {pending chunk rest : Text}
    (h : ValidUtf8 (pending ++ chunk ++ rest)) :
    ValidUtf8 (Utf8StreamBuffer.onChunk ⟨pending⟩ chunk).1 ∧
      ValidUtf8 (heldBytes (pending ++ chunk) ++ rest) := by
  obtain ⟨v, begun, htext, hv, hbegun, hend⟩ := valid_append h rfl
  have hconserves := Utf8StreamBuffer.onChunk_conserves ⟨pending⟩ chunk
  change _ ++ heldBytes (pending ++ chunk) = pending ++ chunk at hconserves
  have hheld : heldBytes (pending ++ chunk) = begun := by
    rw [htext]
    rcases hend with rfl | ⟨lead, continuations, rfl, hincomplete⟩
    · rw [List.append_nil]
      exact heldBytes_of_valid hv
    · exact heldBytes_of_incomplete hincomplete
  rw [hheld] at hconserves ⊢
  rw [htext] at hconserves
  rw [List.append_cancel_right hconserves]
  exact ⟨hv, hbegun⟩

/-! ### The pieces of a field -/

/-- What a buffer that has been given `before` makes of more chunks. -/
structure Emits (before : Text) (chunks pieces : List Text) (pending : Text) : Prop where
  held : pending = heldBytes (before ++ chunks.flatten)
  released : ∀ piece ∈ pieces, ∃ earlier chunk later, chunks = earlier ++ chunk :: later ∧
    piece = (Utf8StreamBuffer.onChunk ⟨heldBytes (before ++ earlier.flatten)⟩ chunk).1

namespace Emits

variable {before pending pending' : Text} {chunks more pieces others : List Text}

theorem onChunk_pending (before chunk : Text) :
    (Utf8StreamBuffer.onChunk ⟨heldBytes before⟩ chunk).2.pending = heldBytes (before ++ chunk) := by
  obtain ⟨v, hv⟩ : ∃ v, before = v ++ heldBytes before := ⟨_, (List.take_append_drop _ _).symm⟩
  have happend := heldBytes_append (x := v) (y := heldBytes before) (by rw [← hv]) chunk
  rw [← List.append_assoc, ← hv] at happend
  exact happend.symm

theorem nil : Emits before [] [] (heldBytes before) where
  held := by rw [List.flatten_nil, List.append_nil]
  released piece hpiece := absurd hpiece List.not_mem_nil

theorem chunk (before chunk : Text) :
    Emits before [chunk] [(Utf8StreamBuffer.onChunk ⟨heldBytes before⟩ chunk).1]
      (Utf8StreamBuffer.onChunk ⟨heldBytes before⟩ chunk).2.pending where
  held := by rw [onChunk_pending, List.flatten_singleton]
  released piece hpiece := by
    rw [List.mem_singleton] at hpiece
    refine ⟨[], chunk, [], rfl, ?_⟩
    rw [hpiece, List.flatten_nil, List.append_nil]

theorem append (h : Emits before chunks pieces pending)
    (hmore : Emits (before ++ chunks.flatten) more others pending') :
    Emits before (chunks ++ more) (pieces ++ others) pending' where
  held := by rw [hmore.held, List.flatten_append, List.append_assoc]
  released piece hpiece := by
    rcases List.mem_append.1 hpiece with hpiece | hpiece
    · obtain ⟨earlier, chunk, later, rfl, hout⟩ := h.released piece hpiece
      exact ⟨earlier, chunk, later ++ more, by simp, hout⟩
    · obtain ⟨earlier, chunk, later, rfl, hout⟩ := hmore.released piece hpiece
      refine ⟨chunks ++ earlier, chunk, later, by simp, ?_⟩
      rw [hout, List.flatten_append, List.append_assoc]

theorem mono (h : Emits before chunks pieces pending) (hsub : ∀ piece ∈ others, piece ∈ pieces) :
    Emits before chunks others pending where
  held := h.held
  released piece hpiece := h.released piece (hsub piece hpiece)

theorem held_length_le (h : Emits before chunks pieces pending) : pending.length ≤ 3 := by
  rw [h.held]
  exact heldBytes_length_le

theorem valid (h : Emits [] chunks pieces pending) (htotal : ValidUtf8 chunks.flatten) :
    ∀ piece ∈ pieces, ValidUtf8 piece := by
  intro piece hpiece
  obtain ⟨earlier, chunk, later, rfl, rfl⟩ := h.released piece hpiece
  rw [List.flatten_append, List.flatten_cons] at htotal
  have hstart : ValidUtf8 ([] ++ earlier.flatten ++ (chunk ++ later.flatten)) := htotal
  have hgoes := (onChunk_valid hstart).2
  rw [← List.append_assoc] at hgoes
  exact (onChunk_valid hgoes).1

/-- A valid text leaves nothing in the buffer. -/
theorem pending_eq_nil (h : Emits [] chunks pieces pending) (htotal : ValidUtf8 chunks.flatten) :
    pending = [] := by
  rw [h.held]
  exact heldBytes_of_valid htotal

end Emits

inductive ToolCallField where
  | id
  | type
  | functionName
  | functionArguments
  deriving DecidableEq

namespace ToolCallField

def read : ToolCallField → Inference.ToolCallDelta → Text
  | id => Inference.ToolCallDelta.id
  | type => Inference.ToolCallDelta.type
  | functionName => Inference.ToolCallDelta.functionName
  | functionArguments => Inference.ToolCallDelta.functionArguments

def buffer : ToolCallField → ToolCallBuffers → Utf8StreamBuffer
  | id => ToolCallBuffers.id
  | type => ToolCallBuffers.type
  | functionName => ToolCallBuffers.functionName
  | functionArguments => ToolCallBuffers.functionArguments

theorem buffered (field : ToolCallField) :
    InferenceDeltaUtf8Buffer.Buffered field.read field.buffer := by
  cases field with
  | id => exact InferenceDeltaUtf8Buffer.buffered_id
  | type => exact InferenceDeltaUtf8Buffer.buffered_type
  | functionName => exact InferenceDeltaUtf8Buffer.buffered_functionName
  | functionArguments => exact InferenceDeltaUtf8Buffer.buffered_functionArguments

theorem onDelta (field : ToolCallField) (buffers : ToolCallBuffers)
    (call : Inference.ToolCallDelta) :
    field.read (buffers.onDelta call).1 = ((field.buffer buffers).onChunk (field.read call)).1 ∧
      field.buffer (buffers.onDelta call).2 =
        ((field.buffer buffers).onChunk (field.read call)).2 := by
  cases field <;> exact ⟨rfl, rfl⟩

end ToolCallField

/-- The texts of a stream: those of the answer, and for each tool call those of its fields. -/
inductive TextField where
  | content
  | reasoning
  | toolCall (index : ℕ) (field : ToolCallField)
  deriving DecidableEq

namespace TextField

open Inference InferenceDeltaUtf8Buffer

variable {F : Type}

def pieces : TextField → GenerationDelta F → List Text
  | content, delta => [delta.content]
  | reasoning, delta => [delta.reasoningText]
  | toolCall index field, delta => (delta.toolCalls.filter fun f => f.index == index).map field.read

def text (field : TextField) (deltas : List (GenerationDelta F)) : Text :=
  (deltas.flatMap field.pieces).flatten

def pending : TextField → InferenceDeltaUtf8Buffer → Text
  | content, buffer => buffer.content.pending
  | reasoning, buffer => buffer.reasoning.pending
  | toolCall index field, buffer => withheld field.buffer buffer.toolCalls index

theorem text_content (deltas : List (GenerationDelta F)) :
    content.text deltas = deltas.flatMap GenerationDelta.content := by
  induction deltas with
  | nil => rfl
  | cons delta deltas ih => simpa [text, pieces] using ih

theorem text_reasoning (deltas : List (GenerationDelta F)) :
    reasoning.text deltas = deltas.flatMap GenerationDelta.reasoningText := by
  induction deltas with
  | nil => rfl
  | cons delta deltas ih => simpa [text, pieces] using ih

theorem text_toolCall (index : ℕ) (field : ToolCallField) (deltas : List (GenerationDelta F)) :
    (toolCall index field).text deltas =
      textFor field.read (deltas.flatMap GenerationDelta.toolCalls) index := by
  induction deltas with
  | nil => rfl
  | cons delta deltas ih =>
      rw [List.flatMap_cons, textFor_append, ← ih, text, List.flatMap_cons, List.flatten_append,
        ← text]
      rfl

/-- Nothing of a field is lost or added. -/
theorem sanitized_text (field : TextField) (deltas : List (GenerationDelta F)) :
    field.text (sanitized deltas) = field.text deltas := by
  cases field with
  | content => rw [text_content, text_content, sanitized_content]
  | reasoning => rw [text_reasoning, text_reasoning, sanitized_reasoning]
  | toolCall index field => rw [text_toolCall, text_toolCall, sanitized_textFor field.buffered]

theorem onToolCalls_emits (index : ℕ) (field : ToolCallField) (buffers : Map ℕ ToolCallBuffers)
    (calls : List Inference.ToolCallDelta) {before : Text}
    (h : withheld field.buffer buffers index = heldBytes before) :
    Emits before ((calls.filter fun f => f.index == index).map field.read)
      (((onToolCalls buffers calls).1.filter fun f => f.index == index).map field.read)
      (withheld field.buffer (onToolCalls buffers calls).2 index) := by
  induction calls generalizing buffers before with
  | nil =>
      rw [show withheld field.buffer (onToolCalls buffers []).2 index = heldBytes before from h]
      exact .nil
  | cons call calls ih =>
      by_cases hindex : call.index = index
      · obtain ⟨hread, hbuffer⟩ := field.onDelta (buffers.find call.index {}) call
        have hpending : field.buffer (buffers.find call.index {}) = ⟨heldBytes before⟩ := by
          rw [hindex, ← h, withheld]
        have hfirst := Emits.chunk before (field.read call)
        have hnext : withheld field.buffer (buffers.insert call.index
            ((buffers.find call.index {}).onDelta call).2) index =
              heldBytes (before ++ [field.read call].flatten) := by
          rw [withheld, ← hindex, Map.find_insert_self, hbuffer, hpending, hfirst.held]
        have hall := hfirst.append (ih _ hnext)
        rw [List.filter_cons_of_pos (by simpa using hindex)]
        refine hall.mono fun piece hpiece => ?_
        obtain ⟨f, hf, rfl⟩ := List.mem_map.1 hpiece
        obtain ⟨hf, hf'⟩ := List.mem_filter.1 hf
        have hrest {rest : List Inference.ToolCallDelta} (hf : f ∈ rest) : field.read f ∈
            (rest.filter fun f => f.index == index).map field.read :=
          List.mem_map_of_mem (List.mem_filter.2 ⟨hf, hf'⟩)
        rw [onToolCalls] at hf
        dsimp only at hf
        split_ifs at hf with hcarries
        · rcases List.mem_cons.1 hf with rfl | hf
          · rw [hread, hpending]
            exact List.mem_append_left _ (List.mem_singleton_self _)
          · exact List.mem_append_right _ (hrest hf)
        · exact List.mem_append_right _ (hrest hf)
      · have hnext : withheld field.buffer (buffers.insert call.index
            ((buffers.find call.index {}).onDelta call).2) index = heldBytes before := by
          rw [withheld, Map.find_insert_of_ne (Ne.symm hindex), ← h, withheld]
        have hclean : ((buffers.find call.index {}).onDelta call).1.index = call.index := rfl
        have hall := ih _ hnext
        rw [List.filter_cons_of_neg (by simpa using hindex)]
        refine hall.mono fun piece hpiece => ?_
        rw [onToolCalls] at hpiece
        dsimp only at hpiece
        split_ifs at hpiece with hcarries
        · rwa [List.filter_cons_of_neg (by simpa [hclean] using hindex)] at hpiece
        · exact hpiece

theorem onDelta_emits (field : TextField) (buffer : InferenceDeltaUtf8Buffer)
    (delta : GenerationDelta F) {before : Text} (h : field.pending buffer = heldBytes before) :
    Emits before (field.pieces delta) (field.pieces (buffer.onDelta delta).1)
      (field.pending (buffer.onDelta delta).2) := by
  cases field with
  | content =>
      have hbuffer : buffer.content = ⟨heldBytes before⟩ := by rw [← h, pending]
      have hchunk := Emits.chunk before delta.content
      rw [← hbuffer] at hchunk
      exact hchunk
  | reasoning =>
      have hbuffer : buffer.reasoning = ⟨heldBytes before⟩ := by rw [← h, pending]
      have hchunk := Emits.chunk before delta.reasoningText
      rw [← hbuffer] at hchunk
      exact hchunk
  | toolCall index field => exact onToolCalls_emits index field buffer.toolCalls delta.toolCalls h

theorem onDeltas_emits (field : TextField) (buffer : InferenceDeltaUtf8Buffer)
    (deltas : List (GenerationDelta F)) {before : Text}
    (h : field.pending buffer = heldBytes before) :
    Emits before (deltas.flatMap field.pieces) ((onDeltas buffer deltas).1.flatMap field.pieces)
      (field.pending (onDeltas buffer deltas).2) := by
  induction deltas generalizing buffer before with
  | nil =>
      rw [show field.pending (onDeltas buffer ([] : List (GenerationDelta F))).2 =
        heldBytes before from h]
      exact .nil
  | cons delta deltas ih =>
      have hfirst := field.onDelta_emits buffer delta h
      exact hfirst.append (ih _ hfirst.held)

theorem pending_empty (field : TextField) : field.pending {} = heldBytes [] := by
  cases field with
  | content => rfl
  | reasoning => rfl
  | toolCall index field => exact field.buffered.empty

/-- What comes at the end is what is withheld. -/
theorem finish_pieces (field : TextField) (buffer : InferenceDeltaUtf8Buffer) :
    ∀ piece ∈ field.pieces (buffer.finish (F := F)).1, piece = field.pending buffer := by
  intro piece hpiece
  cases field with
  | content => exact List.mem_singleton.1 hpiece
  | reasoning => exact List.mem_singleton.1 hpiece
  | toolCall index field =>
      obtain ⟨f, hf, rfl⟩ := List.mem_map.1 hpiece
      obtain ⟨hf, hindex⟩ := List.mem_filter.1 hf
      obtain ⟨hf, -⟩ := List.mem_filter.1 hf
      obtain ⟨e, he, rfl⟩ := List.mem_map.1 hf
      have hmem : e ∈ (ordered buffer.toolCalls).filter fun e => e.1 == index :=
        List.mem_filter.2 ⟨he, hindex⟩
      rw [ordered_filter] at hmem
      obtain ⟨b, hb, rfl⟩ := List.mem_map.1 hmem
      rw [field.buffered.finish, pending, withheld, Map.find, Option.mem_toList.1 hb]
      rfl

end TextField

/-! ### The entries of the probabilities -/

section Logprobs

open Inference InferenceDeltaUtf8Buffer

variable {F : Type}

/-- The content of a delta is let through as it came: what was withheld before it comes first, what
is withheld after it is missing at the end, and the two agree. -/
def PassesUnchanged (before content : Text) : Prop :=
  heldBytes before ++ content = content ++ heldBytes (before ++ content)

instance (before content : Text) : Decidable (PassesUnchanged before content) :=
  inferInstanceAs (Decidable (_ = _))

/-- The entries that come through with each delta, after `before`. -/
def keptLogprobs (before : Text) : List (GenerationDelta F) → List (List (Inference.TokenLogprob F))
  | [] => []
  | delta :: deltas =>
      (if PassesUnchanged before delta.content then delta.logprobs else []) ::
        keptLogprobs (before ++ delta.content) deltas

theorem onChunk_eq_iff (before content : Text) :
    (Utf8StreamBuffer.onChunk ⟨heldBytes before⟩ content).1 = content ↔
      PassesUnchanged before content := by
  have hconserves := Utf8StreamBuffer.onChunk_conserves ⟨heldBytes before⟩ content
  rw [Emits.onChunk_pending] at hconserves
  rw [PassesUnchanged, ← hconserves, List.append_left_inj]

theorem onDeltas_logprobs (buffer : InferenceDeltaUtf8Buffer) (deltas : List (GenerationDelta F))
    {before : Text} (h : buffer.content.pending = heldBytes before) :
    (onDeltas buffer deltas).1.map GenerationDelta.logprobs = keptLogprobs before deltas := by
  induction deltas generalizing buffer before with
  | nil => rfl
  | cons delta deltas ih =>
      have hbuffer : buffer.content = ⟨heldBytes before⟩ := by rw [← h]
      have hnext : (buffer.onDelta delta).2.content.pending =
          heldBytes (before ++ delta.content) := by
        rw [← Emits.onChunk_pending, ← hbuffer]
        rfl
      have hfirst : (buffer.onDelta delta).1.logprobs =
          if (Utf8StreamBuffer.onChunk ⟨heldBytes before⟩ delta.content).1 = delta.content then
            delta.logprobs else [] := by
        rw [← hbuffer]
        rfl
      rw [onDeltas, List.map_cons, hfirst, ih _ hnext, keptLogprobs]
      simp only [onChunk_eq_iff]

/-- Each delta comes out with its own entries or without any, and the rest at the end with none. -/
theorem sanitized_logprobs (deltas : List (GenerationDelta F)) :
    (sanitized deltas).map GenerationDelta.logprobs = keptLogprobs [] deltas ++ [[]] := by
  rw [sanitized, List.map_append, onDeltas_logprobs {} deltas (TextField.pending_empty .content)]
  rfl

theorem passesUnchanged_of_complete {before content : Text} (hbefore : heldBytes before = [])
    (hafter : heldBytes (before ++ content) = []) : PassesUnchanged before content := by
  rw [PassesUnchanged, hbefore, hafter, List.nil_append, List.append_nil]

/-- Where every delta ends with a character, no entry is lost. -/
theorem keptLogprobs_of_complete (deltas : List (GenerationDelta F)) (before : Text)
    (h : ∀ earlier, earlier <+: deltas →
      heldBytes (before ++ earlier.flatMap GenerationDelta.content) = []) :
    keptLogprobs before deltas = deltas.map GenerationDelta.logprobs := by
  induction deltas generalizing before with
  | nil => rfl
  | cons delta deltas ih =>
      have hstart := h [] List.nil_prefix
      have hfirst := h [delta] (List.prefix_append [delta] deltas)
      rw [List.flatMap_nil, List.append_nil] at hstart
      rw [List.flatMap_singleton] at hfirst
      rw [keptLogprobs, if_pos (passesUnchanged_of_complete hstart hfirst), List.map_cons,
        ih (before ++ delta.content)]
      intro earlier hearlier
      have hmore := h (delta :: earlier) (by rwa [List.prefix_cons_inj])
      rwa [List.flatMap_cons, ← List.append_assoc] at hmore

end Logprobs

/-! ### The whole stream -/

section Stream

open Inference InferenceDeltaUtf8Buffer

variable {F : Type}

structure BuffersKeep (deltas : List (GenerationDelta F)) : Prop where
  text : ∀ field : TextField, field.text (sanitized deltas) = field.text deltas
  valid : ∀ field : TextField, ValidUtf8 (field.text deltas) →
    ∀ delta ∈ sanitized deltas, ∀ piece ∈ field.pieces delta, ValidUtf8 piece
  held : ∀ field : TextField, ∀ earlier, earlier <+: deltas →
    (field.pending (onDeltas {} earlier).2).length ≤ 3
  logprobs : (sanitized deltas).map GenerationDelta.logprobs = keptLogprobs [] deltas ++ [[]]
  complete : (∀ earlier, earlier <+: deltas → heldBytes (TextField.content.text earlier) = []) →
    (sanitized deltas).flatMap GenerationDelta.logprobs =
      deltas.flatMap GenerationDelta.logprobs

theorem buffersKeep (deltas : List (GenerationDelta F)) : BuffersKeep deltas := by
  have hemits (field : TextField) (deltas : List (GenerationDelta F)) :=
    field.onDeltas_emits {} deltas field.pending_empty
  refine ⟨fun field => field.sanitized_text deltas, ?_, ?_, sanitized_logprobs deltas, ?_⟩
  · intro field htext delta hdelta piece hpiece
    rw [sanitized] at hdelta
    rcases List.mem_append.1 hdelta with hdelta | hdelta
    · exact (hemits field deltas).valid htext piece (List.mem_flatMap.2 ⟨delta, hdelta, hpiece⟩)
    · rw [List.mem_singleton.1 hdelta] at hpiece
      -- A valid text leaves nothing for the end.
      have hempty := (hemits field deltas).pending_eq_nil htext
      rw [field.finish_pieces _ piece hpiece, hempty]
      exact .nil
  · exact fun field earlier _ => (hemits field earlier).held_length_le
  · intro hcomplete
    have hkept := keptLogprobs_of_complete deltas [] fun earlier hearlier => by
      rw [List.nil_append, ← TextField.text_content]
      exact hcomplete earlier hearlier
    rw [List.flatMap_def, sanitized_logprobs, hkept, List.flatMap_def, List.flatten_append]
    simp

/-- A token that is one byte of a character, and a token with the rest of it. -/
def splitCharacter : List (GenerationDelta ℕ) :=
  [{ content := ['\xe4'], logprobs := [⟨['\xe4'], 1, ['\xe4'], []⟩] },
    { content := ['\xbd', '\xa0'], logprobs := [⟨['\xbd', '\xa0'], 2, ['\xbd', '\xa0'], []⟩] }]

/-- The whole character comes through, and neither of its two entries. -/
theorem splitCharacter_losesLogprobs :
    ∃ delta ∈ splitCharacter, ∃ entry ∈ delta.logprobs,
      ∀ out ∈ sanitized splitCharacter, entry ∉ out.logprobs := by
  refine ⟨_, List.mem_cons_self, _, List.mem_cons_self, fun out hout hentry => ?_⟩
  have hmem : out.logprobs ∈ keptLogprobs [] splitCharacter ++ [[]] := by
    rw [← sanitized_logprobs]
    exact List.mem_map_of_mem hout
  have hnone : ∀ entries ∈ keptLogprobs [] splitCharacter ++ [[]], entries = [] := by decide
  rw [hnone _ hmem] at hentry
  cases hentry

end Stream

end InferDeck.Gateway
