import InferDeck.FiniteMap
import InferDeck.Inference

/-!
# The UTF-8 buffers of a stream

Each field of the deltas has a buffer of its own that withholds the bytes of a character that is
not complete yet. A character of a `Text` is one byte. What a buffer has let through, and what it
still withholds, is what it was given.
-/

namespace InferDeck.Gateway

open Inference

def isUtf8Continuation (byte : Char) : Bool := decide (0x80 ≤ byte.toNat ∧ byte.toNat < 0xc0)

def utf8SequenceLength (lead : Char) : ℕ :=
  if 0xc2 ≤ lead.toNat ∧ lead.toNat ≤ 0xdf then 2
  else if 0xe0 ≤ lead.toNat ∧ lead.toNat ≤ 0xef then 3
  else if 0xf0 ≤ lead.toNat ∧ lead.toNat ≤ 0xf4 then 4
  else 0

/-- Where the incomplete character at the end starts, or the length where there is none. -/
def incompleteUtf8Suffix (value : Text) : ℕ :=
  let continuations := ((value.reverse.take 3).takeWhile isUtf8Continuation).length
  match value[value.length - continuations - 1]? with
  | none => value.length
  | some lead =>
      if value.length - continuations = 0 then value.length
      else if continuations + 1 < utf8SequenceLength lead then value.length - continuations - 1
      else value.length

structure Utf8StreamBuffer where
  pending : Text := []
  deriving DecidableEq

namespace Utf8StreamBuffer

def onChunk (buffer : Utf8StreamBuffer) (chunk : Text) : Text × Utf8StreamBuffer :=
  let pending := buffer.pending ++ chunk
  let suffix := incompleteUtf8Suffix pending
  (pending.take suffix, ⟨pending.drop suffix⟩)

def finish (buffer : Utf8StreamBuffer) : Text × Utf8StreamBuffer := (buffer.pending, {})

theorem onChunk_conserves (buffer : Utf8StreamBuffer) (chunk : Text) :
    (buffer.onChunk chunk).1 ++ (buffer.onChunk chunk).2.pending = buffer.pending ++ chunk :=
  List.take_append_drop _ _

end Utf8StreamBuffer

structure ToolCallBuffers where
  id : Utf8StreamBuffer := {}
  type : Utf8StreamBuffer := {}
  functionName : Utf8StreamBuffer := {}
  functionArguments : Utf8StreamBuffer := {}
  deriving DecidableEq

namespace ToolCallBuffers

def onDelta (buffers : ToolCallBuffers) (call : Inference.ToolCallDelta) : Inference.ToolCallDelta × ToolCallBuffers :=
  let id := buffers.id.onChunk call.id
  let type := buffers.type.onChunk call.type
  let functionName := buffers.functionName.onChunk call.functionName
  let functionArguments := buffers.functionArguments.onChunk call.functionArguments
  ({ index := call.index, id := id.1, type := type.1, functionName := functionName.1
     functionArguments := functionArguments.1 },
    { id := id.2, type := type.2, functionName := functionName.2
      functionArguments := functionArguments.2 })

def finish (buffers : ToolCallBuffers) (index : ℕ) : Inference.ToolCallDelta × ToolCallBuffers :=
  ({ index, id := buffers.id.finish.1, type := buffers.type.finish.1
     functionName := buffers.functionName.finish.1
     functionArguments := buffers.functionArguments.finish.1 }, {})

end ToolCallBuffers

structure InferenceDeltaUtf8Buffer where
  content : Utf8StreamBuffer := {}
  reasoning : Utf8StreamBuffer := {}
  toolCalls : Map ℕ ToolCallBuffers := ∅

/-- A fragment with something in it. -/
def carries (call : Inference.ToolCallDelta) : Bool :=
  !call.id.isEmpty || !call.type.isEmpty || !call.functionName.isEmpty ||
    !call.functionArguments.isEmpty

namespace InferenceDeltaUtf8Buffer

variable {F : Type}

/-- The fragments that go through, and the buffers of the tool calls after them. -/
def onToolCalls (buffers : Map ℕ ToolCallBuffers) :
    List Inference.ToolCallDelta → List Inference.ToolCallDelta × Map ℕ ToolCallBuffers
  | [] => ([], buffers)
  | call :: calls =>
      let clean := (buffers.find call.index {}).onDelta call
      let rest := onToolCalls (buffers.insert call.index clean.2) calls
      (if carries clean.1 then clean.1 :: rest.1 else rest.1, rest.2)

def onDelta (buffer : InferenceDeltaUtf8Buffer) (input : GenerationDelta F) :
    GenerationDelta F × InferenceDeltaUtf8Buffer :=
  let content := buffer.content.onChunk input.content
  let reasoning := buffer.reasoning.onChunk input.reasoningText
  let toolCalls := onToolCalls buffer.toolCalls input.toolCalls
  ({ content := content.1, reasoningText := reasoning.1, toolCalls := toolCalls.1
     logprobs := if content.1 = input.content then input.logprobs else [] },
    { content := content.2, reasoning := reasoning.2, toolCalls := toolCalls.2 })

def ordered (buffers : Map ℕ ToolCallBuffers) : List (ℕ × ToolCallBuffers) :=
  (buffers.entries.map fun e => (e.1, e.2)).mergeSort fun left right => left.1 ≤ right.1

def finish (buffer : InferenceDeltaUtf8Buffer) : GenerationDelta F × InferenceDeltaUtf8Buffer :=
  let calls := (ordered buffer.toolCalls).map fun e => (e.2.finish e.1).1
  ({ content := buffer.content.finish.1, reasoningText := buffer.reasoning.finish.1
     toolCalls := calls.filter carries },
    {})

/-- What the buffers let through of a list of deltas, and the buffers then. -/
def onDeltas (buffer : InferenceDeltaUtf8Buffer) :
    List (GenerationDelta F) → List (GenerationDelta F) × InferenceDeltaUtf8Buffer
  | [] => ([], buffer)
  | delta :: deltas =>
      let rest := onDeltas (buffer.onDelta delta).2 deltas
      ((buffer.onDelta delta).1 :: rest.1, rest.2)

/-- All that the buffers let through of a stream, with the rest at its end. -/
def sanitized (deltas : List (GenerationDelta F)) : List (GenerationDelta F) :=
  (onDeltas {} deltas).1 ++ [(onDeltas {} deltas).2.finish.1]

theorem onDeltas_append (buffer : InferenceDeltaUtf8Buffer) (deltas : List (GenerationDelta F))
    (delta : GenerationDelta F) :
    onDeltas buffer (deltas ++ [delta]) =
      ((onDeltas buffer deltas).1 ++ [((onDeltas buffer deltas).2.onDelta delta).1],
        ((onDeltas buffer deltas).2.onDelta delta).2) := by
  induction deltas generalizing buffer with
  | nil => rfl
  | cons first deltas ih => simp only [List.cons_append, onDeltas, ih]

theorem onDeltas_content (buffer : InferenceDeltaUtf8Buffer) (deltas : List (GenerationDelta F)) :
    (onDeltas buffer deltas).1.flatMap GenerationDelta.content ++
        (onDeltas buffer deltas).2.content.pending =
      buffer.content.pending ++ deltas.flatMap GenerationDelta.content := by
  induction deltas generalizing buffer with
  | nil => simp [onDeltas]
  | cons delta deltas ih =>
      have hchunk := buffer.content.onChunk_conserves delta.content
      rw [onDeltas, List.flatMap_cons, List.flatMap_cons, List.append_assoc, ih,
        ← List.append_assoc, ← List.append_assoc, ← hchunk]
      rfl

theorem onDeltas_reasoning (buffer : InferenceDeltaUtf8Buffer)
    (deltas : List (GenerationDelta F)) :
    (onDeltas buffer deltas).1.flatMap GenerationDelta.reasoningText ++
        (onDeltas buffer deltas).2.reasoning.pending =
      buffer.reasoning.pending ++ deltas.flatMap GenerationDelta.reasoningText := by
  induction deltas generalizing buffer with
  | nil => simp [onDeltas]
  | cons delta deltas ih =>
      have hchunk := buffer.reasoning.onChunk_conserves delta.reasoningText
      rw [onDeltas, List.flatMap_cons, List.flatMap_cons, List.append_assoc, ih,
        ← List.append_assoc, ← List.append_assoc, ← hchunk]
      rfl

/-- No content is lost or added. -/
theorem sanitized_content (deltas : List (GenerationDelta F)) :
    (sanitized deltas).flatMap GenerationDelta.content =
      deltas.flatMap GenerationDelta.content := by
  rw [sanitized, List.flatMap_append, List.flatMap_singleton]
  exact onDeltas_content {} deltas

theorem sanitized_reasoning (deltas : List (GenerationDelta F)) :
    (sanitized deltas).flatMap GenerationDelta.reasoningText =
      deltas.flatMap GenerationDelta.reasoningText := by
  rw [sanitized, List.flatMap_append, List.flatMap_singleton]
  exact onDeltas_reasoning {} deltas

/-! ### The fields of the tool calls -/

def textFor (field : Inference.ToolCallDelta → Text) (fragments : List Inference.ToolCallDelta) (index : ℕ) : Text :=
  (fragments.filter fun f => f.index == index).flatMap field

theorem textFor_append (field : Inference.ToolCallDelta → Text) (fragments more : List Inference.ToolCallDelta)
    (index : ℕ) :
    textFor field (fragments ++ more) index =
      textFor field fragments index ++ textFor field more index := by
  rw [textFor, List.filter_append, List.flatMap_append, textFor, textFor]

theorem textFor_singleton (field : Inference.ToolCallDelta → Text) (f : Inference.ToolCallDelta) (index : ℕ) :
    textFor field [f] index = if f.index = index then field f else [] := by
  by_cases h : f.index = index <;> simp [textFor, h]

/-- A field goes through its buffer, and is empty where a fragment carries nothing. -/
structure Buffered (field : Inference.ToolCallDelta → Text) (buffer : ToolCallBuffers → Utf8StreamBuffer) :
    Prop where
  onDelta : ∀ buffers call, field (buffers.onDelta call).1 ++
    (buffer (buffers.onDelta call).2).pending = (buffer buffers).pending ++ field call
  finish : ∀ buffers index, field (buffers.finish index).1 = (buffer buffers).pending
  carries : ∀ call, carries call = false → field call = []
  empty : (buffer {}).pending = []

theorem buffered_functionName : Buffered Inference.ToolCallDelta.functionName ToolCallBuffers.functionName where
  onDelta buffers call := buffers.functionName.onChunk_conserves call.functionName
  finish _ _ := rfl
  carries call h := by
    simp only [Gateway.carries, Bool.or_eq_false_iff, Bool.not_eq_false', List.isEmpty_iff] at h
    exact h.1.2
  empty := rfl

theorem buffered_functionArguments :
    Buffered Inference.ToolCallDelta.functionArguments ToolCallBuffers.functionArguments where
  onDelta buffers call := buffers.functionArguments.onChunk_conserves call.functionArguments
  finish _ _ := rfl
  carries call h := by
    simp only [Gateway.carries, Bool.or_eq_false_iff, Bool.not_eq_false', List.isEmpty_iff] at h
    exact h.2
  empty := rfl

theorem buffered_id : Buffered Inference.ToolCallDelta.id ToolCallBuffers.id where
  onDelta buffers call := buffers.id.onChunk_conserves call.id
  finish _ _ := rfl
  carries call h := by
    simp only [Gateway.carries, Bool.or_eq_false_iff, Bool.not_eq_false', List.isEmpty_iff] at h
    exact h.1.1.1
  empty := rfl

theorem buffered_type : Buffered Inference.ToolCallDelta.type ToolCallBuffers.type where
  onDelta buffers call := buffers.type.onChunk_conserves call.type
  finish _ _ := rfl
  carries call h := by
    simp only [Gateway.carries, Bool.or_eq_false_iff, Bool.not_eq_false', List.isEmpty_iff] at h
    exact h.1.1.2
  empty := rfl

section Buffered

variable {field : Inference.ToolCallDelta → Text} {buffer : ToolCallBuffers → Utf8StreamBuffer}

def withheld (buffer : ToolCallBuffers → Utf8StreamBuffer) (buffers : Map ℕ ToolCallBuffers)
    (index : ℕ) : Text :=
  (buffer (buffers.find index {})).pending

theorem textFor_carried (h : Buffered field buffer) (call : Inference.ToolCallDelta)
    (rest : List Inference.ToolCallDelta) (index : ℕ) :
    textFor field (if carries call then call :: rest else rest) index =
      (if call.index = index then field call else []) ++ textFor field rest index := by
  by_cases hcarries : carries call = true
  · rw [if_pos hcarries, ← textFor_singleton, ← textFor_append]
    rfl
  · rw [if_neg hcarries, h.carries call (Bool.eq_false_iff.2 hcarries), ite_self, List.nil_append]

theorem onToolCalls_textFor (h : Buffered field buffer) (buffers : Map ℕ ToolCallBuffers)
    (calls : List Inference.ToolCallDelta) (index : ℕ) :
    textFor field (onToolCalls buffers calls).1 index ++
        withheld buffer (onToolCalls buffers calls).2 index =
      withheld buffer buffers index ++ textFor field calls index := by
  induction calls generalizing buffers with
  | nil => simp [onToolCalls, textFor]
  | cons call calls ih =>
      have hclean : ((buffers.find call.index {}).onDelta call).1.index = call.index := rfl
      rw [onToolCalls, textFor_carried h, hclean, List.append_assoc, ih, ← List.singleton_append,
        textFor_append, textFor_singleton, ← List.append_assoc, ← List.append_assoc]
      congr 1
      by_cases hindex : call.index = index
      · rw [if_pos hindex, if_pos hindex, ← hindex, withheld, Map.find_insert_self, h.onDelta,
          withheld]
      · rw [if_neg hindex, if_neg hindex, withheld, Map.find_insert_of_ne (Ne.symm hindex),
          List.nil_append, List.append_nil, withheld]

theorem onDeltas_textFor (h : Buffered field buffer) (b : InferenceDeltaUtf8Buffer)
    (deltas : List (GenerationDelta F)) (index : ℕ) :
    textFor field ((onDeltas b deltas).1.flatMap GenerationDelta.toolCalls) index ++
        withheld buffer (onDeltas b deltas).2.toolCalls index =
      withheld buffer b.toolCalls index ++
        textFor field (deltas.flatMap GenerationDelta.toolCalls) index := by
  induction deltas generalizing b with
  | nil => simp [onDeltas, textFor]
  | cons delta deltas ih =>
      have hcalls := onToolCalls_textFor h b.toolCalls delta.toolCalls index
      rw [onDeltas, List.flatMap_cons, List.flatMap_cons, textFor_append, textFor_append,
        List.append_assoc, ih, ← List.append_assoc, ← List.append_assoc]
      exact congrArg (· ++ _) hcalls

theorem ordered_filter (buffers : Map ℕ ToolCallBuffers) (index : ℕ) :
    ((ordered buffers).filter fun e => e.1 == index) =
      (buffers.lookup index).toList.map fun b => (index, b) := by
  have hentries : ((buffers.entries.map fun e => (e.1, e.2)).filter fun e => e.1 == index) =
      (buffers.lookup index).toList.map fun b => (index, b) := by
    have hkey := congrArg (List.map fun e : Sigma fun _ : ℕ => ToolCallBuffers => (e.1, e.2))
      (buffers.filter_key index)
    rw [List.map_map] at hkey
    rw [List.filter_map]
    exact hkey
  have hperm : ((ordered buffers).filter fun e => e.1 == index).Perm
      ((buffers.lookup index).toList.map fun b => (index, b)) := by
    rw [← hentries]
    exact (List.mergeSort_perm _ _).filter _
  cases hlookup : buffers.lookup index with
  | none =>
      rw [hlookup] at hperm
      exact hperm.eq_nil
  | some b =>
      rw [hlookup] at hperm
      exact List.perm_singleton.1 hperm

/-- What is withheld comes at the end, once for each tool call. -/
theorem finish_textFor (h : Buffered field buffer) (b : InferenceDeltaUtf8Buffer) (index : ℕ) :
    textFor field (b.finish (F := F)).1.toolCalls index = withheld buffer b.toolCalls index := by
  have hcarried (calls : List Inference.ToolCallDelta) :
      textFor field (calls.filter carries) index = textFor field calls index := by
    induction calls with
    | nil => rfl
    | cons call calls ih =>
        have hcons := textFor_append field [call] calls index
        rw [List.singleton_append] at hcons
        rw [List.filter_cons, textFor_carried h, ih, hcons, textFor_singleton]
  have hfield : textFor field (b.finish (F := F)).1.toolCalls index =
      ((ordered b.toolCalls).filter fun e => e.1 == index).flatMap fun e => (buffer e.2).pending := by
    change textFor field (((ordered b.toolCalls).map fun e => (e.2.finish e.1).1).filter carries)
      index = _
    rw [hcarried, textFor, List.filter_map, List.flatMap_map]
    exact List.flatMap_congr fun e _ => h.finish e.2 e.1
  rw [hfield, ordered_filter, withheld, Map.find]
  cases b.toolCalls.lookup index with
  | none => exact h.empty.symm
  | some buffers => simp

/-- No tool call loses or gains text. -/
theorem sanitized_textFor (h : Buffered field buffer) (deltas : List (GenerationDelta F))
    (index : ℕ) :
    textFor field ((sanitized deltas).flatMap GenerationDelta.toolCalls) index =
      textFor field (deltas.flatMap GenerationDelta.toolCalls) index := by
  have hall := onDeltas_textFor h {} deltas index
  have hstart : withheld buffer ({} : InferenceDeltaUtf8Buffer).toolCalls index = [] := h.empty
  rw [hstart, List.nil_append] at hall
  rw [sanitized, List.flatMap_append, List.flatMap_singleton, textFor_append, finish_textFor h]
  exact hall

end Buffered

theorem textFor_ne_nil_iff {field : Inference.ToolCallDelta → Text} {fragments : List Inference.ToolCallDelta}
    {index : ℕ} :
    textFor field fragments index ≠ [] ↔ ∃ f ∈ fragments, f.index = index ∧ field f ≠ [] := by
  rw [textFor, Ne, List.flatMap_eq_nil_iff]
  simp

/-- A tool call has a fragment that carries something where one of its fields has a text. -/
theorem exists_carries_iff {fragments : List Inference.ToolCallDelta} {index : ℕ} :
    (∃ f ∈ fragments, f.index = index ∧ carries f = true) ↔
      textFor Inference.ToolCallDelta.id fragments index ≠ [] ∨
        textFor Inference.ToolCallDelta.type fragments index ≠ [] ∨
          textFor Inference.ToolCallDelta.functionName fragments index ≠ [] ∨
            textFor Inference.ToolCallDelta.functionArguments fragments index ≠ [] := by
  simp only [textFor_ne_nil_iff, carries, Bool.or_eq_true, Bool.not_eq_true', or_assoc,
    ← exists_or, ← and_or_left, List.isEmpty_eq_false_iff]

theorem onToolCalls_carries (buffers : Map ℕ ToolCallBuffers) (calls : List Inference.ToolCallDelta) :
    ∀ f ∈ (onToolCalls buffers calls).1, carries f = true := by
  induction calls generalizing buffers with
  | nil => exact fun _ hf => absurd hf List.not_mem_nil
  | cons call calls ih =>
      intro f hf
      rw [onToolCalls] at hf
      dsimp only at hf
      by_cases hcarries : carries ((buffers.find call.index {}).onDelta call).1 = true
      · rw [if_pos hcarries] at hf
        rcases List.mem_cons.1 hf with rfl | hf
        · exact hcarries
        · exact ih _ f hf
      · rw [if_neg hcarries] at hf
        exact ih _ f hf

/-- Nothing empty comes through. -/
theorem sanitized_carries (deltas : List (GenerationDelta F)) :
    ∀ f ∈ (sanitized deltas).flatMap GenerationDelta.toolCalls, carries f = true := by
  have hall (b : InferenceDeltaUtf8Buffer) (deltas : List (GenerationDelta F)) :
      ∀ f ∈ (onDeltas b deltas).1.flatMap GenerationDelta.toolCalls, carries f = true := by
    induction deltas generalizing b with
    | nil => exact fun _ hf => absurd hf List.not_mem_nil
    | cons delta deltas ih =>
        intro f hf
        rw [onDeltas, List.flatMap_cons] at hf
        rcases List.mem_append.1 hf with hf | hf
        · exact onToolCalls_carries b.toolCalls delta.toolCalls f hf
        · exact ih _ f hf
  intro f hf
  rw [sanitized, List.flatMap_append, List.flatMap_singleton] at hf
  rcases List.mem_append.1 hf with hf | hf
  · exact hall {} deltas f hf
  · exact (List.mem_filter.1 hf).2

/-- The tool calls that come through are those with a fragment that carries something. -/
theorem exists_sanitized_iff (deltas : List (GenerationDelta F)) (index : ℕ) :
    (∃ f ∈ (sanitized deltas).flatMap GenerationDelta.toolCalls, f.index = index) ↔
      ∃ f ∈ deltas.flatMap GenerationDelta.toolCalls, f.index = index ∧ carries f = true := by
  rw [exists_carries_iff, ← sanitized_textFor buffered_id, ← sanitized_textFor buffered_type,
    ← sanitized_textFor buffered_functionName, ← sanitized_textFor buffered_functionArguments,
    ← exists_carries_iff]
  constructor
  · rintro ⟨f, hf, hindex⟩
    exact ⟨f, hf, hindex, sanitized_carries deltas f hf⟩
  · rintro ⟨f, hf, hindex, -⟩
    exact ⟨f, hf, hindex⟩

end InferenceDeltaUtf8Buffer

end InferDeck.Gateway
