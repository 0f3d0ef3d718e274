import InferDeck.ResponsesStream

/-!
# What the Responses stream promises

A monitor reads the events one after the other. It keeps a slot for each announced item, with what
its deltas have brought so far, and takes only what the protocol allows: the next output index for a
new item, deltas and closing events for an announced item that is open, a closing text that is the
text so far, a closed item with the announced ids, a completed response whose output is the closed
items, and nothing after a terminal event.

The stream keeps to it, for every sequence of deltas and wherever the sink stops, exactly where no
late fragment changes the id that a tool call was announced with.
-/

namespace InferDeck.Gateway.Responses

open Inference Foundation SinkWriter

variable {F : Type}

inductive SlotKind where
  | reasoning
  | message
  | functionCall (callId : Text)
  deriving DecidableEq

structure Slot (F : Type) where
  id : Text
  kind : SlotKind
  text : Text := []
  closed : Option (Item F) := none
  deriving DecidableEq

structure Monitor (F : Type) where
  slots : List (Slot F) := []
  ended : Bool := false
  deriving DecidableEq

/-- The slot of an item that is announced, which has nothing in it yet. -/
def announced : Item F → Option (Slot F)
  | .reasoning id .inProgress [] => some { id, kind := .reasoning }
  | .message id .inProgress [] => some { id, kind := .message }
  | .functionCall id .inProgress callId _ [] => some { id, kind := .functionCall callId }
  | _ => none

/-- The closed item of the slot: its id, its call id and its text are those of the slot. -/
def closes (slot : Slot F) : Item F → Bool
  | .reasoning id .completed [.reasoningText text] =>
      decide (slot.kind = .reasoning ∧ id = slot.id ∧ text = slot.text)
  | .message id .completed [.outputText text _] =>
      decide (slot.kind = .message ∧ id = slot.id ∧ text = slot.text)
  | .functionCall id .completed callId _ arguments =>
      decide (slot.kind = .functionCall callId ∧ id = slot.id ∧ arguments = slot.text)
  | _ => false

def Part.text : Part F → Text
  | .outputText text _ => text
  | .reasoningText text => text

def SlotKind.isCall : SlotKind → Bool
  | .functionCall _ => true
  | _ => false

namespace Monitor

def update (m : Monitor F) (index : ℕ) (f : Slot F → Option (Slot F)) : Option (Monitor F) :=
  (m.slots[index]?.bind fun slot => if slot.closed.isNone then f slot else none).map fun slot =>
    { m with slots := m.slots.set index slot }

def extend (m : Monitor F) (index : ℕ) (id : Text) (kind : SlotKind → Bool) (delta : Text) :
    Option (Monitor F) :=
  m.update index fun slot =>
    if slot.id = id ∧ kind slot.kind = true then some { slot with text := slot.text ++ delta }
    else none

/-- The slot is open and has the id and the text. -/
def check (m : Monitor F) (index : ℕ) (id text : Text) : Option (Monitor F) :=
  m.update index fun slot => if slot.id = id ∧ slot.text = text then some slot else none

def close (m : Monitor F) (index : ℕ) (item : Item F) : Option (Monitor F) :=
  m.update index fun slot =>
    if closes slot item then some { slot with closed := some item } else none

def acceptBody [DecidableEq F] (m : Monitor F) : EventBody F → Option (Monitor F)
  | .created _ | .inProgress _ => some m
  | .outputItemAdded index item =>
      if index = m.slots.length then
        (announced item).map fun slot => { m with slots := m.slots ++ [slot] }
      else none
  | .contentPartAdded id index _ part => m.check index id part.text
  | .reasoningTextDelta id index _ delta => m.extend index id (· == .reasoning) delta
  | .outputTextDelta id index _ delta _ => m.extend index id (· == .message) delta
  | .functionCallArgumentsDelta id index delta => m.extend index id SlotKind.isCall delta
  | .reasoningTextDone id index _ text => m.check index id text
  | .contentPartDone id index _ part => m.check index id part.text
  | .outputTextDone id index _ text _ => m.check index id text
  | .functionCallArgumentsDone id index _ arguments => m.check index id arguments
  | .outputItemDone index item => m.close index item
  | .completed response =>
      if m.slots.map Slot.closed = response.output.map some then some { m with ended := true }
      else none
  | .failed _ => some { m with ended := true }

def accept [DecidableEq F] (m : Monitor F) (e : Event F) : Option (Monitor F) :=
  if m.ended then none else m.acceptBody e.body

end Monitor

/-- The sequence numbers count the events, and the monitor takes them all. -/
structure WellFormed [DecidableEq F] (es : List (Event F)) : Prop where
  numbered : es.map Event.sequenceNumber = List.range es.length
  followed : ∃ m, Follows Monitor.accept {} es m

def idsFor (fragments : List Inference.ToolCallDelta) (index : ℕ) : List Text :=
  (fragments.filter fun f => f.index == index).map Inference.ToolCallDelta.id

/-- The call id that a tool call is announced with: the one in its first fragment, or one that is
made for it. -/
def announcedId (draws : Draws) (fragments : List Inference.ToolCallDelta) (index : ℕ) : Text :=
  match idsFor fragments index with
  | [] => []
  | [] :: _ => makeId "call_" (draws.call index)
  | id :: _ => id

def lateId (fragments : List Inference.ToolCallDelta) (index : ℕ) : Option Text :=
  ((idsFor fragments index).tail.filter fun id => !id.isEmpty).getLast?

/-- No late fragment leaves a tool call with another id. -/
def CallIdsStay (draws : Draws) (fragments : List Inference.ToolCallDelta) : Prop :=
  ∀ index late, lateId fragments index = some late → late = announcedId draws fragments index

section Ids

variable {draws : Draws} {fragments : List Inference.ToolCallDelta} {f : Inference.ToolCallDelta} {index : ℕ}

theorem idsFor_append_self :
    idsFor (fragments ++ [f]) f.index = idsFor fragments f.index ++ [f.id] := by
  simp [idsFor]

theorem idsFor_append_of_ne (h : f.index ≠ index) :
    idsFor (fragments ++ [f]) index = idsFor fragments index := by
  simp [idsFor, h]

theorem announcedId_append_of_ne (h : f.index ≠ index) :
    announcedId draws (fragments ++ [f]) index = announcedId draws fragments index := by
  rw [announcedId, idsFor_append_of_ne h, announcedId]

theorem lateId_append_of_ne (h : f.index ≠ index) :
    lateId (fragments ++ [f]) index = lateId fragments index := by
  rw [lateId, idsFor_append_of_ne h, lateId]

theorem announcedId_first (h : idsFor fragments f.index = []) :
    announcedId draws (fragments ++ [f]) f.index =
      if f.id = [] then makeId "call_" (draws.call f.index) else f.id := by
  rw [announcedId, idsFor_append_self, h, List.nil_append]
  cases hid : f.id <;> rfl

theorem lateId_first (h : idsFor fragments f.index = []) :
    lateId (fragments ++ [f]) f.index = none := by
  rw [lateId, idsFor_append_self, h]
  rfl

theorem announcedId_later (h : idsFor fragments f.index ≠ []) :
    announcedId draws (fragments ++ [f]) f.index = announcedId draws fragments f.index := by
  rw [announcedId, idsFor_append_self, announcedId]
  cases hids : idsFor fragments f.index with
  | nil => exact absurd hids h
  | cons id ids => cases id <;> rfl

theorem lateId_later (h : idsFor fragments f.index ≠ []) :
    lateId (fragments ++ [f]) f.index =
      if f.id = [] then lateId fragments f.index else some f.id := by
  rw [lateId, idsFor_append_self, List.tail_append_of_ne_nil h, List.filter_append, lateId]
  by_cases hid : f.id = []
  · simp [hid]
  · have hsome : (!f.id.isEmpty) = true := by simpa using hid
    rw [if_neg hid, List.filter_singleton, hsome]
    exact List.getLast?_concat

end Ids

/-! ## The stream and its monitor -/

/-- The monitor has a slot for each item of the stream and no others. -/
structure Agrees (draws : Draws) (fragments : List Inference.ToolCallDelta) (s : ResponsesStreamState F)
    (m : Monitor F) : Prop where
  drawn : s.draws = draws
  running : s.completed = false
  open_ : m.ended = false
  count : m.slots.length = s.nextOutputIndex
  reasoning : ∀ index, s.reasoningIndex = some index →
    m.slots[index]? = some { id := s.reasoningId, kind := .reasoning, text := s.reasoning }
  message : ∀ index, s.messageIndex = some index →
    m.slots[index]? = some { id := s.messageId, kind := .message, text := s.text }
  noReasoning : s.reasoningIndex = none → s.reasoning = []
  noMessage : s.messageIndex = none → s.text = []
  tool : ∀ k tool, s.tools.lookup k = some tool →
    m.slots[tool.outputIndex]? = some
      { id := tool.itemId, kind := .functionCall (announcedId draws fragments k)
        text := tool.arguments }
  callId : ∀ k tool, s.tools.lookup k = some tool →
    tool.callId = (lateId fragments k).getD (announcedId draws fragments k)
  seen : ∀ k, s.tools.lookup k = none ↔ idsFor fragments k = []
  injective : ∀ k k' tool tool', s.tools.lookup k = some tool → s.tools.lookup k' = some tool' →
    tool.outputIndex = tool'.outputIndex → k = k'
  covered : ∀ index < m.slots.length, s.reasoningIndex = some index ∨
    s.messageIndex = some index ∨ ∃ k tool, s.tools.lookup k = some tool ∧ tool.outputIndex = index

section Simulation

variable {draws : Draws} {fragments : List Inference.ToolCallDelta}
  {s : ResponsesStreamState F} {m : Monitor F}

/-- What `emit` counts is not seen by the monitor. -/
theorem Agrees.count_sequence (h : Agrees draws fragments s m) (sequence : ℕ) :
    Agrees draws fragments { s with sequence } m :=
  ⟨h.drawn, h.running, h.open_, h.count, h.reasoning, h.message, h.noReasoning, h.noMessage, h.tool,
    h.callId, h.seen, h.injective, h.covered⟩

theorem check_eq_some {index : ℕ} {slot : Slot F} (h : m.slots[index]? = some slot)
    (hopen : slot.closed = none) : m.check index slot.id slot.text = some m := by
  rw [Monitor.check, Monitor.update, h, Option.bind_some, hopen, Option.isNone_none, if_pos rfl,
    if_pos ⟨rfl, rfl⟩, Option.map_some, Option.some.injEq]
  have hset : m.slots.set index slot = m.slots := by
    obtain ⟨hlt, rfl⟩ := List.getElem?_eq_some_iff.1 h
    exact List.set_getElem_self hlt
  rw [hset]

theorem extend_eq_some {index : ℕ} {slot : Slot F} {kind : SlotKind → Bool} {delta : Text}
    (h : m.slots[index]? = some slot) (hopen : slot.closed = none) (hkind : kind slot.kind = true) :
    m.extend index slot.id kind delta =
      some { m with slots := m.slots.set index { slot with text := slot.text ++ delta } } := by
  rw [Monitor.extend, Monitor.update, h, Option.bind_some, hopen, Option.isNone_none, if_pos rfl,
    if_pos ⟨rfl, hkind⟩, Option.map_some]

/-- Slots of different kinds are at different indices. -/
theorem ne_of_kind {i j : ℕ} {a b : Slot F} (hi : m.slots[i]? = some a) (hj : m.slots[j]? = some b)
    (hkind : a.kind ≠ b.kind) : i ≠ j := by
  rintro rfl
  rw [hi, Option.some.injEq] at hj
  exact hkind (congrArg Slot.kind hj)

theorem lt_of_slot {i : ℕ} {a : Slot F} (h : m.slots[i]? = some a) : i < m.slots.length :=
  (List.getElem?_eq_some_iff.1 h).1

/-- The slots before a new one are as they were. -/
theorem slot_append {i : ℕ} {a new : Slot F} (h : m.slots[i]? = some a) :
    (m.slots ++ [new])[i]? = some a := by
  rw [List.getElem?_append_left (lt_of_slot h), h]

theorem Agrees.announceMessage (h : Agrees draws fragments s m) (hnone : s.messageIndex = none)
    (id : Text) (sequence : ℕ) :
    Agrees draws fragments
      { s with
        messageIndex := some s.nextOutputIndex, nextOutputIndex := s.nextOutputIndex + 1
        messageId := id, sequence }
      { m with slots := m.slots ++ [{ id, kind := .message }] } where
  drawn := h.drawn
  running := h.running
  open_ := h.open_
  count := by simp [h.count]
  reasoning index hindex := slot_append (h.reasoning index hindex)
  message index hindex := by
    rw [Option.some.injEq] at hindex
    rw [← hindex, ← h.count, List.getElem?_concat_length, h.noMessage hnone]
  noReasoning := h.noReasoning
  noMessage hindex := by cases hindex
  tool k tool htool := slot_append (h.tool k tool htool)
  callId := h.callId
  seen := h.seen
  injective := h.injective
  covered index hindex := by
    rw [List.length_append, List.length_singleton, Nat.lt_succ_iff_lt_or_eq] at hindex
    rcases hindex with hlt | heq
    · rcases h.covered index hlt with hr | hm | ht
      · exact .inl hr
      · rw [hnone] at hm
        cases hm
      · exact .inr (.inr ht)
    · exact .inr (.inl (by rw [heq, h.count]))

theorem Agrees.announceReasoning (h : Agrees draws fragments s m)
    (hnone : s.reasoningIndex = none) (id : Text) (sequence : ℕ) :
    Agrees draws fragments
      { s with
        reasoningIndex := some s.nextOutputIndex, nextOutputIndex := s.nextOutputIndex + 1
        reasoningId := id, sequence }
      { m with slots := m.slots ++ [{ id, kind := .reasoning }] } where
  drawn := h.drawn
  running := h.running
  open_ := h.open_
  count := by simp [h.count]
  reasoning index hindex := by
    rw [Option.some.injEq] at hindex
    rw [← hindex, ← h.count, List.getElem?_concat_length, h.noReasoning hnone]
  message index hindex := slot_append (h.message index hindex)
  noReasoning hindex := by cases hindex
  noMessage := h.noMessage
  tool k tool htool := slot_append (h.tool k tool htool)
  callId := h.callId
  seen := h.seen
  injective := h.injective
  covered index hindex := by
    rw [List.length_append, List.length_singleton, Nat.lt_succ_iff_lt_or_eq] at hindex
    rcases hindex with hlt | heq
    · rcases h.covered index hlt with hr | hm | ht
      · rw [hnone] at hr
        cases hr
      · exact .inr (.inl hm)
      · exact .inr (.inr ht)
    · exact .inl (by rw [heq, h.count])

theorem Agrees.extendReasoning (h : Agrees draws fragments s m) {index : ℕ}
    (hindex : s.reasoningIndex = some index) (delta : Text) (sequence : ℕ) :
    Agrees draws fragments { s with reasoning := s.reasoning ++ delta, sequence }
      { m with
        slots := m.slots.set index ⟨s.reasoningId, .reasoning, s.reasoning ++ delta, none⟩ } where
  drawn := h.drawn
  running := h.running
  open_ := h.open_
  count := by simp [h.count]
  reasoning i hi := by
    rw [hindex, Option.some.injEq] at hi
    rw [← hi, List.getElem?_set_self (lt_of_slot (h.reasoning index hindex))]
  message i hi := by
    rw [List.getElem?_set_ne (ne_of_kind (h.reasoning index hindex) (h.message i hi) (by simp))]
    exact h.message i hi
  noReasoning hnone := by
    rw [hindex] at hnone
    cases hnone
  noMessage := h.noMessage
  tool k tool htool := by
    rw [List.getElem?_set_ne (ne_of_kind (h.reasoning index hindex) (h.tool k tool htool) (by simp))]
    exact h.tool k tool htool
  callId := h.callId
  seen := h.seen
  injective := h.injective
  covered i hi := h.covered i (by simpa using hi)

theorem Agrees.extendMessage (h : Agrees draws fragments s m) {index : ℕ}
    (hindex : s.messageIndex = some index) (delta : Text) (logprobs : List (Inference.TokenLogprob F))
    (sequence : ℕ) :
    Agrees draws fragments { s with text := s.text ++ delta, logprobs, sequence }
      { m with slots := m.slots.set index ⟨s.messageId, .message, s.text ++ delta, none⟩ } where
  drawn := h.drawn
  running := h.running
  open_ := h.open_
  count := by simp [h.count]
  reasoning i hi := by
    rw [List.getElem?_set_ne (ne_of_kind (h.message index hindex) (h.reasoning i hi) (by simp))]
    exact h.reasoning i hi
  message i hi := by
    rw [hindex, Option.some.injEq] at hi
    rw [← hi, List.getElem?_set_self (lt_of_slot (h.message index hindex))]
  noReasoning := h.noReasoning
  noMessage hnone := by
    rw [hindex] at hnone
    cases hnone
  tool k tool htool := by
    rw [List.getElem?_set_ne (ne_of_kind (h.message index hindex) (h.tool k tool htool) (by simp))]
    exact h.tool k tool htool
  callId := h.callId
  seen := h.seen
  injective := h.injective
  covered i hi := h.covered i (by simpa using hi)

/-- A fragment announces a tool call. -/
theorem Agrees.announceTool (h : Agrees draws fragments s m) {source : Inference.ToolCallDelta}
    {tool : ToolStreamState} (hnew : s.tools.lookup source.index = none)
    (hindex : tool.outputIndex = s.nextOutputIndex) (harguments : tool.arguments = [])
    (hcall : tool.callId =
      if source.id = [] then makeId "call_" (draws.call source.index) else source.id)
    (sequence : ℕ) :
    Agrees draws (fragments ++ [source])
      { setTool s source.index tool with nextOutputIndex := s.nextOutputIndex + 1, sequence }
      { m with slots := m.slots ++ [{ id := tool.itemId, kind := .functionCall tool.callId }] } := by
  have hids := (h.seen source.index).1 hnew
  have hlookup {k : ℕ} {t : ToolStreamState}
      (ht : (s.tools.insert source.index tool).lookup k = some t) :
      k = source.index ∧ tool = t ∨ k ≠ source.index ∧ s.tools.lookup k = some t :=
    Map.lookup_insert_eq_some_iff.1 ht
  have hold {k : ℕ} {t : ToolStreamState} (ht : s.tools.lookup k = some t) :
      t.outputIndex < m.slots.length := lt_of_slot (h.tool k t ht)
  refine ⟨h.drawn, h.running, h.open_, by simp [h.count], fun i hi => slot_append (h.reasoning i hi),
    fun i hi => slot_append (h.message i hi), h.noReasoning, h.noMessage, fun k t ht => ?_,
    fun k t ht => ?_, fun k => ?_, fun k k' t t' ht ht' heq => ?_, fun i hi => ?_⟩
  · rcases hlookup ht with ⟨rfl, rfl⟩ | ⟨hne, ht⟩
    · rw [hindex, ← h.count, List.getElem?_concat_length, announcedId_first hids, ← hcall,
        harguments]
    · rw [announcedId_append_of_ne (Ne.symm hne)]
      exact slot_append (h.tool k t ht)
  · rcases hlookup ht with ⟨rfl, rfl⟩ | ⟨hne, ht⟩
    · rw [lateId_first hids, announcedId_first hids, hcall, Option.getD_none]
    · rw [lateId_append_of_ne (Ne.symm hne), announcedId_append_of_ne (Ne.symm hne)]
      exact h.callId k t ht
  · by_cases hk : k = source.index
    · subst hk
      simp [setTool, idsFor_append_self]
    · rw [idsFor_append_of_ne (Ne.symm hk), ← h.seen k]
      simp only [setTool, AList.lookup_insert_ne hk]
  · rcases hlookup ht with ⟨rfl, rfl⟩ | ⟨hne, hold₁⟩ <;>
      rcases hlookup ht' with ⟨rfl, heq'⟩ | ⟨hne', hold₂⟩
    · rfl
    · exact absurd (heq.symm.trans hindex) (h.count ▸ (hold hold₂).ne)
    · subst heq'
      exact absurd (heq.trans hindex) (h.count ▸ (hold hold₁).ne)
    · exact h.injective k k' t t' hold₁ hold₂ heq
  · rw [List.length_append, List.length_singleton, Nat.lt_succ_iff_lt_or_eq] at hi
    rcases hi with hlt | rfl
    · refine (h.covered i hlt).imp_right fun hrest => hrest.imp_right fun ⟨k, t, ht, hti⟩ => ?_
      refine ⟨k, t, Map.lookup_insert_eq_some_iff.2 (.inr ⟨?_, ht⟩), hti⟩
      rintro rfl
      rw [hnew] at ht
      cases ht
    · exact .inr (.inr ⟨source.index, tool, AList.lookup_insert _, hindex.trans h.count.symm⟩)

/-- A later fragment of a tool call changes its call id and its name. -/
theorem Agrees.updateTool (h : Agrees draws fragments s m) {source : Inference.ToolCallDelta}
    {tool : ToolStreamState} (htool : s.tools.lookup source.index = some tool) :
    Agrees draws (fragments ++ [source])
      (setTool s source.index (Responses.updateTool source tool)) m := by
  have hids : idsFor fragments source.index ≠ [] := fun hnil => by
    rw [(h.seen source.index).2 hnil] at htool
    cases htool
  have hlookup {k : ℕ} {t : ToolStreamState}
      (ht : (s.tools.insert source.index (Responses.updateTool source tool)).lookup k = some t) :
      k = source.index ∧ Responses.updateTool source tool = t ∨
        k ≠ source.index ∧ s.tools.lookup k = some t := Map.lookup_insert_eq_some_iff.1 ht
  have hindices {k : ℕ} {t : ToolStreamState}
      (ht : (s.tools.insert source.index (Responses.updateTool source tool)).lookup k = some t) :
      ∃ t', s.tools.lookup k = some t' ∧ t'.outputIndex = t.outputIndex := by
    rcases hlookup ht with ⟨rfl, rfl⟩ | ⟨-, ht⟩
    · exact ⟨tool, htool, rfl⟩
    · exact ⟨t, ht, rfl⟩
  refine ⟨h.drawn, h.running, h.open_, h.count, h.reasoning, h.message, h.noReasoning, h.noMessage,
    fun k t ht => ?_, fun k t ht => ?_, fun k => ?_, fun k k' t t' ht ht' heq => ?_,
    fun i hi => ?_⟩
  · rcases hlookup ht with ⟨rfl, rfl⟩ | ⟨hne, ht⟩
    · rw [announcedId_later hids]
      exact h.tool _ tool htool
    · rw [announcedId_append_of_ne (Ne.symm hne)]
      exact h.tool k t ht
  · rcases hlookup ht with ⟨rfl, rfl⟩ | ⟨hne, ht⟩
    · rw [lateId_later hids, announcedId_later hids, Responses.updateTool]
      by_cases hid : source.id = []
      · rw [if_pos hid, if_pos hid]
        exact h.callId _ tool htool
      · rw [if_neg hid, if_neg hid, Option.getD_some]
    · rw [lateId_append_of_ne (Ne.symm hne), announcedId_append_of_ne (Ne.symm hne)]
      exact h.callId k t ht
  · by_cases hk : k = source.index
    · subst hk
      simp [setTool, idsFor_append_self]
    · rw [idsFor_append_of_ne (Ne.symm hk), ← h.seen k]
      simp only [setTool, AList.lookup_insert_ne hk]
  · obtain ⟨a, ha, haindex⟩ := hindices ht
    obtain ⟨b, hb, hbindex⟩ := hindices ht'
    exact h.injective k k' a b ha hb (haindex.trans (heq.trans hbindex.symm))
  · refine (h.covered i hi).imp_right fun hrest => hrest.imp_right fun ⟨k, t, ht, hti⟩ => ?_
    by_cases hk : k = source.index
    · subst hk
      rw [htool, Option.some.injEq] at ht
      exact ⟨_, _, AList.lookup_insert _, ht ▸ hti⟩
    · exact ⟨k, t, Map.lookup_insert_eq_some_iff.2 (.inr ⟨hk, ht⟩), hti⟩

/-- A fragment brings arguments. -/
theorem Agrees.extendTool (h : Agrees draws fragments s m) {k : ℕ} {tool : ToolStreamState}
    (htool : s.tools.lookup k = some tool) (delta : Text) (sequence : ℕ) :
    Agrees draws fragments
      { setTool s k { tool with arguments := tool.arguments ++ delta } with sequence }
      { m with
        slots := m.slots.set tool.outputIndex
          ⟨tool.itemId, .functionCall (announcedId draws fragments k), tool.arguments ++ delta,
            none⟩ } := by
  have hslot := h.tool k tool htool
  have hlookup {k' : ℕ} {t : ToolStreamState}
      (ht : (s.tools.insert k { tool with arguments := tool.arguments ++ delta }).lookup k' =
        some t) :
      k' = k ∧ { tool with arguments := tool.arguments ++ delta } = t ∨
        k' ≠ k ∧ s.tools.lookup k' = some t := Map.lookup_insert_eq_some_iff.1 ht
  have hindices {k' : ℕ} {t : ToolStreamState}
      (ht : (s.tools.insert k { tool with arguments := tool.arguments ++ delta }).lookup k' =
        some t) :
      ∃ t', s.tools.lookup k' = some t' ∧ t'.outputIndex = t.outputIndex ∧ t'.callId = t.callId := by
    rcases hlookup ht with ⟨rfl, rfl⟩ | ⟨-, ht⟩
    · exact ⟨tool, htool, rfl, rfl⟩
    · exact ⟨t, ht, rfl, rfl⟩
  refine ⟨h.drawn, h.running, h.open_, by simp [h.count, setTool], fun i hi => ?_, fun i hi => ?_,
    h.noReasoning, h.noMessage, fun k' t ht => ?_, fun k' t ht => ?_, fun k' => ?_,
    fun k₁ k₂ t t' ht ht' heq => ?_, fun i hi => ?_⟩
  · rw [List.getElem?_set_ne (ne_of_kind hslot (h.reasoning i hi) (by simp))]
    exact h.reasoning i hi
  · rw [List.getElem?_set_ne (ne_of_kind hslot (h.message i hi) (by simp))]
    exact h.message i hi
  · rcases hlookup ht with ⟨rfl, rfl⟩ | ⟨hne, ht⟩
    · rw [List.getElem?_set_self (lt_of_slot hslot)]
    · have hother : tool.outputIndex ≠ t.outputIndex := fun heq =>
        hne (h.injective k k' tool t htool ht heq).symm
      rw [List.getElem?_set_ne hother]
      exact h.tool k' t ht
  · obtain ⟨a, ha, -, hacall⟩ := hindices ht
    exact hacall ▸ h.callId k' a ha
  · rw [← h.seen k']
    by_cases hk : k' = k
    · subst hk
      simp [setTool, htool]
    · simp only [setTool, AList.lookup_insert_ne hk]
  · obtain ⟨a, ha, haindex, -⟩ := hindices ht
    obtain ⟨b, hb, hbindex, -⟩ := hindices ht'
    exact h.injective k₁ k₂ a b ha hb (haindex.trans (heq.trans hbindex.symm))
  · refine (h.covered i (by simpa using hi)).imp_right fun hrest =>
      hrest.imp_right fun ⟨k', t, ht, hti⟩ => ?_
    by_cases hk : k' = k
    · subst hk
      rw [htool, Option.some.injEq] at ht
      exact ⟨_, _, AList.lookup_insert _, ht ▸ hti⟩
    · exact ⟨k', t, Map.lookup_insert_eq_some_iff.2 (.inr ⟨hk, ht⟩), hti⟩

theorem tool_eq {k : ℕ} {t : ToolStreamState} (h : s.tools.lookup k = some t) : tool s k = t := by
  rw [tool, Map.find, h, Option.getD_some]

variable [DecidableEq F]

theorem triple_emit {P Q : ResponsesStreamState F → Monitor F → Prop}
    {b : ResponsesStreamState F → EventBody F}
    (h : ∀ s m, P s m → m.ended = false ∧
      ∃ m', m.acceptBody (b s) = some m' ∧ Q { s with sequence := s.sequence + 1 } m') :
    Triple Monitor.accept P (emit b) Q := by
  intro s m hs
  obtain ⟨hopen, m', haccept, hpost⟩ := h s m hs
  refine ⟨m', .single ?_, hpost⟩
  rw [Monitor.accept, hopen]
  exact haccept

/-- An event that leaves the monitor where it is. -/
theorem triple_emit_check {body : ResponsesStreamState F → EventBody F}
    (h : ∀ s m, Agrees draws fragments s m → m.acceptBody (body s) = some m) :
    Triple Monitor.accept (Agrees draws fragments) (emit body) (Agrees draws fragments) :=
  triple_emit fun s m hs => ⟨hs.open_, m, h s m hs, hs.count_sequence _⟩


theorem accept_added {index : ℕ} {item : Item F} {slot : Slot F} (hindex : m.slots.length = index)
    (hslot : announced item = some slot) :
    m.acceptBody (.outputItemAdded index item) = some { m with slots := m.slots ++ [slot] } := by
  rw [Monitor.acceptBody, if_pos hindex.symm, hslot, Option.map_some]

theorem triple_startResponseStream :
    Triple Monitor.accept (Agrees draws fragments) (startResponseStream (F := F))
      (Agrees draws fragments) := by
  refine Triple.read fun s₀ => ?_
  by_cases hstarted : s₀.started = true
  · rw [if_pos hstarted]
    exact Triple.done.conseq (fun _ _ h => h.2) fun _ _ h => h
  · rw [if_neg hstarted]
    have hmodify : Triple Monitor.accept (fun s m => s = s₀ ∧ Agrees draws fragments s m)
        (.modify fun s => { s with started := true }) (Agrees draws fragments) :=
      Triple.modify fun s m h => ⟨h.2.drawn, h.2.running, h.2.open_, h.2.count, h.2.reasoning,
        h.2.message, h.2.noReasoning, h.2.noMessage, h.2.tool, h.2.callId, h.2.seen, h.2.injective,
        h.2.covered⟩
    exact hmodify.seq ((triple_emit_check fun _ _ _ => rfl).seq (triple_emit_check fun _ _ _ => rfl))

theorem triple_ensureMessageStream :
    Triple Monitor.accept (Agrees draws fragments) (ensureMessageStream (F := F))
      (fun s m => Agrees draws fragments s m ∧ ∃ index, s.messageIndex = some index) := by
  refine Triple.read fun s₀ => ?_
  by_cases hsome : s₀.messageIndex.isSome = true
  · rw [if_pos hsome]
    refine Triple.done.conseq (fun s m h => ?_) fun _ _ h => h
    exact ⟨h.2, Option.isSome_iff_exists.1 (h.1 ▸ hsome)⟩
  · rw [if_neg hsome]
    have hnone : s₀.messageIndex = none := Option.not_isSome_iff_eq_none.1 hsome
    refine Triple.seq (Triple.modify (Q := fun s m => ∃ s₁, s₁.messageIndex = none ∧
      Agrees draws fragments s₁ m ∧ s = { s₁ with
        messageIndex := some s₁.nextOutputIndex, nextOutputIndex := s₁.nextOutputIndex + 1
        messageId := makeId "msg_" s₁.draws.message }) fun s m h => ?_)
      (Triple.seq (triple_emit (Q := fun s m => Agrees draws fragments s m ∧
        ∃ index, s.messageIndex = some index ∧ s.text = []) ?_) (triple_emit ?_))
    · exact ⟨s, h.1 ▸ hnone, h.2, rfl⟩
    · rintro s m ⟨s₁, hnone, h, rfl⟩
      refine ⟨h.open_, _, accept_added h.count rfl, h.announceMessage hnone _ _, _, rfl, ?_⟩
      exact h.noMessage hnone
    · rintro s m ⟨h, index, hindex, htext⟩
      refine ⟨h.open_, m, ?_, h.count_sequence _, index, hindex⟩
      have hcheck := check_eq_some (h.message index hindex) rfl
      rw [htext] at hcheck
      rw [hindex]
      exact hcheck

theorem triple_ensureReasoningStream :
    Triple Monitor.accept (Agrees draws fragments) (ensureReasoningStream (F := F))
      (fun s m => Agrees draws fragments s m ∧ ∃ index, s.reasoningIndex = some index) := by
  refine Triple.read fun s₀ => ?_
  by_cases hsome : s₀.reasoningIndex.isSome = true
  · rw [if_pos hsome]
    refine Triple.done.conseq (fun s m h => ?_) fun _ _ h => h
    exact ⟨h.2, Option.isSome_iff_exists.1 (h.1 ▸ hsome)⟩
  · rw [if_neg hsome]
    have hnone : s₀.reasoningIndex = none := Option.not_isSome_iff_eq_none.1 hsome
    refine Triple.seq (Triple.modify (Q := fun s m => ∃ s₁, s₁.reasoningIndex = none ∧
      Agrees draws fragments s₁ m ∧ s = { s₁ with
        reasoningIndex := some s₁.nextOutputIndex, nextOutputIndex := s₁.nextOutputIndex + 1
        reasoningId := makeId "rs_" s₁.draws.reasoning }) fun s m h => ?_)
      (Triple.seq (triple_emit (Q := fun s m => Agrees draws fragments s m ∧
        ∃ index, s.reasoningIndex = some index ∧ s.reasoning = []) ?_) (triple_emit ?_))
    · exact ⟨s, h.1 ▸ hnone, h.2, rfl⟩
    · rintro s m ⟨s₁, hnone, h, rfl⟩
      refine ⟨h.open_, _, accept_added h.count rfl, h.announceReasoning hnone _ _, _, rfl, ?_⟩
      exact h.noReasoning hnone
    · rintro s m ⟨h, index, hindex, htext⟩
      refine ⟨h.open_, m, ?_, h.count_sequence _, index, hindex⟩
      have hcheck := check_eq_some (h.reasoning index hindex) rfl
      rw [htext] at hcheck
      rw [hindex]
      exact hcheck

theorem triple_applyReasoning (delta : Text) :
    Triple Monitor.accept (Agrees draws fragments) (applyReasoning (F := F) delta)
      (Agrees draws fragments) := by
  rw [applyReasoning]
  by_cases hempty : delta = []
  · rw [if_pos hempty]
    exact Triple.done
  · rw [if_neg hempty]
    refine triple_ensureReasoningStream.seq (Triple.seq (Triple.modify (Q := fun s m => ∃ s₁ index,
      s₁.reasoningIndex = some index ∧ Agrees draws fragments s₁ m ∧
        s = { s₁ with reasoning := s₁.reasoning ++ delta }) fun s m h => ?_) (triple_emit ?_))
    · obtain ⟨h, index, hindex⟩ := h
      exact ⟨s, index, hindex, h, rfl⟩
    · rintro s m ⟨s₁, index, hindex, h, rfl⟩
      refine ⟨h.open_, _, ?_, h.extendReasoning hindex delta _⟩
      rw [hindex]
      change m.extend index s₁.reasoningId (· == .reasoning) delta = _
      exact extend_eq_some (h.reasoning index hindex) rfl rfl

theorem triple_applyContent (delta : Text) (logprobs : List (Inference.TokenLogprob F)) :
    Triple Monitor.accept (Agrees draws fragments) (applyContent delta logprobs)
      (Agrees draws fragments) := by
  rw [applyContent]
  by_cases hempty : delta = []
  · rw [if_pos hempty]
    exact Triple.done
  · rw [if_neg hempty]
    refine triple_ensureMessageStream.seq (Triple.seq (Triple.modify (Q := fun s m => ∃ s₁ index,
      s₁.messageIndex = some index ∧ Agrees draws fragments s₁ m ∧
        s = { s₁ with text := s₁.text ++ delta, logprobs := s₁.logprobs ++ logprobs })
      fun s m h => ?_) (triple_emit ?_))
    · obtain ⟨h, index, hindex⟩ := h
      exact ⟨s, index, hindex, h, rfl⟩
    · rintro s m ⟨s₁, index, hindex, h, rfl⟩
      refine ⟨h.open_, _, ?_, h.extendMessage hindex delta _ _⟩
      rw [hindex]
      change m.extend index s₁.messageId (· == .message) delta = _
      exact extend_eq_some (h.message index hindex) rfl rfl

theorem triple_applyArguments (source : Inference.ToolCallDelta) :
    Triple Monitor.accept
      (fun s m => Agrees draws fragments s m ∧ ∃ t, s.tools.lookup source.index = some t)
      (applyArguments (F := F) source) (Agrees draws fragments) := by
  rw [applyArguments]
  by_cases hempty : source.functionArguments = []
  · rw [if_pos hempty]
    exact Triple.done.conseq (fun _ _ h => h.1) fun _ _ h => h
  · rw [if_neg hempty]
    refine Triple.seq (Triple.modify (Q := fun s m => ∃ s₁ t,
      s₁.tools.lookup source.index = some t ∧ Agrees draws fragments s₁ m ∧
        s = setTool s₁ source.index { t with arguments := t.arguments ++ source.functionArguments })
      fun s m h => ?_) (triple_emit ?_)
    · obtain ⟨h, t, ht⟩ := h
      exact ⟨s, t, ht, h, by rw [tool_eq ht]⟩
    · rintro s m ⟨s₁, t, ht, h, rfl⟩
      refine ⟨h.open_, _, ?_, h.extendTool ht source.functionArguments _⟩
      rw [tool_eq (t := { t with arguments := t.arguments ++ source.functionArguments })
        (AList.lookup_insert _)]
      exact extend_eq_some (h.tool _ t ht) rfl rfl

/-- One more fragment of a tool call. -/
theorem triple_applyTool (source : Inference.ToolCallDelta) :
    Triple Monitor.accept (Agrees draws fragments) (applyTool (F := F) source)
      (Agrees draws (fragments ++ [source])) := by
  refine Triple.seq (Triple.read fun s₀ => ?_) (triple_applyArguments source)
  by_cases hknown : s₀.tools.contains source.index = true
  · rw [if_pos hknown]
    obtain ⟨t, ht⟩ := Option.isSome_iff_exists.1 hknown
    refine Triple.modify fun s m h => ?_
    obtain ⟨rfl, h⟩ := h
    rw [tool_eq ht]
    exact ⟨h.updateTool ht, _, AList.lookup_insert _⟩
  · rw [if_neg hknown]
    have hnew : s₀.tools.lookup source.index = none := Option.not_isSome_iff_eq_none.1 hknown
    refine Triple.seq (Triple.modify (Q := fun s m => ∃ s₁ t, Agrees draws fragments s₁ m ∧
      s₁.tools.lookup source.index = none ∧ t.outputIndex = s₁.nextOutputIndex ∧
      t.arguments = [] ∧ t.callId = (if source.id = [] then makeId "call_" (draws.call source.index)
        else source.id) ∧
      s = { setTool s₁ source.index t with nextOutputIndex := s₁.nextOutputIndex + 1 })
      fun s m h => ?_) (triple_emit ?_)
    · obtain ⟨rfl, h⟩ := h
      exact ⟨s, _, h, hnew, rfl, rfl, by rw [h.drawn], rfl⟩
    · rintro s m ⟨s₁, t, h, hnew, hindex, harguments, hcall, rfl⟩
      refine ⟨h.open_, _, ?_, h.announceTool hnew hindex harguments hcall _, t,
        AList.lookup_insert _⟩
      rw [tool_eq (t := t) (AList.lookup_insert _)]
      exact accept_added (h.count.trans hindex.symm) rfl

theorem triple_applySanitizedGenerationDelta (delta : GenerationDelta F) :
    Triple Monitor.accept (Agrees draws fragments) (applySanitizedGenerationDelta delta)
      (Agrees draws (fragments ++ delta.toolCalls)) := by
  refine (triple_applyReasoning _).seq ((triple_applyContent _ _).seq ?_)
  refine (Triple.forEach (I := fun done => Agrees draws (fragments ++ done))
    fun done x rest _ => ?_).conseq (fun _ _ h => by rwa [List.append_nil]) fun _ _ h => h
  rw [← List.append_assoc]
  exact triple_applyTool x

/-! ## The end of the stream -/

theorem triple_closeReasoning :
    Triple Monitor.accept (Agrees draws fragments) (closeReasoning (F := F))
      (Agrees draws fragments) := by
  refine Triple.read fun s₀ => ?_
  cases hindex : s₀.reasoningIndex with
  | none => exact Triple.done.conseq (fun _ _ h => h.2) fun _ _ h => h
  | some index =>
      refine Triple.seq (Q := fun s m => s.reasoningIndex = some index ∧ Agrees draws fragments s m)
        (triple_emit fun s m h => ?_) (triple_emit fun s m h => ?_)
      · have hs : s.reasoningIndex = some index := h.1 ▸ hindex
        exact ⟨h.2.open_, m, check_eq_some (h.2.reasoning index hs) rfl, hs, h.2.count_sequence _⟩
      · exact ⟨h.2.open_, m, check_eq_some (h.2.reasoning index h.1) rfl, h.2.count_sequence _⟩

theorem triple_closeMessage :
    Triple Monitor.accept (Agrees draws fragments) (closeMessage (F := F))
      (Agrees draws fragments) := by
  refine Triple.read fun s₀ => ?_
  cases hindex : s₀.messageIndex with
  | none => exact Triple.done.conseq (fun _ _ h => h.2) fun _ _ h => h
  | some index =>
      refine Triple.seq (Q := fun s m => s.messageIndex = some index ∧ Agrees draws fragments s m)
        (triple_emit fun s m h => ?_) (triple_emit fun s m h => ?_)
      · have hs : s.messageIndex = some index := h.1 ▸ hindex
        exact ⟨h.2.open_, m, check_eq_some (h.2.message index hs) rfl, hs, h.2.count_sequence _⟩
      · exact ⟨h.2.open_, m, check_eq_some (h.2.message index h.1) rfl, h.2.count_sequence _⟩

end Simulation

section Output

variable {draws : Draws} {fragments : List Inference.ToolCallDelta} {s : ResponsesStreamState F}
  {m : Monitor F}

/-- The item of an entry closes the slot at its index, where the call ids stay. -/
theorem Agrees.indexed_closes (h : Agrees draws fragments s m)
    (hstay : CallIdsStay draws fragments) {e : ℕ × Item F} (he : e ∈ indexedOutput s) :
    ∃ slot, m.slots[e.1]? = some slot ∧ slot.closed = none ∧ closes slot e.2 = true := by
  rw [indexedOutput, List.mem_append, List.mem_append] at he
  rcases he with he | he | he
  · obtain ⟨index, hindex, rfl⟩ := List.mem_map.1 he
    exact ⟨_, h.reasoning index (Option.mem_toList.1 hindex), rfl, by simp [closes]⟩
  · obtain ⟨index, hindex, rfl⟩ := List.mem_map.1 he
    exact ⟨_, h.message index (Option.mem_toList.1 hindex), rfl, by simp [closes, outputTextPart]⟩
  · obtain ⟨t, ht, rfl⟩ := List.mem_map.1 he
    obtain ⟨⟨k, t⟩, hmem, rfl⟩ := List.mem_map.1 ht
    have hlookup := Map.mem_entries_iff.1 hmem
    refine ⟨_, h.tool k t hlookup, rfl, ?_⟩
    have hcall : t.callId = announcedId draws fragments k := by
      rw [h.callId k t hlookup]
      cases hlate : lateId fragments k with
      | none => rfl
      | some late => exact hstay k late hlate
    simp [closes, toolItem, hcall]

theorem Agrees.indexed_nodup (h : Agrees draws fragments s m) :
    ((indexedOutput s).map Prod.fst).Nodup := by
  have htools : (s.tools.values.map ToolStreamState.outputIndex).Nodup := by
    rw [Map.values, List.map_map]
    refine List.Nodup.map_on (fun a ha b hb heq => ?_) s.tools.nodupKeys.nodup
    obtain ⟨k, t⟩ := a
    obtain ⟨k', t'⟩ := b
    have ht := Map.mem_entries_iff.1 ha
    have ht' := Map.mem_entries_iff.1 hb
    obtain rfl := h.injective k k' t t' ht ht' heq
    rw [ht, Option.some.injEq] at ht'
    rw [ht']
  have hmessage : ∀ a ∈ s.messageIndex.toList,
      ∀ b ∈ s.tools.values.map ToolStreamState.outputIndex, a ≠ b := by
    intro a ha b hb
    obtain ⟨t, ht, rfl⟩ := List.mem_map.1 hb
    obtain ⟨⟨k, t⟩, hmem, rfl⟩ := List.mem_map.1 ht
    exact ne_of_kind (h.message a (Option.mem_toList.1 ha)) (h.tool k t (Map.mem_entries_iff.1 hmem))
      (by simp)
  have hreasoning : ∀ a ∈ s.reasoningIndex.toList, ∀ b ∈ s.messageIndex.toList ++
      s.tools.values.map ToolStreamState.outputIndex, a ≠ b := by
    intro a ha b hb
    have hslot := h.reasoning a (Option.mem_toList.1 ha)
    rcases List.mem_append.1 hb with hb | hb
    · exact ne_of_kind hslot (h.message b (Option.mem_toList.1 hb)) (by simp)
    · obtain ⟨t, ht, rfl⟩ := List.mem_map.1 hb
      obtain ⟨⟨k, t⟩, hmem, rfl⟩ := List.mem_map.1 ht
      exact ne_of_kind hslot (h.tool k t (Map.mem_entries_iff.1 hmem)) (by simp)
  have hfst : (indexedOutput s).map Prod.fst = s.reasoningIndex.toList ++
      (s.messageIndex.toList ++ s.tools.values.map ToolStreamState.outputIndex) := by
    simp [indexedOutput, Function.comp_def]
  rw [hfst]
  refine List.nodup_append.2 ⟨?_, List.nodup_append.2 ⟨?_, htools, hmessage⟩, hreasoning⟩
  · cases s.reasoningIndex <;> simp
  · cases s.messageIndex <;> simp

theorem Agrees.indexed_mem (h : Agrees draws fragments s m) (index : ℕ) :
    index ∈ (indexedOutput s).map Prod.fst ↔ index < m.slots.length := by
  have hfst : (indexedOutput s).map Prod.fst = s.reasoningIndex.toList ++
      (s.messageIndex.toList ++ s.tools.values.map ToolStreamState.outputIndex) := by
    simp [indexedOutput, Function.comp_def]
  rw [hfst, List.mem_append, List.mem_append, Option.mem_toList, Option.mem_toList]
  constructor
  · rintro (hr | hm | ht)
    · exact lt_of_slot (h.reasoning index hr)
    · exact lt_of_slot (h.message index hm)
    · obtain ⟨t, hvalue, rfl⟩ := List.mem_map.1 ht
      obtain ⟨⟨k, t'⟩, hmem, rfl⟩ := List.mem_map.1 hvalue
      exact lt_of_slot (h.tool k t' (Map.mem_entries_iff.1 hmem))
  · intro hlt
    refine (h.covered index hlt).imp_right fun hrest => hrest.imp_right ?_
    rintro ⟨k, t, ht, rfl⟩
    exact List.mem_map.2 ⟨t, List.mem_map.2 ⟨⟨k, t⟩, Map.mem_entries_iff.2 ht, rfl⟩, rfl⟩


/-- Entries whose indices are all those below a bound are sorted into their places. -/
theorem sorted_indices {β : Type} {entries : List (ℕ × β)} {n : ℕ}
    (hnodup : (entries.map Prod.fst).Nodup) (hmem : ∀ i, i ∈ entries.map Prod.fst ↔ i < n) :
    (entries.mergeSort fun left right => left.1 ≤ right.1).map Prod.fst = List.range n := by
  have hperm : ((entries.mergeSort fun left right => left.1 ≤ right.1).map Prod.fst).Perm
      (List.range n) := by
    refine ((List.mergeSort_perm _ _).map _).trans ?_
    refine (List.perm_ext_iff_of_nodup hnodup List.nodup_range).2 fun i => ?_
    rw [hmem, List.mem_range]
  have hsorted : ((entries.mergeSort fun left right => left.1 ≤ right.1).map Prod.fst).Pairwise
      (· ≤ ·) := by
    rw [List.pairwise_map]
    refine (List.pairwise_mergeSort ?_ ?_ entries).imp ?_
    · intro a b c hab hbc
      simp only [decide_eq_true_eq] at hab hbc ⊢
      exact hab.trans hbc
    · intro a b
      simpa using le_total a.1 b.1
    · intro a b hab
      simpa using hab
  refine hperm.eq_of_pairwise (fun a b _ _ => le_antisymm) hsorted ?_
  exact List.pairwise_lt_range.imp le_of_lt

/-- The completed output has an item for each slot, in its place. -/
theorem Agrees.output_entry (h : Agrees draws fragments s m) :
    (completedStreamOutput s).length = m.slots.length ∧
      ∀ (i : ℕ) (item : Item F), (completedStreamOutput s)[i]? = some item →
        (i, item) ∈ indexedOutput s := by
  have hindices := sorted_indices h.indexed_nodup h.indexed_mem
  have hlength := congrArg List.length hindices
  rw [List.length_map, List.length_range] at hlength
  refine ⟨by rw [completedStreamOutput, List.length_map, hlength], fun i item hitem => ?_⟩
  rw [completedStreamOutput, List.getElem?_map, Option.map_eq_some_iff] at hitem
  obtain ⟨⟨index, item'⟩, hentry, rfl⟩ := hitem
  have hplace := congrArg (fun l : List ℕ => l[i]?) hindices
  have hlt : i < m.slots.length := hlength ▸ (List.getElem?_eq_some_iff.1 hentry).1
  simp only [List.getElem?_map, hentry, Option.map_some, List.getElem?_range hlt,
    Option.some.injEq] at hplace
  have hmem := List.mem_of_getElem? hentry
  rw [List.mem_mergeSort] at hmem
  exact hplace ▸ hmem

/-- Every entry is in the completed output. -/
theorem Agrees.entry_output (h : Agrees draws fragments s m) {i : ℕ} {item : Item F}
    (hmem : (i, item) ∈ indexedOutput s) : (completedStreamOutput s)[i]? = some item := by
  have hindices := sorted_indices h.indexed_nodup h.indexed_mem
  obtain ⟨j, hj⟩ := List.mem_iff_getElem?.1 (List.mem_mergeSort.2 hmem :
    (i, item) ∈ (indexedOutput s).mergeSort fun left right => left.1 ≤ right.1)
  have hplace := congrArg (fun l : List ℕ => l[j]?) hindices
  have hlength := congrArg List.length hindices
  rw [List.length_map, List.length_range] at hlength
  have hlt : j < m.slots.length := hlength ▸ (List.getElem?_eq_some_iff.1 hj).1
  simp only [List.getElem?_map, hj, Option.map_some, List.getElem?_range hlt,
    Option.some.injEq] at hplace
  rw [completedStreamOutput, List.getElem?_map, hplace, hj, Option.map_some]

/-- The first slots are closed with the items of the output, the others are open. -/
structure Closing (output : List (Item F)) (slots : List (Slot F)) (closed : ℕ) (m : Monitor F) :
    Prop where
  open_ : m.ended = false
  length : m.slots.length = slots.length
  slot : ∀ i slot, slots[i]? = some slot →
    m.slots[i]? = some (if i < closed then { slot with closed := output[i]? } else slot)

variable [DecidableEq F]

theorem triple_closeItem {output : List (Item F)} {slots : List (Slot F)} {index : ℕ}
    {item : Item F} {slot : Slot F} (hitem : output[index]? = some item)
    (hslot : slots[index]? = some slot) (hopen : slot.closed = none)
    (hcloses : closes slot item = true) :
    Triple Monitor.accept (fun _ m => Closing output slots index m) (closeItem (F := F) index item)
      (fun _ m => Closing output slots (index + 1) m) := by
  refine Triple.seq (Q := fun _ m => Closing output slots index m) ?_ (triple_emit fun _ m h => ?_)
  · cases item with
    | reasoning | message => exact Triple.done
    | functionCall id status callId name arguments =>
        refine triple_emit fun _ m h => ⟨h.open_, m, ?_, h⟩
        have hm := h.slot index slot hslot
        rw [if_neg (lt_irrefl _)] at hm
        have hcheck := check_eq_some hm hopen
        cases status with
        | inProgress => cases hcloses
        | completed =>
            simp only [closes, decide_eq_true_eq] at hcloses
            rw [← hcloses.2.1, ← hcloses.2.2] at hcheck
            exact hcheck
  · have hm := h.slot index slot hslot
    rw [if_neg (lt_irrefl _)] at hm
    refine ⟨h.open_, { m with slots := m.slots.set index { slot with closed := some item } }, ?_,
      h.open_, by simp [h.length], fun i a ha => ?_⟩
    · change m.close index item = _
      rw [Monitor.close, Monitor.update, hm, Option.bind_some, hopen, Option.isNone_none,
        if_pos rfl, if_pos hcloses, Option.map_some]
    · by_cases hi : i = index
      · subst hi
        rw [List.getElem?_set_self (lt_of_slot hm), if_pos (Nat.lt_succ_self _), hitem]
        rw [hslot, Option.some.injEq] at ha
        rw [ha]
      · rw [List.getElem?_set_ne (Ne.symm hi), h.slot i a ha]
        have hiff : i < index + 1 ↔ i < index := by omega
        simp only [hiff]

/-- The end of a stream whose call ids stay. -/
theorem triple_finishResponseStream (hstay : CallIdsStay draws fragments) :
    Triple Monitor.accept (Agrees draws fragments) (finishResponseStream (F := F))
      (fun _ _ => True) := by
  refine Triple.read fun s₀ => ?_
  by_cases hcompleted : s₀.completed = true
  · rw [if_pos hcompleted]
    exact Triple.done.conseq (fun _ _ h => h.2) fun _ _ _ => trivial
  rw [if_neg hcompleted]
  refine (triple_closeReasoning.conseq (fun _ _ h => h.2) fun _ _ h => h).seq
    (triple_closeMessage.seq ?_)
  intro s m h
  obtain ⟨hlength, hentries⟩ := h.output_entry
  have hitems : Triple Monitor.accept
      (fun _ m' => Closing (completedStreamOutput s) m.slots 0 m')
      (.forEach (completedStreamOutput s).zipIdx fun e => closeItem (F := F) e.2 e.1)
      (fun _ m' => Closing (completedStreamOutput s) m.slots
        (completedStreamOutput s).zipIdx.length m') := by
    refine Triple.forEach (I := fun done _ m' =>
      Closing (completedStreamOutput s) m.slots done.length m') fun done x rest hsplit => ?_
    obtain ⟨item, index⟩ := x
    have hx : (completedStreamOutput s).zipIdx[done.length]? = some (item, index) := by
      rw [hsplit, List.getElem?_append_right le_rfl, Nat.sub_self]
      rfl
    rw [List.getElem?_zipIdx, Option.map_eq_some_iff] at hx
    obtain ⟨item', hitem, heq⟩ := hx
    obtain ⟨rfl, rfl⟩ := Prod.mk.inj heq
    rw [Nat.zero_add, List.length_append, List.length_singleton]
    obtain ⟨slot, hslot, hopen, hcloses⟩ := h.indexed_closes hstay (hentries _ _ hitem)
    exact triple_closeItem hitem hslot hopen hcloses
  have hrest := hitems.seq (Triple.seq (Q := fun _ m' =>
      Closing (completedStreamOutput s) m.slots (completedStreamOutput s).zipIdx.length m')
    (Triple.modify (f := fun s => { s with completed := true }) fun _ _ h => h)
    (triple_emit (Q := fun _ _ => True)
      (b := fun s' => .completed (streamResponseObject s' .completed (completedStreamOutput s) none))
      fun s' m' h' => ⟨h'.open_, { m' with ended := true }, ?_, trivial⟩))
  · refine hrest s m ⟨h.open_, rfl, fun i slot hslot => ?_⟩
    rw [if_neg (Nat.not_lt_zero _), hslot]
  · have hclosed : m'.slots.map Slot.closed = (completedStreamOutput s).map some := by
      refine List.ext_getElem? fun i => ?_
      rw [List.getElem?_map, List.getElem?_map]
      cases hslot : m.slots[i]? with
      | none =>
          have hle := List.getElem?_eq_none_iff.1 hslot
          rw [List.getElem?_eq_none (h'.length.trans_le hle),
            List.getElem?_eq_none (hlength.trans_le hle)]
          rfl
      | some slot =>
          have hlt : i < (completedStreamOutput s).length := hlength ▸ lt_of_slot hslot
          rw [h'.slot i slot hslot, if_pos (by rwa [List.length_zipIdx]),
            List.getElem?_eq_getElem hlt]
          rfl
    exact if_pos hclosed

/-! ### A call id that does not stay -/

def KeepsKinds (m m' : Monitor F) : Prop :=
  ∀ (i : ℕ) (slot : Slot F), m.slots[i]? = some slot →
    ∃ slot', m'.slots[i]? = some slot' ∧ slot'.kind = slot.kind

omit [DecidableEq F] in
theorem update_keepsKinds {m m' : Monitor F} {index : ℕ} {f : Slot F → Option (Slot F)}
    (hkind : ∀ slot slot', f slot = some slot' → slot'.kind = slot.kind)
    (h : m.update index f = some m') : KeepsKinds m m' := by
  obtain ⟨new, hnew, rfl⟩ := Option.map_eq_some_iff.1 h
  obtain ⟨old, hold, hf⟩ := Option.bind_eq_some_iff.1 hnew
  intro i slot hslot
  by_cases hi : i = index
  · subst hi
    refine ⟨new, List.getElem?_set_self (lt_of_slot hslot), ?_⟩
    rw [hold, Option.some.injEq] at hslot
    subst hslot
    by_cases hopen : old.closed.isNone = true
    · rw [if_pos hopen] at hf
      exact hkind old new hf
    · rw [if_neg hopen] at hf
      cases hf
  · exact ⟨slot, by rw [List.getElem?_set_ne (Ne.symm hi), hslot], rfl⟩

theorem accept_keepsKinds {m m' : Monitor F} {e : Event F} (h : m.accept e = some m') :
    KeepsKinds m m' := by
  have hcheck {index : ℕ} {id text : Text} (h : m.check index id text = some m') :
      KeepsKinds m m' := by
    refine update_keepsKinds (fun slot slot' heq => ?_) h
    split_ifs at heq
    exact Option.some.inj heq ▸ rfl
  have hextend {index : ℕ} {id delta : Text} (kind : SlotKind → Bool)
      (h : m.extend index id kind delta = some m') : KeepsKinds m m' := by
    refine update_keepsKinds (fun slot slot' heq => ?_) h
    split_ifs at heq
    exact Option.some.inj heq ▸ rfl
  have hrefl (m : Monitor F) : KeepsKinds m m := fun _ slot hslot => ⟨slot, hslot, rfl⟩
  rw [Monitor.accept] at h
  split_ifs at h
  cases hbody : e.body <;> rw [hbody] at h
  case created | inProgress => exact Option.some.inj h ▸ hrefl m
  case outputItemAdded index item =>
    rw [Monitor.acceptBody] at h
    split_ifs at h
    obtain ⟨new, -, rfl⟩ := Option.map_eq_some_iff.1 h
    exact fun i slot hslot => ⟨slot, slot_append hslot, rfl⟩
  case contentPartAdded | reasoningTextDone | contentPartDone | outputTextDone |
      functionCallArgumentsDone => exact hcheck h
  case reasoningTextDelta => exact hextend (· == .reasoning) h
  case outputTextDelta => exact hextend (· == .message) h
  case functionCallArgumentsDelta => exact hextend SlotKind.isCall h
  case outputItemDone index item =>
    refine update_keepsKinds (fun slot slot' heq => ?_) h
    split_ifs at heq
    exact Option.some.inj heq ▸ rfl
  case completed response =>
    rw [Monitor.acceptBody] at h
    split_ifs at h
    exact Option.some.inj h ▸ hrefl m
  case failed response => exact Option.some.inj h ▸ hrefl m

theorem follows_keepsKinds {m m' : Monitor F} {es : List (Event F)}
    (h : Follows Monitor.accept m es m') : KeepsKinds m m' :=
  h.keeps (fun _ _ slot hslot => ⟨slot, hslot, rfl⟩)
    (fun h h' i slot hslot =>
      let ⟨slot₁, hslot₁, hkind⟩ := h i slot hslot
      let ⟨slot₂, hslot₂, hkind'⟩ := h' i slot₁ hslot₁
      ⟨slot₂, hslot₂, hkind'.trans hkind⟩)
    accept_keepsKinds

/-- A closed function call has the call id of its slot. -/
theorem callId_of_follows {m m' : Monitor F} {es : List (Event F)} {e : Event F} {index : ℕ}
    {slot : Slot F} {id callId announcedCallId name arguments : Text}
    (h : Follows Monitor.accept m es m') (he : e ∈ es)
    (hbody : e.body = .outputItemDone index (.functionCall id .completed callId name arguments))
    (hslot : m.slots[index]? = some slot) (hkind : slot.kind = .functionCall announcedCallId) :
    callId = announcedCallId := by
  obtain ⟨before, after, rfl⟩ := List.append_of_mem he
  obtain ⟨m₁, hbefore, hrest⟩ := follows_append.1 h
  obtain ⟨m₂, haccept, -⟩ := follows_cons.1 hrest
  obtain ⟨slot', hslot', hkind'⟩ := follows_keepsKinds hbefore index slot hslot
  rw [Monitor.accept] at haccept
  split_ifs at haccept
  rw [hbody] at haccept
  obtain ⟨new, hnew, -⟩ := Option.map_eq_some_iff.1 haccept
  rw [hslot', Option.bind_some] at hnew
  by_cases hopen : slot'.closed.isNone = true
  · rw [if_pos hopen] at hnew
    by_cases hcloses : closes slot' (.functionCall id .completed callId name arguments) = true
    · simp only [closes, decide_eq_true_eq] at hcloses
      exact SlotKind.functionCall.inj (hcloses.1.symm.trans (hkind'.trans hkind))
    · simp [hcloses] at hnew
  · rw [if_neg hopen] at hnew
    cases hnew

omit [DecidableEq F] in
theorem closeReasoning_after (s : ResponsesStreamState F) :
    ∃ sequence, closeReasoning.after s = { s with sequence } := by
  simp only [closeReasoning, Writer.after]
  split
  · exact ⟨s.sequence, rfl⟩
  · exact ⟨s.sequence + 1 + 1, rfl⟩

omit [DecidableEq F] in
theorem closeMessage_after (s : ResponsesStreamState F) :
    ∃ sequence, closeMessage.after s = { s with sequence } := by
  simp only [closeMessage, Writer.after]
  split
  · exact ⟨s.sequence, rfl⟩
  · exact ⟨s.sequence + 1 + 1, rfl⟩

omit [DecidableEq F] in
/-- Each item that is closed has its event. -/
theorem closeItem_event {items : List (Item F × ℕ)} {item : Item F} {index : ℕ}
    (h : (item, index) ∈ items) (s : ResponsesStreamState F) :
    ∃ e ∈ (Writer.forEach items fun e => closeItem e.2 e.1).events s,
      e.body = .outputItemDone index item := by
  induction items generalizing s with
  | nil => exact absurd h List.not_mem_nil
  | cons x items ih =>
      rcases List.mem_cons.1 h with rfl | h
      · exact ⟨_, List.mem_append_left _ (List.mem_append_right _ List.mem_cons_self), rfl⟩
      · obtain ⟨e, he, hbody⟩ := ih h ((closeItem x.2 x.1).after s)
        exact ⟨e, List.mem_append_right _ he, hbody⟩

omit [DecidableEq F] in
theorem closeItems_after (items : List (Item F × ℕ)) (s : ResponsesStreamState F) :
    ∃ sequence, (Writer.forEach items fun e => closeItem e.2 e.1).after s = { s with sequence } := by
  induction items generalizing s with
  | nil => exact ⟨s.sequence, rfl⟩
  | cons x items ih =>
      obtain ⟨n, hn⟩ : ∃ n, (closeItem x.2 x.1).after s = { s with sequence := n } := by
        obtain ⟨item, index⟩ := x
        cases item with
        | reasoning | message => exact ⟨s.sequence + 1, rfl⟩
        | functionCall => exact ⟨s.sequence + 1 + 1, rfl⟩
      obtain ⟨n', hn'⟩ := ih ({ s with sequence := n })
      refine ⟨n', ?_⟩
      change (Writer.forEach items _).after ((closeItem x.2 x.1).after s) = _
      rw [hn, hn']

omit [DecidableEq F] in
/-- The closing events: those of the texts, those of the items, and the completed response. -/
theorem finish_events (hrunning : s.completed = false) :
    ∃ texts n last, finishResponseStream.events s = texts ++
        ((Writer.forEach (completedStreamOutput s).zipIdx fun e => closeItem e.2 e.1).events
          { s with sequence := n } ++ [last]) ∧
      last.body = .completed (streamResponseObject s .completed (completedStreamOutput s) none) := by
  obtain ⟨n, hn⟩ := closeReasoning_after s
  obtain ⟨n', hn'⟩ := closeMessage_after { s with sequence := n }
  obtain ⟨n'', hn''⟩ := closeItems_after (completedStreamOutput s).zipIdx { s with sequence := n' }
  have hout (k : ℕ) : completedStreamOutput { s with sequence := k } = completedStreamOutput s := rfl
  refine ⟨closeReasoning.events s ++ closeMessage.events { s with sequence := n }, n',
    ⟨n'', if s.request.includeObfuscation then
        some ((makeId "obf_" (s.draws.obfuscation n'')).drop 4)
      else none, .completed (streamResponseObject s .completed (completedStreamOutput s) none)⟩,
    ?_, rfl⟩
  change (if s.completed = true then Writer.done else _ : Emitter F).events s = _
  rw [if_neg (by simp [hrunning])]
  simp only [Writer.events, hn, hn', hout, hn'', Writer.after, List.append_assoc]
  rfl

/-- The monitor follows the end of a stream only where the call ids stay. -/
theorem callIdsStay_of_follows (h : Agrees draws fragments s m) {m' : Monitor F}
    (hfollows : Follows Monitor.accept m (finishResponseStream.events s) m') :
    CallIdsStay draws fragments := by
  intro k late hlate
  have hids : idsFor fragments k ≠ [] := fun hnil => by
    rw [lateId, hnil] at hlate
    cases hlate
  obtain ⟨t, ht⟩ := Option.ne_none_iff_exists'.1 (mt (h.seen k).1 hids)
  have hentry : (t.outputIndex, toolItem t) ∈ indexedOutput s :=
    List.mem_append_right _ (List.mem_append_right _ (List.mem_map.2
      ⟨t, List.mem_map.2 ⟨⟨k, t⟩, Map.mem_entries_iff.2 ht, rfl⟩, rfl⟩))
  have hzip : (toolItem t, t.outputIndex) ∈ (completedStreamOutput s).zipIdx :=
    List.mem_zipIdx_iff_getElem?.2 (h.entry_output hentry)
  obtain ⟨texts, n, last, hevents, -⟩ := finish_events h.running
  obtain ⟨e, he, hbody⟩ := closeItem_event hzip { s with sequence := n }
  rw [hevents] at hfollows
  have hcall := callId_of_follows hfollows (List.mem_append_right _ (List.mem_append_left _ he)) hbody
    (h.tool k t ht) rfl
  rw [h.callId k t ht, hlate, Option.getD_some] at hcall
  exact hcall

end Output

/-! ## The sequence numbers -/

/-- The events of the program count on from the state. -/
def Numbered (p : Emitter F) : Prop :=
  ∀ s, (p.events s).map Event.sequenceNumber = List.range' s.sequence (p.events s).length ∧
    (p.after s).sequence = s.sequence + (p.events s).length

namespace Numbered

variable {p q : Emitter F}

theorem done : Numbered (F := F) .done := fun _ => ⟨rfl, rfl⟩

theorem modify {f : ResponsesStreamState F → ResponsesStreamState F}
    (h : ∀ s, (f s).sequence = s.sequence) : Numbered (.modify f) := fun s => ⟨rfl, h s⟩

theorem emit (body : ResponsesStreamState F → EventBody F) : Numbered (Responses.emit body) :=
  fun _ => ⟨rfl, rfl⟩

theorem seq (hp : Numbered p) (hq : Numbered q) : Numbered (.seq p q) := by
  intro s
  obtain ⟨hfirst, hmid⟩ := hp s
  obtain ⟨hsecond, hafter⟩ := hq (p.after s)
  refine ⟨?_, ?_⟩
  · rw [Writer.events, List.map_append, hfirst, hsecond, hmid, List.length_append]
    exact List.range'_append_1
  · rw [Writer.after, hafter, hmid, Writer.events, List.length_append, Nat.add_assoc]

theorem read {next : ResponsesStreamState F → Emitter F} (h : ∀ s, Numbered (next s)) :
    Numbered (.read next) := fun s => h s s

theorem ite {c : Prop} [Decidable c] (hp : Numbered p) (hq : Numbered q) :
    Numbered (if c then p else q) := by
  split_ifs
  · exact hp
  · exact hq

theorem forEach {α : Type} {body : α → Emitter F} (h : ∀ x, Numbered (body x)) (xs : List α) :
    Numbered (.forEach xs body) := by
  induction xs with
  | nil => exact done
  | cons x xs ih => exact (h x).seq ih

theorem announce {f : ResponsesStreamState F → ResponsesStreamState F}
    {body body' : ResponsesStreamState F → EventBody F} (h : ∀ s, (f s).sequence = s.sequence) :
    Numbered (.seq (.modify f) (.seq (Responses.emit body) (Responses.emit body'))) :=
  (modify h).seq ((emit body).seq (emit body'))

theorem grow {f : ResponsesStreamState F → ResponsesStreamState F}
    {body : ResponsesStreamState F → EventBody F} (h : ∀ s, (f s).sequence = s.sequence) :
    Numbered (.seq (.modify f) (Responses.emit body)) :=
  (modify h).seq (emit body)

theorem ensureMessageStream : Numbered (Responses.ensureMessageStream (F := F)) := by
  refine read fun s => ?_
  exact ite done (announce fun _ => rfl)

theorem ensureReasoningStream : Numbered (Responses.ensureReasoningStream (F := F)) := by
  refine read fun s => ?_
  exact ite done (announce fun _ => rfl)

theorem applyTool (source : Inference.ToolCallDelta) : Numbered (Responses.applyTool (F := F) source) := by
  refine seq (read fun s => ?_) ?_
  · exact ite (modify fun _ => rfl) (grow fun _ => rfl)
  · exact ite done (grow fun _ => rfl)

theorem applySanitizedGenerationDelta (delta : GenerationDelta F) :
    Numbered (Responses.applySanitizedGenerationDelta delta) := by
  refine seq ?_ (seq ?_ (forEach applyTool _))
  · exact ite done (ensureReasoningStream.seq (grow fun _ => rfl))
  · exact ite done (ensureMessageStream.seq (grow fun _ => rfl))

theorem closeItem (index : ℕ) (item : Item F) : Numbered (Responses.closeItem index item) := by
  cases item with
  | reasoning | message => exact done.seq (emit _)
  | functionCall => exact (emit _).seq (emit _)

theorem finishResponseStream : Numbered (Responses.finishResponseStream (F := F)) := by
  refine read fun s => ?_
  refine ite done (seq (read fun s => ?_) (seq (read fun s => ?_) (read fun s => ?_)))
  · cases s.reasoningIndex with
    | none => exact done
    | some index => exact (emit _).seq (emit _)
  · cases s.messageIndex with
    | none => exact done
    | some index => exact (emit _).seq (emit _)
  · refine seq (forEach (fun e => ?_) _) (grow fun _ => rfl)
    exact closeItem e.2 e.1

theorem provider (deltas : List (GenerationDelta F)) (ending : Ending F) :
    Numbered (Responses.provider deltas ending) := by
  refine seq (read fun s => ?_) (seq (forEach (fun delta => read fun s => ?_) _) (read fun s => ?_))
  · exact ite done (announce fun _ => rfl)
  · refine seq ?_ (applySanitizedGenerationDelta _)
    exact modify fun _ => rfl
  · refine seq (modify fun _ => rfl) (seq (applySanitizedGenerationDelta _) ?_)
    cases ending with
    | failed code message =>
        refine read fun s => ?_
        exact ite done (grow fun _ => rfl)
    | finished result =>
        refine seq ?_ finishResponseStream
        exact modify fun _ => rfl

end Numbered

/-! ## What the deltas bring -/

/-- The texts of the state grow by those of the fragments, and the buffers stay. -/
structure Brings (content reasoning : Text) (calls : List Inference.ToolCallDelta)
    (s s' : ResponsesStreamState F) : Prop where
  text : s'.text = s.text ++ content
  reasoning : s'.reasoning = s.reasoning ++ reasoning
  name : ∀ k, (tool s' k).name = (tool s k).name ++
    InferenceDeltaUtf8Buffer.textFor Inference.ToolCallDelta.functionName calls k
  arguments : ∀ k, (tool s' k).arguments = (tool s k).arguments ++
    InferenceDeltaUtf8Buffer.textFor Inference.ToolCallDelta.functionArguments calls k
  utf8 : s'.utf8 = s.utf8

section Brings

variable {s s₁ s₂ : ResponsesStreamState F}

theorem Brings.nothing (htext : s₁.text = s.text) (hreasoning : s₁.reasoning = s.reasoning)
    (htools : s₁.tools = s.tools) (hutf8 : s₁.utf8 = s.utf8) : Brings [] [] [] s s₁ := by
  refine ⟨by rw [htext, List.append_nil], by rw [hreasoning, List.append_nil], fun k => ?_,
    fun k => ?_, hutf8⟩
  · rw [tool, tool, htools]
    exact (List.append_nil _).symm
  · rw [tool, tool, htools]
    exact (List.append_nil _).symm

theorem Brings.trans {content content' reasoning reasoning' : Text}
    {calls calls' : List Inference.ToolCallDelta} (h : Brings content reasoning calls s s₁)
    (h' : Brings content' reasoning' calls' s₁ s₂) :
    Brings (content ++ content') (reasoning ++ reasoning') (calls ++ calls') s s₂ where
  text := by rw [h'.text, h.text, List.append_assoc]
  reasoning := by rw [h'.reasoning, h.reasoning, List.append_assoc]
  name k := by
    rw [h'.name, h.name, InferenceDeltaUtf8Buffer.textFor_append, List.append_assoc]
  arguments k := by
    rw [h'.arguments, h.arguments, InferenceDeltaUtf8Buffer.textFor_append, List.append_assoc]
  utf8 := h'.utf8.trans h.utf8

theorem brings_ensureMessageStream (s : ResponsesStreamState F) :
    Brings [] [] [] s (ensureMessageStream.after s) := by
  simp only [ensureMessageStream, Writer.after]
  split_ifs
  · exact .nothing rfl rfl rfl rfl
  · exact .nothing rfl rfl rfl rfl

theorem brings_ensureReasoningStream (s : ResponsesStreamState F) :
    Brings [] [] [] s (ensureReasoningStream.after s) := by
  simp only [ensureReasoningStream, Writer.after]
  split_ifs
  · exact .nothing rfl rfl rfl rfl
  · exact .nothing rfl rfl rfl rfl

theorem brings_applyReasoning (delta : Text) (s : ResponsesStreamState F) :
    Brings [] delta [] s ((applyReasoning delta).after s) := by
  rw [applyReasoning]
  by_cases hempty : delta = []
  · rw [if_pos hempty, hempty]
    exact .nothing rfl rfl rfl rfl
  · rw [if_neg hempty]
    have hbrings := brings_ensureReasoningStream s
    have hlast : Brings [] delta [] (ensureReasoningStream.after s)
        { ensureReasoningStream.after s with
          reasoning := (ensureReasoningStream.after s).reasoning ++ delta
          sequence := (ensureReasoningStream.after s).sequence + 1 } :=
      ⟨(List.append_nil _).symm, rfl, fun _ => (List.append_nil _).symm,
        fun _ => (List.append_nil _).symm, rfl⟩
    exact hbrings.trans hlast

theorem brings_applyContent (delta : Text) (logprobs : List (Inference.TokenLogprob F))
    (s : ResponsesStreamState F) : Brings delta [] [] s ((applyContent delta logprobs).after s) := by
  rw [applyContent]
  by_cases hempty : delta = []
  · rw [if_pos hempty, hempty]
    exact .nothing rfl rfl rfl rfl
  · rw [if_neg hempty]
    have hbrings := brings_ensureMessageStream s
    have hlast : Brings delta [] [] (ensureMessageStream.after s)
        { ensureMessageStream.after s with
          text := (ensureMessageStream.after s).text ++ delta
          logprobs := (ensureMessageStream.after s).logprobs ++ logprobs
          sequence := (ensureMessageStream.after s).sequence + 1 } :=
      ⟨rfl, (List.append_nil _).symm, fun _ => (List.append_nil _).symm,
        fun _ => (List.append_nil _).symm, rfl⟩
    exact hbrings.trans hlast

theorem tool_setTool (s : ResponsesStreamState F) (k k' : ℕ) (t : ToolStreamState) :
    tool (setTool s k t) k' = if k' = k then t else tool s k' := by
  by_cases hk : k' = k
  · subst hk
    rw [if_pos rfl]
    exact Map.find_insert_self _ _ _ _
  · rw [if_neg hk]
    exact Map.find_insert_of_ne hk _ _

theorem brings_applyTool (source : Inference.ToolCallDelta) (s : ResponsesStreamState F) :
    Brings [] [] [source] s ((applyTool source).after s) := by
  rw [applyTool, Writer.after]
  generalize hs₁ : (Writer.read _).after s = s₁
  -- the first half names the tool call, the second brings its arguments
  have hfirst : ∃ t : ToolStreamState, ∃ next sequence,
      s₁ = { setTool s source.index t with nextOutputIndex := next, sequence } ∧
      t.name = (tool s source.index).name ++ source.functionName ∧
      t.arguments = (tool s source.index).arguments := by
    rw [← hs₁]
    simp only [Writer.after]
    by_cases hknown : s.tools.contains source.index = true
    · rw [if_pos hknown]
      exact ⟨_, s.nextOutputIndex, s.sequence, rfl, rfl, rfl⟩
    · rw [if_neg hknown]
      have hnew : tool s source.index = {} := by
        rw [tool, Map.find, Option.not_isSome_iff_eq_none.1 hknown, Option.getD_none]
      rw [hnew]
      exact ⟨_, s.nextOutputIndex + 1, s.sequence + 1, rfl, rfl, rfl⟩
  obtain ⟨t, next, sequence, rfl, hname, harguments⟩ := hfirst
  have htool (k : ℕ) : tool { setTool s source.index t with nextOutputIndex := next, sequence } k =
      if k = source.index then t else tool s k := tool_setTool s source.index k t
  have hnamed : Brings [] [] [{ source with functionArguments := [] }] s
      { setTool s source.index t with nextOutputIndex := next, sequence } := by
    refine ⟨(List.append_nil _).symm, (List.append_nil _).symm, fun k => ?_, fun k => ?_, rfl⟩
    · rw [htool, InferenceDeltaUtf8Buffer.textFor_singleton]
      by_cases hk : k = source.index
      · rw [if_pos hk, if_pos hk.symm, hname, hk]
      · rw [if_neg hk, if_neg (Ne.symm hk), List.append_nil]
    · rw [htool, InferenceDeltaUtf8Buffer.textFor_singleton]
      by_cases hk : k = source.index
      · rw [if_pos hk, if_pos hk.symm, harguments, hk, List.append_nil]
      · rw [if_neg hk, if_neg (Ne.symm hk), List.append_nil]
  have hargued (s : ResponsesStreamState F) :
      Brings [] [] [{ source with functionName := [] }] s ((applyArguments source).after s) := by
    rw [applyArguments]
    by_cases hempty : source.functionArguments = []
    · rw [if_pos hempty]
      refine ⟨(List.append_nil _).symm, (List.append_nil _).symm, fun k => ?_, fun k => ?_, rfl⟩
      · rw [InferenceDeltaUtf8Buffer.textFor_singleton, ite_self, List.append_nil]
        rfl
      · rw [InferenceDeltaUtf8Buffer.textFor_singleton, hempty, ite_self, List.append_nil]
        rfl
    · rw [if_neg hempty]
      refine ⟨(List.append_nil _).symm, (List.append_nil _).symm, fun k => ?_, fun k => ?_, rfl⟩
      · rw [InferenceDeltaUtf8Buffer.textFor_singleton, ite_self, List.append_nil]
        refine (congrArg ToolStreamState.name (tool_setTool s source.index k _)).trans ?_
        by_cases hk : k = source.index
        · rw [if_pos hk, hk]
        · rw [if_neg hk]
      · rw [InferenceDeltaUtf8Buffer.textFor_singleton]
        refine (congrArg ToolStreamState.arguments (tool_setTool s source.index k _)).trans ?_
        by_cases hk : k = source.index
        · rw [if_pos hk, if_pos hk.symm, hk]
        · rw [if_neg hk, if_neg (Ne.symm hk), List.append_nil]
  have hboth := hnamed.trans (hargued _)
  refine ⟨hboth.text, hboth.reasoning, fun k => (hboth.name k).trans ?_,
    fun k => (hboth.arguments k).trans ?_, hboth.utf8⟩
  · simp only [List.singleton_append, InferenceDeltaUtf8Buffer.textFor, List.filter_cons]
    split_ifs <;> simp_all
  · simp only [List.singleton_append, InferenceDeltaUtf8Buffer.textFor, List.filter_cons]
    split_ifs <;> simp_all

theorem brings_applySanitizedGenerationDelta (delta : GenerationDelta F)
    (s : ResponsesStreamState F) :
    Brings delta.content delta.reasoningText delta.toolCalls s
      ((applySanitizedGenerationDelta delta).after s) := by
  have htools (calls : List Inference.ToolCallDelta) (s : ResponsesStreamState F) :
      Brings [] [] calls s ((Writer.forEach calls applyTool).after s) := by
    induction calls generalizing s with
    | nil => exact .nothing rfl rfl rfl rfl
    | cons call calls ih => exact (brings_applyTool call s).trans (ih _)
  have hall := (brings_applyReasoning delta.reasoningText s).trans
    ((brings_applyContent delta.content delta.logprobs _).trans (htools delta.toolCalls _))
  simp only [List.nil_append, List.append_nil] at hall
  exact hall

end Brings

/-- There is an item of a kind where there is text for it. -/
structure Announced (s : ResponsesStreamState F) : Prop where
  reasoning : s.reasoningIndex = none ↔ s.reasoning = []
  message : s.messageIndex = none ↔ s.text = []

section Announced

variable {s : ResponsesStreamState F}

theorem Announced.applyReasoning (h : Announced s) (delta : Text) :
    Announced ((applyReasoning delta).after s) := by
  rw [Responses.applyReasoning]
  by_cases hempty : delta = []
  · rw [if_pos hempty]
    exact h
  · rw [if_neg hempty]
    simp only [ensureReasoningStream, emit, Writer.after]
    by_cases hindex : s.reasoningIndex.isSome = true
    · rw [if_pos hindex]
      refine ⟨?_, h.message⟩
      simp [Writer.after, hempty, Option.isSome_iff_ne_none.1 hindex]
    · rw [if_neg hindex]
      refine ⟨?_, h.message⟩
      simp [Writer.after, hempty]

theorem Announced.applyContent (h : Announced s) (delta : Text)
    (logprobs : List (Inference.TokenLogprob F)) : Announced ((applyContent delta logprobs).after s) := by
  rw [Responses.applyContent]
  by_cases hempty : delta = []
  · rw [if_pos hempty]
    exact h
  · rw [if_neg hempty]
    simp only [ensureMessageStream, emit, Writer.after]
    by_cases hindex : s.messageIndex.isSome = true
    · rw [if_pos hindex]
      refine ⟨h.reasoning, ?_⟩
      simp [Writer.after, hempty, Option.isSome_iff_ne_none.1 hindex]
    · rw [if_neg hindex]
      refine ⟨h.reasoning, ?_⟩
      simp [Writer.after, hempty]

theorem Announced.applyTool (h : Announced s) (source : Inference.ToolCallDelta) :
    Announced ((applyTool source).after s) := by
  have harguments {s : ResponsesStreamState F} (hs : Announced s) :
      Announced ((applyArguments source).after s) := by
    rw [applyArguments]
    by_cases hempty : source.functionArguments = []
    · rw [if_pos hempty]
      exact hs
    · rw [if_neg hempty]
      exact ⟨hs.reasoning, hs.message⟩
  refine harguments ?_
  simp only [Writer.after]
  by_cases hknown : s.tools.contains source.index = true
  · rw [if_pos hknown]
    exact ⟨h.reasoning, h.message⟩
  · rw [if_neg hknown]
    exact ⟨h.reasoning, h.message⟩

theorem Announced.applySanitizedGenerationDelta (h : Announced s) (delta : GenerationDelta F) :
    Announced ((applySanitizedGenerationDelta delta).after s) := by
  have htools (calls : List Inference.ToolCallDelta) {s : ResponsesStreamState F} (hs : Announced s) :
      Announced ((Writer.forEach calls Responses.applyTool).after s) := by
    induction calls generalizing s with
    | nil => exact hs
    | cons call calls ih => exact ih (hs.applyTool call)
  exact htools _ ((h.applyReasoning _).applyContent _ _)

end Announced

/-! ## The whole stream -/

/-- What the state has of the deltas that came through the buffers. -/
structure Carried (buffer : InferenceDeltaUtf8Buffer) (deltas : List (GenerationDelta F))
    (s : ResponsesStreamState F) : Prop where
  utf8 : s.utf8 = buffer
  text : s.text = deltas.flatMap GenerationDelta.content
  reasoning : s.reasoning = deltas.flatMap GenerationDelta.reasoningText
  name : ∀ k, (tool s k).name = InferenceDeltaUtf8Buffer.textFor Inference.ToolCallDelta.functionName
    (deltas.flatMap GenerationDelta.toolCalls) k
  arguments : ∀ k, (tool s k).arguments = InferenceDeltaUtf8Buffer.textFor
    Inference.ToolCallDelta.functionArguments (deltas.flatMap GenerationDelta.toolCalls) k
  announced : Announced s

open InferenceDeltaUtf8Buffer (onDeltas sanitized textFor onDeltas_append)

theorem Carried.step {buffer buffer' : InferenceDeltaUtf8Buffer}
    {deltas : List (GenerationDelta F)} {s : ResponsesStreamState F} (h : Carried buffer deltas s)
    (delta : GenerationDelta F) :
    Carried buffer' (deltas ++ [delta])
      ((applySanitizedGenerationDelta delta).after { s with utf8 := buffer' }) := by
  have hbrings := brings_applySanitizedGenerationDelta delta { s with utf8 := buffer' }
  have hannounced : Announced { s with utf8 := buffer' } :=
    ⟨h.announced.reasoning, h.announced.message⟩
  refine ⟨hbrings.utf8, ?_, ?_, fun k => ?_, fun k => ?_,
    hannounced.applySanitizedGenerationDelta delta⟩
  · rw [hbrings.text, List.flatMap_append, List.flatMap_singleton, h.text]
  · rw [hbrings.reasoning, List.flatMap_append, List.flatMap_singleton, h.reasoning]
  · rw [hbrings.name, List.flatMap_append, List.flatMap_singleton,
      InferenceDeltaUtf8Buffer.textFor_append, ← h.name k]
    rfl
  · rw [hbrings.arguments, List.flatMap_append, List.flatMap_singleton,
      InferenceDeltaUtf8Buffer.textFor_append, ← h.arguments k]
    rfl

/-- The stream up to its end: all deltas, and what the buffers still withhold. -/
def beforeEnd (deltas : List (GenerationDelta F)) : Emitter F :=
  .seq startResponseStream (.seq (.forEach deltas applyGenerationDelta)
    (.read fun s => .seq (.modify fun s => { s with utf8 := {} })
      (applySanitizedGenerationDelta s.utf8.finish.1)))

def atEnd : Ending F → Emitter F
  | .failed code message => failResponseStream ⟨mapOpenaiErrorCode code, message⟩
  | .finished result =>
      .seq (.modify fun s =>
          { s with
            usage := match result with
              | some result =>
                  (result.promptTokens, result.cachedPromptTokens, result.completionTokens)
              | none => s.usage })
        finishResponseStream

theorem provider_events (deltas : List (GenerationDelta F)) (ending : Ending F)
    (s : ResponsesStreamState F) :
    (provider deltas ending).events s =
      (beforeEnd deltas).events s ++ (atEnd ending).events ((beforeEnd deltas).after s) := by
  simp only [provider, beforeEnd, endStream, Writer.events, Writer.after, List.nil_append,
    List.append_assoc]
  cases ending with
  | failed code message => rfl
  | finished result => rfl

section Whole

variable {draws : Draws}

theorem agrees_initialState (request : ResponsesRequest) (responseId model : Text)
    (createdAt : ℤ) :
    Agrees (F := F) draws [] (initialState draws request responseId model createdAt) {} := by
  refine ⟨rfl, rfl, rfl, rfl, ?_, ?_, fun _ => rfl, fun _ => rfl, ?_, ?_, ?_, ?_, ?_⟩
  · exact fun _ h => by cases h
  · exact fun _ h => by cases h
  · exact fun _ _ h => by simp [initialState] at h
  · exact fun _ _ h => by simp [initialState] at h
  · exact fun _ => by simp [initialState, idsFor]
  · exact fun _ _ _ _ h => by simp [initialState] at h
  · exact fun _ h => absurd h (Nat.not_lt_zero _)

theorem carried_initialState (request : ResponsesRequest) (responseId model : Text)
    (createdAt : ℤ) :
    Carried (F := F) {} [] (initialState draws request responseId model createdAt) :=
  ⟨rfl, rfl, rfl, fun _ => rfl, fun _ => rfl, ⟨by simp [initialState], by simp [initialState]⟩⟩

variable [DecidableEq F]

/-- What is known before the end of the stream. -/
theorem triple_beforeEnd (deltas : List (GenerationDelta F)) :
    Triple Monitor.accept (fun s m => Agrees draws [] s m ∧ Carried {} [] s) (beforeEnd deltas)
      (fun s m => Agrees draws ((sanitized deltas).flatMap GenerationDelta.toolCalls) s m ∧
        Carried {} (sanitized deltas) s) := by
  have hstart : Triple Monitor.accept
      (fun s m => Agrees draws [] s m ∧ Carried (F := F) {} [] s) startResponseStream
      (fun s m => Agrees draws [] s m ∧ Carried {} [] s) := by
    refine triple_startResponseStream.with_after fun s h => ?_
    simp only [startResponseStream, Writer.after]
    split_ifs
    · exact h
    · exact ⟨h.utf8, h.text, h.reasoning, h.name, h.arguments,
        ⟨h.announced.reasoning, h.announced.message⟩⟩
  have hdelta (clean : List (GenerationDelta F)) (buffer buffer' : InferenceDeltaUtf8Buffer)
      (delta : GenerationDelta F) :
      Triple Monitor.accept (fun s m => Agrees draws (clean.flatMap GenerationDelta.toolCalls) s m ∧
          Carried buffer clean s)
        (.seq (.modify fun s => { s with utf8 := buffer' }) (applySanitizedGenerationDelta delta))
        (fun s m => Agrees draws ((clean ++ [delta]).flatMap GenerationDelta.toolCalls) s m ∧
          Carried buffer' (clean ++ [delta]) s) := by
    have hagrees : Triple Monitor.accept (Agrees draws (clean.flatMap GenerationDelta.toolCalls))
        (.seq (.modify fun s => { s with utf8 := buffer' }) (applySanitizedGenerationDelta delta))
        (Agrees draws ((clean ++ [delta]).flatMap GenerationDelta.toolCalls)) := by
      rw [List.flatMap_append, List.flatMap_singleton]
      refine Triple.seq (Triple.modify fun s m h => ?_) (triple_applySanitizedGenerationDelta delta)
      exact ⟨h.drawn, h.running, h.open_, h.count, h.reasoning, h.message, h.noReasoning,
        h.noMessage, h.tool, h.callId, h.seen, h.injective, h.covered⟩
    exact hagrees.with_after fun s h => h.step delta
  refine hstart.seq (Triple.seq (Triple.forEach (I := fun done s m =>
      Agrees draws ((onDeltas {} done).1.flatMap GenerationDelta.toolCalls) s m ∧
        Carried (onDeltas {} done).2 (onDeltas {} done).1 s) fun done x rest _ => ?_)
    (Triple.read fun s₀ => ?_))
  · rw [onDeltas_append]
    refine Triple.read fun s₀ => ?_
    by_cases hs₀ : s₀.utf8 = (onDeltas {} done).2
    · rw [hs₀]
      have hmodify := hdelta (onDeltas {} done).1 (onDeltas {} done).2
        ((onDeltas {} done).2.onDelta x).2 ((onDeltas {} done).2.onDelta x).1
      refine Triple.conseq (P := fun s m => s = s₀ ∧
        (Agrees draws ((onDeltas {} done).1.flatMap GenerationDelta.toolCalls) s m ∧
          Carried (onDeltas {} done).2 (onDeltas {} done).1 s)) ?_ (fun _ _ h => h) fun _ _ h => h
      rintro s m ⟨rfl, h⟩
      have hrun := hmodify s m h
      simp only [Writer.events, Writer.after, hs₀] at hrun ⊢
      exact hrun
    · rintro s m ⟨rfl, -, h⟩
      exact absurd h.utf8 hs₀
  · rintro s m ⟨rfl, h⟩
    have hrun := hdelta (onDeltas {} deltas).1 (onDeltas {} deltas).2 {}
      (onDeltas {} deltas).2.finish.1 s m h
    rw [h.2.utf8]
    exact hrun

end Whole

/-! ## The result -/

def Item.reasoning? : Item F → Option (List (Part F))
  | .reasoning _ _ content => some content
  | _ => none

def Item.message? : Item F → Option (List Text)
  | .message _ _ content => some (content.map Part.text)
  | _ => none

def Item.call? : Item F → Option (Text × Text)
  | .functionCall _ _ _ name arguments => some (name, arguments)
  | _ => none

/-- Two responses carry the same: the tool calls may come in another order. -/
structure SameResult (streamed whole : ResponseObject F) : Prop where
  outputText : streamed.outputText = whole.outputText
  usage : streamed.usage = whole.usage
  reasoning : streamed.output.filterMap Item.reasoning? = whole.output.filterMap Item.reasoning?
  message : streamed.output.filterMap Item.message? = whole.output.filterMap Item.message?
  calls : (streamed.output.filterMap Item.call?).Perm (whole.output.filterMap Item.call?)

/-- The deltas concatenate to the result: a tool call of the result is what the fragments of one
index bring. -/
structure Concatenates (deltas : List (GenerationDelta F)) (result : GenerationResult F) :
    Prop where
  text : result.text = deltas.flatMap GenerationDelta.content
  reasoning : result.reasoningText = deltas.flatMap GenerationDelta.reasoningText
  calls : ∃ indices : List ℕ, indices.Nodup ∧
    (∀ k, k ∈ indices ↔
      ∃ f ∈ deltas.flatMap GenerationDelta.toolCalls, f.index = k ∧ carries f = true) ∧
    result.toolCalls.map (fun call => (call.functionName, call.functionArguments)) =
      indices.map fun k =>
        (textFor Inference.ToolCallDelta.functionName (deltas.flatMap GenerationDelta.toolCalls) k,
          textFor Inference.ToolCallDelta.functionArguments (deltas.flatMap GenerationDelta.toolCalls) k)

section Result

variable {draws : Draws} {deltas : List (GenerationDelta F)} {s : ResponsesStreamState F}

/-- The parts of the output of one kind: sorting changes their order only. -/
theorem filterMap_output {β : Type} (p : Item F → Option β) (s : ResponsesStreamState F) :
    ((completedStreamOutput s).filterMap p).Perm
      ((s.reasoningIndex.bind fun _ =>
          p (.reasoning s.reasoningId .completed [.reasoningText s.reasoning])).toList ++
        ((s.messageIndex.bind fun _ => p (.message s.messageId .completed [outputTextPart s])).toList ++
          s.tools.values.filterMap fun t => p (toolItem t))) := by
  have hperm : ((completedStreamOutput s).filterMap p).Perm
      ((indexedOutput s).filterMap fun e => p e.2) := by
    rw [completedStreamOutput, List.filterMap_map]
    exact (List.mergeSort_perm _ _).filterMap _
  refine hperm.trans (List.Perm.of_eq ?_)
  have hone (index : Option ℕ) (item : Item F) :
      (index.toList.map fun i => (i, item)).filterMap (fun e => p e.2) =
        (index.bind fun _ => p item).toList := by
    cases index with
    | none => rfl
    | some i =>
        rw [Option.toList_some, List.map_singleton, Option.bind_some, List.filterMap_cons]
        cases p item <;> rfl
  rw [indexedOutput, List.filterMap_append, List.filterMap_append, hone, hone, List.filterMap_map]
  rfl

theorem reasoning_output (hs : Announced s) :
    (completedStreamOutput s).filterMap Item.reasoning? =
      if s.reasoning = [] then [] else [[.reasoningText s.reasoning]] := by
  have hperm := filterMap_output Item.reasoning? s
  by_cases hempty : s.reasoning = []
  · rw [if_pos hempty]
    simpa [Item.reasoning?, toolItem, hs.reasoning.2 hempty] using hperm
  · rw [if_neg hempty]
    obtain ⟨index, hindex⟩ := Option.ne_none_iff_exists'.1 (mt hs.reasoning.1 hempty)
    simpa [Item.reasoning?, toolItem, hindex] using hperm

theorem message_output (hs : Announced s) :
    (completedStreamOutput s).filterMap Item.message? =
      if s.text = [] then [] else [[s.text]] := by
  have hperm := filterMap_output Item.message? s
  by_cases hempty : s.text = []
  · rw [if_pos hempty]
    simpa [Item.message?, toolItem, hs.message.2 hempty] using hperm
  · rw [if_neg hempty]
    obtain ⟨index, hindex⟩ := Option.ne_none_iff_exists'.1 (mt hs.message.1 hempty)
    simpa [Item.message?, toolItem, hindex, outputTextPart, Part.text] using hperm

/-- The names and the arguments in the output, by the indices of the tool calls. -/
theorem calls_output (hs : Carried {} (sanitized deltas) s) :
    ((completedStreamOutput s).filterMap Item.call?).Perm
      (s.tools.keys.map fun k =>
        (textFor Inference.ToolCallDelta.functionName (deltas.flatMap GenerationDelta.toolCalls) k,
          textFor Inference.ToolCallDelta.functionArguments (deltas.flatMap GenerationDelta.toolCalls) k)) := by
  refine (filterMap_output Item.call? s).trans (List.Perm.of_eq ?_)
  have hreasoning : (s.reasoningIndex.bind fun _ => (none : Option (Text × Text))) = none :=
    Option.bind_fun_none _
  have hmessage : (s.messageIndex.bind fun _ => (none : Option (Text × Text))) = none :=
    Option.bind_fun_none _
  have htools : (s.tools.values.filterMap fun t => (toolItem (F := F) t).call?) =
      s.tools.values.map fun t => (t.name, t.arguments) :=
    congrFun List.filterMap_eq_map s.tools.values
  simp only [Item.call?, hreasoning, hmessage, Option.toList_none, List.nil_append]
  refine htools.trans ?_
  rw [Map.values, List.map_map, AList.keys, List.keys, List.map_map]
  refine List.map_congr_left fun e he => ?_
  have htool : tool s e.1 = e.2 := by
    rw [tool, Map.find, Map.mem_entries_iff.1 he, Option.getD_some]
  have hname := hs.name e.1
  have harguments := hs.arguments e.1
  rw [InferenceDeltaUtf8Buffer.sanitized_textFor
    InferenceDeltaUtf8Buffer.buffered_functionName, htool] at hname
  rw [InferenceDeltaUtf8Buffer.sanitized_textFor
    InferenceDeltaUtf8Buffer.buffered_functionArguments, htool] at harguments
  exact Prod.ext hname harguments

/-- The state has a tool call where a fragment of it came through. -/
theorem mem_keys_iff {m : Monitor F} {fragments : List Inference.ToolCallDelta} (h : Agrees draws fragments s m)
    (k : ℕ) : k ∈ s.tools.keys ↔ ∃ f ∈ fragments, f.index = k := by
  rw [← AList.mem_keys, ← AList.lookup_isSome, Option.isSome_iff_ne_none, Ne, h.seen, idsFor]
  simp

/-- The completed response carries what the response without a stream does. -/
theorem sameResult {m : Monitor F} (hs : Carried {} (sanitized deltas) s)
    (h : Agrees draws ((sanitized deltas).flatMap GenerationDelta.toolCalls) s m)
    {result : GenerationResult F} (hresult : Concatenates deltas result)
    (request : ResponsesRequest) (responseId model : Text) (createdAt : ℤ) :
    SameResult
      (streamResponseObject { s with
        usage := (result.promptTokens, result.cachedPromptTokens, result.completionTokens) }
        .completed (completedStreamOutput s) none)
      (resultToResponse draws request responseId model createdAt result) := by
  have htext : s.text = result.text := by
    rw [hs.text, InferenceDeltaUtf8Buffer.sanitized_content, hresult.text]
  have hreasoning : s.reasoning = result.reasoningText := by
    rw [hs.reasoning, InferenceDeltaUtf8Buffer.sanitized_reasoning, hresult.reasoning]
  refine ⟨htext, rfl, ?_, ?_, ?_⟩
  · rw [streamResponseObject, reasoning_output hs.announced, hreasoning, resultToResponse, List.filterMap_append,
      List.filterMap_append, List.filterMap_map]
    split_ifs <;> simp [Function.comp_def, Item.reasoning?]
  · rw [streamResponseObject, message_output hs.announced, htext, resultToResponse, List.filterMap_append,
      List.filterMap_append, List.filterMap_map]
    split_ifs <;> simp [Function.comp_def, Item.message?, Part.text]
  · refine (calls_output hs).trans ?_
    obtain ⟨indices, hnodup, hmem, hcalls⟩ := hresult.calls
    have hkeys : s.tools.keys.Perm indices := by
      refine (List.perm_ext_iff_of_nodup s.tools.keys_nodup hnodup).2 fun k => ?_
      rw [mem_keys_iff h, hmem, InferenceDeltaUtf8Buffer.exists_sanitized_iff]
    refine (hkeys.map _).trans (List.Perm.of_eq ?_)
    rw [← hcalls, resultToResponse, List.filterMap_append, List.filterMap_append]
    have hzip : result.toolCalls.zipIdx.map (fun e => (e.1.functionName, e.1.functionArguments)) =
        result.toolCalls.map fun call => (call.functionName, call.functionArguments) := by
      conv_rhs => rw [← List.zipIdx_map_fst 0 result.toolCalls, List.map_map]
      rfl
    rw [← hzip, List.filterMap_map]
    split_ifs
    all_goals exact (congrFun List.filterMap_eq_map _).symm

end Result

/-! ## The contract -/

/-- Whatever the sink takes is well formed, and where it takes all of a successful stream, that ends
with the completed response. -/
structure StreamContract [DecidableEq F] (s : ResponsesStreamState F)
    (deltas : List (GenerationDelta F)) (ending : Ending F) : Prop where
  wellFormed : ∀ room, WellFormed (eventsWritten s deltas ending room)
  completed : ∀ result, ending = .finished result → ∃ needed, ∀ room, needed ≤ room →
    ∃ e response, (eventsWritten s deltas ending room).getLast? = some e ∧
      e.body = .completed response ∧
      ∀ whole, result = some whole → Concatenates deltas whole →
        SameResult response
          (resultToResponse s.draws s.request s.responseId s.model s.createdAt whole)

theorem Agrees.withUsage {draws : Draws} {fragments : List Inference.ToolCallDelta}
    {s : ResponsesStreamState F} {m : Monitor F} (h : Agrees draws fragments s m)
    (usage : ℤ × ℤ × ℤ) : Agrees draws fragments { s with usage } m :=
  ⟨h.drawn, h.running, h.open_, h.count, h.reasoning, h.message, h.noReasoning, h.noMessage, h.tool,
    h.callId, h.seen, h.injective, h.covered⟩

section Contract

variable [DecidableEq F] {s : ResponsesStreamState F} {deltas : List (GenerationDelta F)}
  {ending : Ending F}

theorem wellFormed_eventsWritten (hsequence : s.sequence = 0) {m : Monitor F}
    (h : Follows Monitor.accept {} ((provider deltas ending).events s) m) (room : ℕ) :
    WellFormed (eventsWritten s deltas ending room) := by
  rw [eventsWritten, Writer.run_written]
  refine ⟨?_, h.take room⟩
  have hnumbered := (Numbered.provider deltas ending s).1
  rw [hsequence] at hnumbered
  rw [List.map_take, hnumbered, List.length_take, ← List.range_eq_range',
    List.take_range, List.range_eq_range']

/-- The end of a stream that failed. -/
theorem triple_failResponseStream {draws : Draws} {fragments : List Inference.ToolCallDelta}
    (error : ResponseError) :
    Triple Monitor.accept (Agrees (F := F) draws fragments) (failResponseStream error)
      (fun _ _ => True) := by
  intro s m h
  have haccept : Follows Monitor.accept m ((failResponseStream error).events s)
      { m with ended := true } := by
    have hevents : (failResponseStream error).events s = [⟨s.sequence,
        if s.request.includeObfuscation then
          some ((makeId "obf_" (s.draws.obfuscation s.sequence)).drop 4)
        else none, .failed (streamResponseObject s .failed [] (some error))⟩] := by
      simp only [failResponseStream, Writer.events, h.running, Bool.false_eq_true, if_false]
      rfl
    rw [hevents]
    refine Follows.single ?_
    rw [Monitor.accept, h.open_]
    rfl
  exact ⟨_, haccept, trivial⟩

end Contract

/-- The Responses stream keeps its contract exactly where it fails or no late fragment changes the
id of a tool call. -/
theorem provider_contract_iff [DecidableEq F] (draws : Draws) (request : ResponsesRequest)
    (responseId model : Text) (createdAt : ℤ) (deltas : List (GenerationDelta F))
    (ending : Ending F) :
    StreamContract (initialState draws request responseId model createdAt) deltas ending ↔
      ((∃ result, ending = .finished result) →
        CallIdsStay draws ((sanitized deltas).flatMap GenerationDelta.toolCalls)) := by
  have hbegin : Triple Monitor.accept (fun s m => Agrees draws [] s m ∧ Carried {} [] s)
      (beforeEnd deltas) _ := triple_beforeEnd deltas
  obtain ⟨m, hbefore, hagrees, hcarried⟩ := hbegin
    (initialState draws request responseId model createdAt) {}
    ⟨agrees_initialState request responseId model createdAt,
      carried_initialState request responseId model createdAt⟩
  have hevents := provider_events deltas ending
    (initialState draws request responseId model createdAt)
  generalize hs : (beforeEnd deltas).after
    (initialState draws request responseId model createdAt) = s at hagrees hcarried hevents
  constructor
  · rintro hcontract ⟨result, rfl⟩
    obtain ⟨-, m', hall⟩ := hcontract.wellFormed
      ((provider deltas (.finished result)).events
        (initialState draws request responseId model createdAt)).length
    rw [eventsWritten, Writer.run_written, List.take_length, hevents] at hall
    obtain ⟨m₁, hfirst, hend⟩ := follows_append.1 hall
    have hsame : m₁ = m := Option.some.inj (hfirst.symm.trans hbefore)
    rw [hsame] at hend
    exact callIdsStay_of_follows (hagrees.withUsage _) hend
  intro hstay
  have hend : ∃ m', Follows Monitor.accept m ((atEnd ending).events s) m' := by
    cases ending with
    | failed code message =>
        obtain ⟨m', hend, -⟩ := triple_failResponseStream _ s m hagrees
        exact ⟨m', hend⟩
    | finished result =>
        obtain ⟨m', hend, -⟩ := triple_finishResponseStream (hstay ⟨result, rfl⟩) _ m
          (hagrees.withUsage _)
        exact ⟨m', hend⟩
  obtain ⟨m', hend⟩ := hend
  have hall := hbefore.append hend
  rw [← hevents] at hall
  refine ⟨wellFormed_eventsWritten rfl hall, ?_⟩
  rintro result rfl
  refine ⟨((provider deltas (.finished result)).events
    (initialState draws request responseId model createdAt)).length, fun room hroom => ?_⟩
  obtain ⟨usage, husage, hatEnd⟩ : ∃ usage : ℤ × ℤ × ℤ,
      (∀ whole, result = some whole →
        usage = (whole.promptTokens, whole.cachedPromptTokens, whole.completionTokens)) ∧
      (atEnd (.finished result)).events s = finishResponseStream.events { s with usage } := by
    refine ⟨_, ?_, rfl⟩
    rintro whole rfl
    rfl
  obtain ⟨texts, n, last, hfinish, hlast⟩ := finish_events (hagrees.withUsage usage).running
  refine ⟨last, _, ?_, hlast, ?_⟩
  · rw [eventsWritten, Writer.run_written, List.take_of_length_le hroom, hevents, hatEnd, hfinish,
      ← List.append_assoc, ← List.append_assoc]
    exact List.getLast?_concat
  · intro whole hwhole hconcatenates
    rw [husage whole hwhole]
    exact sameResult hcarried hagrees hconcatenates request responseId model createdAt

def renamedCall : List (GenerationDelta ℕ) :=
  [{ toolCalls := [{ id := ['a'], functionName := ['f'] }] }, { toolCalls := [{ id := ['b'] }] }]

theorem renamedCall_breaks_contract :
    ¬ StreamContract
      (initialState ⟨0, 0, fun _ => 0, fun _ => 0, fun _ => 0⟩ ⟨false, false⟩ [] [] 0) renamedCall
      (.finished none) := by
  intro h
  obtain ⟨-, m, hm⟩ := h.wellFormed 20
  have hnone : ((eventsWritten
      (initialState ⟨0, 0, fun _ => 0, fun _ => 0, fun _ => 0⟩ ⟨false, false⟩ [] [] 0) renamedCall
      (.finished none) 20).foldlM Monitor.accept {}).isNone = true := by decide +kernel
  rw [Follows] at hm
  rw [hm] at hnone
  cases hnone

end InferDeck.Gateway.Responses
