import InferDeck.QueueSelection

/-!
# The reported queue

`queue()` lists the waiting requests in the order a client is told they will be served: the
actionable ones first, then the resource barriers, then the rest, each group with prepared waiters
first, then by score and by id. The selection `waiter_is_next_locked` uses a different rule, a
filtered maximum. The two agree on the first place except where an independent sidecar is next and
the sort puts another actionable waiter before it.
-/

namespace InferDeck.Model

open InferDeck.Foundation InferDeck.Selection

structure QueueInfo where
  id : ℕ
  model : String
  priority : ℤ
  position : ℕ
  queuedMs : ℤ
  remainingMs : ℤ
  deriving DecidableEq, Repr

structure QueueOrderKey where
  category : ℕ := 0
  actionable : Bool
  barrier : Bool
  independent : Bool
  prepared : Bool
  score : ℤ
  id : ℕ
  deriving DecidableEq, Repr

namespace QueueOrderKey

/-- The comparison `std::sort` is called with. -/
def before (a b : QueueOrderKey) : Bool :=
  if a.category != b.category then decide (a.category < b.category)
  else if a.prepared != b.prepared then decide (b.prepared < a.prepared)
  else if a.score != b.score then decide (b.score < a.score)
  else decide (a.id < b.id)

def place (k : QueueOrderKey) : ℕ ×ₗ Boolᵒᵈ ×ₗ ℤᵒᵈ ×ₗ ℕ :=
  toLex (k.category, toLex (OrderDual.toDual k.prepared, toLex (OrderDual.toDual k.score, k.id)))

theorem place_lt_iff (a b : QueueOrderKey) :
    a.place < b.place ↔ a.category < b.category ∨ a.category = b.category ∧
      (b.prepared < a.prepared ∨ a.prepared = b.prepared ∧
        (b.score < a.score ∨ a.score = b.score ∧ a.id < b.id)) := by
  simp only [place, Prod.Lex.toLex_lt_toLex, OrderDual.toDual_lt_toDual, OrderDual.toDual_inj]

theorem before_eq (a b : QueueOrderKey) : a.before b = decide (a.place < b.place) := by
  rw [Bool.eq_iff_iff, decide_eq_true_iff, place_lt_iff, before]
  by_cases hcategory : a.category = b.category
  · by_cases hprepared : a.prepared = b.prepared
    · by_cases hscore : a.score = b.score
      · simp [hcategory, hprepared, hscore]
      · simp [hcategory, hprepared, hscore]
    · simp [hcategory, hprepared]
  · simp [hcategory]

end QueueOrderKey

namespace BackendCoordinator

variable (c : BackendCoordinator)

def orderKey (now : TimePoint) (waiter : SlotWaiter) : QueueOrderKey where
  actionable := c.waiterIsActionableLocked waiter now
  barrier := c.waiterIsResourceBarrierLocked waiter
  independent := c.modelIsIndependentSidecarLocked waiter.model
  prepared := c.waiterIsActionableLocked waiter now && waiter.prepared
  score := waiter.score now
  id := waiter.id

def highestBarrierScore (now : TimePoint) : Option ℤ :=
  ((c.waiters.waiters.filter c.waiterIsResourceBarrierLocked).map
    (SlotWaiter.score · now)).max?

/-- The second pass: waiters below the barrier count as neither actionable nor prepared. -/
def settledKey (now : TimePoint) (waiter : SlotWaiter) : QueueOrderKey :=
  let key := c.orderKey now waiter
  let held := !key.independent && !key.barrier &&
    (c.highestBarrierScore now).any fun highest => decide (key.score < highest)
  let actionable := key.actionable && !held
  { key with
    actionable := actionable
    prepared := key.prepared && !held
    category := if actionable then 0 else if key.barrier then 1 else 2 }

def queueOrder (now : TimePoint) : List SlotWaiter :=
  c.waiters.waiters.mergeSort fun a b => !(c.settledKey now b).before (c.settledKey now a)

def queue (now : TimePoint) : List QueueInfo :=
  (c.queueOrder now).mapIdx fun i waiter =>
    { id := waiter.id
      model := waiter.model
      priority := waiter.priority
      position := i + 1
      queuedMs := wholeMilliseconds (now - waiter.enqueued)
      remainingMs := max 0 (wholeMilliseconds (waiter.deadline - now)) }

variable {c}

/-! The order of the report. -/

theorem settledKey_id (now : TimePoint) (waiter : SlotWaiter) :
    (c.settledKey now waiter).id = waiter.id := rfl

theorem settledKey_score (now : TimePoint) (waiter : SlotWaiter) :
    (c.settledKey now waiter).score = waiter.score now := rfl

theorem place_injOn {now : TimePoint} {a b : SlotWaiter} (ha : a ∈ c.waiters.waiters)
    (hb : b ∈ c.waiters.waiters)
    (h : (c.settledKey now a).place = (c.settledKey now b).place) : a = b := by
  apply c.waiters.eq_of_id_eq ha hb
  have hid := congrArg (fun p => (ofLex (ofLex (ofLex p).2).2).2) h
  exact hid

theorem not_before_eq (now : TimePoint) (a b : SlotWaiter) :
    (!(c.settledKey now b).before (c.settledKey now a)) =
      decide ((c.settledKey now a).place ≤ (c.settledKey now b).place) := by
  rw [QueueOrderKey.before_eq, ← decide_not]
  simp only [not_lt]

theorem queueOrder_head_iff {now : TimePoint} {w : SlotWaiter} :
    (c.queueOrder now).head? = some w ↔ w ∈ c.waiters.waiters ∧
      ∀ v ∈ c.waiters.waiters, ¬(c.settledKey now v).place < (c.settledKey now w).place := by
  rw [queueOrder, head_mergeSort_eq_some_iff (not_before_eq now)]
  · simp only [not_lt]
  · intro a ha b hb h
    exact place_injOn ha hb h

/-- Exactly the first waiter of the order is reported at position 1. -/
theorem listed_first_iff {now : TimePoint} {id : ℕ} :
    (∃ info ∈ c.queue now, info.id = id ∧ info.position = 1) ↔
      ∃ w, (c.queueOrder now).head? = some w ∧ w.id = id := by
  cases hq : c.queueOrder now with
  | nil => simp [queue, hq]
  | cons first rest =>
      simp only [queue, hq, List.mapIdx_cons, List.head?_cons, Option.some.injEq,
        exists_eq_left']
      constructor
      · rintro ⟨info, hmem, rfl, hpos⟩
        rcases List.mem_cons.1 hmem with rfl | hrest
        · rfl
        · obtain ⟨i, hi, rfl⟩ := List.mem_mapIdx.1 hrest
          simp at hpos
      · rintro rfl
        exact ⟨_, List.mem_cons_self, rfl, rfl⟩

/-! Agreement with the selection. -/

def OutscoredByBarrier (c : BackendCoordinator) (w : SlotWaiter) (now : TimePoint) : Prop :=
  ∃ b ∈ c.waiters.waiters, c.waiterIsResourceBarrierLocked b ∧ w.score now < b.score now

theorem highestBarrierScore_any_iff {now : TimePoint} {w : SlotWaiter} :
    ((c.highestBarrierScore now).any fun highest => decide (w.score now < highest)) ↔
      c.OutscoredByBarrier w now := by
  have hbarrier : ∀ s, s ∈ (c.waiters.waiters.filter c.waiterIsResourceBarrierLocked).map
      (SlotWaiter.score · now) ↔
      ∃ b ∈ c.waiters.waiters, c.waiterIsResourceBarrierLocked b ∧ b.score now = s := by
    intro s
    simp only [List.mem_map, List.mem_filter, and_assoc]
  cases hmax : c.highestBarrierScore now with
  | none =>
      rw [highestBarrierScore, List.max?_eq_none_iff] at hmax
      rw [hmax] at hbarrier
      constructor
      · simp
      · rintro ⟨b, hb, hbar, -⟩
        simpa using (hbarrier (b.score now)).2 ⟨b, hb, hbar, rfl⟩
  | some highest =>
      obtain ⟨hmem, hle⟩ := List.max?_eq_some_iff.1 hmax
      simp only [Option.any_some, decide_eq_true_iff]
      constructor
      · intro hlt
        obtain ⟨b, hb, hbar, rfl⟩ := (hbarrier highest).1 hmem
        exact ⟨b, hb, hbar, hlt⟩
      · rintro ⟨b, hb, hbar, hlt⟩
        exact hlt.trans_le (hle _ ((hbarrier _).2 ⟨b, hb, hbar, rfl⟩))

theorem belowBarrier_iff_outscored {now : TimePoint} {w : SlotWaiter}
    (hw : w ∈ c.waiters.waiters) : c.belowBarrier w now ↔
      ¬c.modelIsIndependentSidecarLocked w.model ∧ c.OutscoredByBarrier w now := by
  rw [belowBarrier_iff hw]
  constructor
  · rintro ⟨b, ⟨hb, hbar, -⟩, hind, hlt⟩
    exact ⟨by simp [hind], b, hb, hbar, hlt⟩
  · rintro ⟨hind, v, hv, hvbar, hlt⟩
    cases hres : c.resourceBarrier now with
    | none => simp [resourceBarrier_eq_none_iff.1 hres v hv] at hvbar
    | some b =>
        have hbest := resourceBarrier_eq_some_iff.1 hres
        have hle := SlotWaiter.score_le_of_rank_le (hbest.2.2 v hv hvbar)
        exact ⟨b, hbest, by simpa using hind, hlt.trans_le hle⟩

def ShownActionable (c : BackendCoordinator) (w : SlotWaiter) (now : TimePoint) : Prop :=
  c.waiterIsActionableLocked w now ∧
    (c.modelIsIndependentSidecarLocked w.model ∨ c.waiterIsResourceBarrierLocked w ∨
      ¬c.OutscoredByBarrier w now)

/-- The report puts the waiter `q`, shown as actionable, before the waiter `w`. -/
def Overtakes (c : BackendCoordinator) (q w : SlotWaiter) (now : TimePoint) : Prop :=
  c.ShownActionable q now ∧
    (q.prepared ∧ ¬w.prepared ∨ q.prepared = w.prepared ∧ w.rank now < q.rank now)

theorem settledKey_actionable_iff {now : TimePoint} {w : SlotWaiter} :
    (c.settledKey now w).actionable ↔ c.ShownActionable w now := by
  have hkey : (c.settledKey now w).actionable = (c.waiterIsActionableLocked w now &&
      !(!c.modelIsIndependentSidecarLocked w.model && !c.waiterIsResourceBarrierLocked w &&
        (c.highestBarrierScore now).any fun highest => decide (w.score now < highest))) := rfl
  rw [hkey, ShownActionable, ← highestBarrierScore_any_iff]
  cases c.modelIsIndependentSidecarLocked w.model <;>
    cases c.waiterIsResourceBarrierLocked w <;> simp

theorem settledKey_category_eq_zero_iff {now : TimePoint} {w : SlotWaiter} :
    (c.settledKey now w).category = 0 ↔ c.ShownActionable w now := by
  rw [← settledKey_actionable_iff]
  simp only [settledKey]
  split_ifs with hact hbar <;> simp_all

theorem settledKey_prepared {now : TimePoint} {w : SlotWaiter} (h : c.ShownActionable w now) :
    (c.settledKey now w).prepared = w.prepared := by
  have hact := settledKey_actionable_iff.2 h
  simp only [settledKey, orderKey, Bool.and_eq_true] at hact ⊢
  simp [hact]

/-- Before a waiter shown as actionable stand exactly the waiters that overtake it. -/
theorem place_lt_iff {now : TimePoint} {q w : SlotWaiter} (hw : c.ShownActionable w now) :
    (c.settledKey now q).place < (c.settledKey now w).place ↔ c.Overtakes q w now := by
  have hcategory := settledKey_category_eq_zero_iff.2 hw
  rw [QueueOrderKey.place_lt_iff, hcategory, settledKey_prepared hw]
  simp only [Nat.not_lt_zero, false_or]
  rw [settledKey_category_eq_zero_iff]
  apply and_congr_right
  intro hq
  rw [settledKey_prepared hq, SlotWaiter.rank, SlotWaiter.rank, Prod.Lex.toLex_lt_toLex]
  simp only [OrderDual.toDual_lt_toDual, Bool.lt_iff, settledKey_score, settledKey_id]
  apply or_congr
  · simp [and_comm]
  · exact and_congr_right fun _ => or_congr_right (and_congr_left fun _ => eq_comm)

/-- A waiter shown as actionable is reported first exactly when no waiter overtakes it. -/
theorem listed_first_iff_not_overtaken {now : TimePoint} {w : SlotWaiter}
    (hw : w ∈ c.waiters.waiters) (hshown : c.ShownActionable w now) :
    (∃ info ∈ c.queue now, info.id = w.id ∧ info.position = 1) ↔
      ∀ q ∈ c.waiters.waiters, ¬c.Overtakes q w now := by
  rw [listed_first_iff]
  constructor
  · rintro ⟨v, hv, hid⟩ q hq
    obtain ⟨hmem, hfirst⟩ := queueOrder_head_iff.1 hv
    rw [c.waiters.eq_of_id_eq hmem hw hid] at hfirst
    rw [← place_lt_iff hshown]
    exact hfirst q hq
  · intro hnone
    refine ⟨w, queueOrder_head_iff.2 ⟨hw, fun v hv => ?_⟩, rfl⟩
    rw [place_lt_iff hshown]
    exact hnone v hv

theorem candidate_iff_of_mem {now : TimePoint} {w : SlotWaiter} (hw : w ∈ c.waiters.waiters) :
    c.candidate now w ↔ c.waiterIsActionableLocked w now ∧
      (c.modelIsIndependentSidecarLocked w.model ∨
        (c.hasPrepared now → w.prepared) ∧ ¬c.OutscoredByBarrier w now) := by
  rw [candidate_iff, belowBarrier_iff_outscored hw]
  tauto

theorem shown_of_candidate {now : TimePoint} {w : SlotWaiter} (hw : w ∈ c.waiters.waiters)
    (h : c.candidate now w) : c.ShownActionable w now := by
  obtain ⟨hact, hind | ⟨-, hbarrier⟩⟩ := (candidate_iff_of_mem hw).1 h
  · exact ⟨hact, .inl hind⟩
  · exact ⟨hact, .inr (.inr hbarrier)⟩

/-- A selected waiter of a conversation or media model is never overtaken in the report. -/
theorem not_overtakes_of_selected {now : TimePoint} {w q : SlotWaiter}
    (hw : c.selected now = some w) (hind : ¬c.modelIsIndependentSidecarLocked w.model)
    (hq : q ∈ c.waiters.waiters) : ¬c.Overtakes q w now := by
  obtain ⟨hmem, hcand, hmax⟩ := selected_eq_some_iff.1 hw
  obtain ⟨-, hside | ⟨hprep, hbarrier⟩⟩ := (candidate_iff_of_mem hmem).1 hcand
  · exact absurd hside hind
  rintro ⟨⟨hact, -⟩, ⟨hqprep, hwprep⟩ | ⟨heq, hrank⟩⟩
  · exact hwprep (hprep (hasPrepared_iff.2 ⟨q, hq, hqprep, hact⟩))
  · have hqcand : c.candidate now q := by
      refine (candidate_iff_of_mem hq).2 ⟨hact, .inr ⟨fun hhas => ?_, ?_⟩⟩
      · rw [heq]
        exact hprep hhas
      · rintro ⟨b, hb, hbar, hlt⟩
        exact hbarrier ⟨b, hb, hbar, (SlotWaiter.score_le_of_rank_le hrank.le).trans_lt hlt⟩
    exact absurd hrank (hmax q hq hqcand).not_gt

def ReportAgrees (c : BackendCoordinator) (now : TimePoint) : Prop :=
  ∀ id, c.waiterIsNextLocked id now → ∃ info ∈ c.queue now, info.id = id ∧ info.position = 1

/-- Without a continuation hold the report agrees with the selection exactly when every actionable
independent sidecar that is overtaken in the report also ranks below another candidate. -/
theorem reportAgrees_iff (c : BackendCoordinator) (now : TimePoint)
    (hold : ∀ name, c.continuationHoldValidLocked name now = false) :
    c.ReportAgrees now ↔ ∀ w ∈ c.waiters.waiters, c.modelIsIndependentSidecarLocked w.model →
      c.waiterIsActionableLocked w now → ∀ q ∈ c.waiters.waiters, c.Overtakes q w now →
        ∃ v ∈ c.waiters.waiters, c.candidate now v ∧ w.rank now < v.rank now := by
  have hnext : ∀ id, c.waiterIsNextLocked id now ↔ ∃ w, c.selected now = some w ∧ w.id = id := by
    intro id
    rw [waiterIsNextLocked_iff, nextWaiter_eq_selected hold]
  constructor
  · intro hagrees w hw hind hact q hq hover
    by_contra hnone
    push Not at hnone
    have hcand : c.candidate now w := (candidate_iff_of_mem hw).2 ⟨hact, .inl hind⟩
    have hsel : c.selected now = some w := selected_eq_some_iff.2 ⟨hw, hcand, hnone⟩
    have hfirst := hagrees w.id ((hnext w.id).2 ⟨w, hsel, rfl⟩)
    exact (listed_first_iff_not_overtaken hw (shown_of_candidate hw hcand)).1 hfirst q hq hover
  · intro hbound id hid
    obtain ⟨w, hsel, rfl⟩ := (hnext id).1 hid
    obtain ⟨hw, hcand, hmax⟩ := selected_eq_some_iff.1 hsel
    apply (listed_first_iff_not_overtaken hw (shown_of_candidate hw hcand)).2
    intro q hq
    by_cases hind : c.modelIsIndependentSidecarLocked w.model
    · intro hover
      obtain ⟨v, hv, hvcand, hlt⟩ := hbound w hw hind ((candidate_iff_of_mem hw).1 hcand).1 q hq hover
      exact absurd hlt (hmax v hv hvcand).not_gt
    · exact not_overtakes_of_selected hsel hind hq

/-- A chat request that was prepared before, and an embedding request of higher priority for a CPU
sidecar. Both models are resident and idle. -/
def sidecarAhead : BackendCoordinator where
  registry := { entries := ∅, factories := [] }
  instances := AList.insert "chat"
    { info := { name := "chat", admissionPool := "chat", concurrencyLimit := 1, nSlots := 1 }
      loaded := true
      slots := [false] } (AList.insert "embed"
    { info := { name := "embed", admissionPool := "embed", concurrencyLimit := 1, nSlots := 1,
                role := .embedding, compute := .cpu }
      loaded := true
      slots := [false] } ∅)
  waiters :=
    { waiters :=
        [{ id := 1, model := "chat", priority := 0, enqueued := 0, deadline := seconds 30,
           reservationKey := "", prepared := true },
         { id := 2, model := "embed", priority := 10, enqueued := 0, deadline := seconds 30,
           reservationKey := "" }]
      nextWaiterId := 3
      increasing := by decide
      below := by decide }

theorem sidecarAhead_no_hold (name : String) :
    sidecarAhead.continuationHoldValidLocked name 0 = false := by
  simp [continuationHoldValidLocked, sidecarAhead]

theorem sidecarAhead_overtaken :
    sidecarAhead.Overtakes sidecarAhead.waiters.waiters[0] sidecarAhead.waiters.waiters[1] 0 :=
  ⟨⟨by decide, .inr (.inr (by
    rintro ⟨b, hb, hbar, -⟩
    revert b
    decide))⟩, .inl ⟨rfl, by decide⟩⟩

/-- The sidecar request is next, but the report lists the chat request first. -/
theorem sidecarAhead_not_reportAgrees :
    (∀ name, sidecarAhead.continuationHoldValidLocked name 0 = false) ∧
      ¬sidecarAhead.ReportAgrees 0 := by
  refine ⟨sidecarAhead_no_hold, ?_⟩
  intro hagrees
  have hfirst := hagrees 2 (by decide)
  have hshown : sidecarAhead.ShownActionable sidecarAhead.waiters.waiters[1] 0 :=
    ⟨by decide, .inl (by decide)⟩
  exact (listed_first_iff_not_overtaken (by decide) hshown).1 hfirst _ (by decide)
    sidecarAhead_overtaken

/-- The condition of `reportAgrees_iff` fails for the two requests. -/
theorem sidecarAhead_condition : sidecarAhead.ReportAgrees 0 ↔
    ∀ w ∈ sidecarAhead.waiters.waiters, sidecarAhead.modelIsIndependentSidecarLocked w.model →
      sidecarAhead.waiterIsActionableLocked w 0 →
      ∀ q ∈ sidecarAhead.waiters.waiters, sidecarAhead.Overtakes q w 0 →
        ∃ v ∈ sidecarAhead.waiters.waiters, sidecarAhead.candidate 0 v ∧ w.rank 0 < v.rank 0 :=
  reportAgrees_iff sidecarAhead 0 sidecarAhead_no_hold

end BackendCoordinator

end InferDeck.Model
