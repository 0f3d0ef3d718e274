import InferDeck.QueueSelection

/-!
# Does the queue always name a next request

The two filters of the selection loop work against each other: a prepared actionable waiter
excludes every unprepared one, and the resource barrier excludes every waiter below it. When each
prepared waiter is below an unprepared barrier nobody is named, although the barrier itself could
proceed. That is the only way in which an actionable waiter at or above the barrier is passed over.
-/

namespace InferDeck.Model.BackendCoordinator

open InferDeck.Foundation InferDeck.Selection

/-- An actionable waiter that the resource barrier does not outrank: it is the highest barrier,
scores at least as high, or there is none. -/
def Servable (c : BackendCoordinator) (now : TimePoint) (w : SlotWaiter) : Prop :=
  w ∈ c.waiters.waiters ∧ c.waiterIsActionableLocked w now ∧
    ∀ barrier, c.HighestBarrier now barrier →
      w.id = barrier.id ∨ barrier.score now ≤ w.score now

def SelectionProgress (c : BackendCoordinator) (now : TimePoint) : Prop :=
  (∃ w, c.Servable now w) → ∃! id, c.waiterIsNextLocked id now

/-- Some prepared waiter is actionable, and every actionable waiter that is prepared or an
independent sidecar is an ordinary one with a score below the highest barrier. -/
def PreparedBelowBarrier (c : BackendCoordinator) (now : TimePoint) : Prop :=
  (∃ v ∈ c.waiters.waiters, v.prepared ∧ c.waiterIsActionableLocked v now) ∧
    ∃ barrier, c.HighestBarrier now barrier ∧
      ∀ v ∈ c.waiters.waiters, c.waiterIsActionableLocked v now →
        (v.prepared ∨ c.modelIsIndependentSidecarLocked v.model) →
          c.modelIsIndependentSidecarLocked v.model = false ∧ v.score now < barrier.score now

variable {c : BackendCoordinator} {now : TimePoint}

theorem not_belowBarrier_of_servable {w : SlotWaiter} (h : c.Servable now w) :
    ¬ c.belowBarrier w now := by
  intro hbelow
  obtain ⟨barrier, hbarrier, _, hlt⟩ := (belowBarrier_iff h.1).1 hbelow
  rcases h.2.2 barrier hbarrier with hid | hle
  · rw [c.waiters.eq_of_id_eq h.1 hbarrier.1 hid] at hlt
    exact lt_irrefl _ hlt
  · exact absurd hlt (not_lt.2 hle)

theorem selected_eq_none_iff :
    c.selected now = none ↔ ∀ w ∈ c.waiters.waiters, c.candidate now w = false := by
  rw [← Option.not_isSome_iff_eq_none, selected_isSome_iff]
  simp

/-- With a servable waiter queued, the winner is missing exactly in the two-filter deadlock. -/
theorem selected_eq_none_iff_of_servable (h : ∃ w, c.Servable now w) :
    c.selected now = none ↔ c.PreparedBelowBarrier now := by
  obtain ⟨w, hw⟩ := h
  rw [selected_eq_none_iff]
  constructor
  · intro hnone
    have hprepared : c.hasPrepared now := by
      by_contra hp
      have hcand : c.candidate now w :=
        candidate_iff.2 ⟨hw.2.1, fun h => absurd h hp, not_belowBarrier_of_servable hw⟩
      simp [hnone w hw.1] at hcand
    have hbelow : ∀ v ∈ c.waiters.waiters, c.waiterIsActionableLocked v now →
        (v.prepared ∨ c.modelIsIndependentSidecarLocked v.model) → c.belowBarrier v now := by
      intro v hv hact hkind
      by_contra hb
      have hcand : c.candidate now v := candidate_iff.2 ⟨hact, fun _ => hkind, hb⟩
      simp [hnone v hv] at hcand
    obtain ⟨p, hp, hpp, hpact⟩ := hasPrepared_iff.1 hprepared
    obtain ⟨barrier, hbarrier, _⟩ := (belowBarrier_iff hp).1 (hbelow p hp hpact (Or.inl hpp))
    refine ⟨⟨p, hp, hpp, hpact⟩, barrier, hbarrier, ?_⟩
    intro v hv hact hkind
    obtain ⟨b, hb, hlow⟩ := (belowBarrier_iff hv).1 (hbelow v hv hact hkind)
    have hsame : b = barrier := Option.some.inj
      ((resourceBarrier_eq_some_iff.2 hb).symm.trans (resourceBarrier_eq_some_iff.2 hbarrier))
    exact hsame ▸ hlow
  · rintro ⟨hprepared, barrier, hbarrier, hall⟩ v hv
    by_contra hcand
    obtain ⟨hact, hkind, hbelow⟩ := candidate_iff.1 (Bool.eq_true_of_not_eq_false hcand)
    exact hbelow ((belowBarrier_iff hv).2
      ⟨barrier, hbarrier, hall v hv hact (hkind (hasPrepared_iff.2 hprepared))⟩)

/-- Where no continuation hold is valid, selection makes progress unless every prepared waiter is
stranded below the barrier while some servable waiter is queued. -/
theorem selectionProgress_iff (c : BackendCoordinator) (now : TimePoint)
    (hhold : ∀ name, c.continuationHoldValidLocked name now = false) :
    c.SelectionProgress now ↔ ¬ ((∃ w, c.Servable now w) ∧ c.PreparedBelowBarrier now) := by
  unfold SelectionProgress
  rw [existsUnique_next_iff, nextWaiter_eq_selected hhold, not_and]
  refine forall_congr' (fun hservable => ?_)
  rw [← selected_eq_none_iff_of_servable hservable, Option.isSome_iff_ne_none]

/-- A resident single-slot model with an admission pool of its own and its slot free. -/
def residentModel (name : String) : Backend where
  info := { name, admissionPool := name, concurrencyLimit := 1, nSlots := 1 }
  loaded := true
  slots := [false]

/-- Waiter 1 is prepared. Waiter 2 has the higher priority and became the resource barrier when the
capacity of its resident model was refused; the resources have changed since. -/
def strandedQueue : BackendCoordinator where
  registry := { entries := ∅, factories := [] }
  instances := (AList.insert "coder" (residentModel "coder") ∅).insert "chat"
    (residentModel "chat")
  resourceGeneration := 1
  waiters :=
    { waiters :=
        [{ id := 1, model := "chat", priority := 0, enqueued := 0, deadline := seconds 30,
           reservationKey := "", prepared := true },
         { id := 2, model := "coder", priority := 50, enqueued := 0, deadline := seconds 30,
           reservationKey := "", resourceBlocked := true, demandPrepared := true,
           demand := some {}, retryAfterGeneration := some 0 }]
      nextWaiterId := 3
      increasing := by decide
      below := by decide }

theorem strandedQueue_no_hold (name : String) (now : TimePoint) :
    strandedQueue.continuationHoldValidLocked name now = false := by
  simp [continuationHoldValidLocked, strandedQueue]

theorem strandedQueue_selects_nobody :
    (∀ name, strandedQueue.continuationHoldValidLocked name 0 = false) ∧
      ¬ strandedQueue.SelectionProgress 0 := by
  refine ⟨fun name => strandedQueue_no_hold name 0, ?_⟩
  intro hprogress
  have hbarrier : strandedQueue.resourceBarrier 0 = strandedQueue.waiters.waiters[1]? := by decide
  have hservable : strandedQueue.Servable 0 (strandedQueue.waiters.waiters[1]) := by
    refine ⟨by decide, by decide, ?_⟩
    intro barrier h
    have heq := hbarrier.symm.trans (resourceBarrier_eq_some_iff.2 h)
    exact Or.inl (congrArg SlotWaiter.id (Option.some.inj heq))
  have hnext := existsUnique_next_iff.1 (hprogress ⟨_, hservable⟩)
  have hnone : strandedQueue.nextWaiter 0 = none := by decide
  simp [hnone] at hnext

theorem strandedQueue_is_stranded :
    strandedQueue.SelectionProgress 0 ↔
      ¬ ((∃ w, strandedQueue.Servable 0 w) ∧ strandedQueue.PreparedBelowBarrier 0) :=
  selectionProgress_iff strandedQueue 0 (fun name => strandedQueue_no_hold name 0)

end InferDeck.Model.BackendCoordinator
