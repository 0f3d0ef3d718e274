import InferDeck.AcquireTurn
import InferDeck.SelectionProgress

/-!
# When a full model blocks the head of the line

A waiter with a prepared demand stays actionable although its model has no free slot or its
admission pool is full. If such a waiter ranks first it is selected, and can only wait.
-/

namespace InferDeck.Model.BackendCoordinator

open InferDeck.Foundation

/-- The waiter's model is loaded and healthy, with a free slot and admission room. -/
def Runnable (c : BackendCoordinator) (opts : AcquireSlotOptions) (w : SlotWaiter) : Prop :=
  w ∈ c.waiters.waiters ∧ w.preparing = false ∧
    (opts.demand → w.demandPrepared) ∧ (opts.prepareCapacity → w.capacityPrepared) ∧
    c.admissionPoolAllowsLocked w.model ∧
    ∃ backend, c.readyBackend w.model = some backend ∧ 0 < backend.nFreeSlots

/-- This turn of the waiter is not spent waiting: it calls back, leaves, or takes a slot. -/
def CanStep (c : BackendCoordinator) (opts : AcquireSlotOptions) (w : SlotWaiter)
    (now : TimePoint) : Prop :=
  match c.acquireTurn opts w now with
  | .wait => False
  | .takeSlot => ∃ backend, c.readyBackend w.model = some backend ∧ 0 < backend.nFreeSlots
  | _ => True

/-- Whenever some waiter could run, the selected waiter can make a step. -/
def NoHeadOfLineBlocking (c : BackendCoordinator) (opts : ℕ → AcquireSlotOptions)
    (now : TimePoint) : Prop :=
  (∃ w, c.Runnable (opts w.id) w) →
    ∀ s ∈ c.waiters.waiters, c.waiterIsNextLocked s.id now → c.CanStep (opts s.id) s now

/-- Fully prepared for a ready model that has no free slot or no admission room. -/
def Full (c : BackendCoordinator) (opts : AcquireSlotOptions) (w : SlotWaiter) : Prop :=
  ∃ backend, c.readyBackend w.model = some backend ∧
    (opts.demand → w.demandPrepared) ∧
    (opts.prepareCapacity → w.demandPrepared → w.capacityPrepared) ∧
    (w.capacityPrepared → opts.prepareCapacity → c.reservationsOutgrown w = false) ∧
    (c.admissionPoolAllowsLocked w.model = false ∨ backend.nFreeSlots ≤ 0)

/-- Actionable, and not set aside for a prepared waiter. -/
def Contender (c : BackendCoordinator) (now : TimePoint) (w : SlotWaiter) : Prop :=
  w ∈ c.waiters.waiters ∧ c.waiterIsActionableLocked w now ∧
    ((∃ v ∈ c.waiters.waiters, v.prepared ∧ c.waiterIsActionableLocked v now) →
      w.prepared ∨ c.modelIsIndependentSidecarLocked w.model)

variable {c : BackendCoordinator} {opts : AcquireSlotOptions} {now : TimePoint} {s w : SlotWaiter}

theorem actionable_spec (h : c.waiterIsActionableLocked w now) :
    w.model ∉ c.drainingModels ∧ w.model ∉ c.resizingModels ∧ w.preparing = false ∧
      c.awaitsRetry w = false := by
  unfold waiterIsActionableLocked at h
  by_contra hnot
  have hclosed : (decide (w.model ∈ c.drainingModels) || decide (w.model ∈ c.resizingModels) ||
      w.preparing || c.awaitsRetry w) = true := by
    simp only [Bool.or_eq_true, decide_eq_true_eq]
    by_contra hopen
    simp only [not_or, Bool.not_eq_true] at hopen
    exact hnot ⟨hopen.1.1.1, hopen.1.1.2, hopen.1.2, hopen.2⟩
  simp [hclosed] at h

theorem readyBackend_eq_filter (name : String) :
    c.readyBackend name = (c.residentBackend name).filter Backend.executionHealthy := by
  rw [readyBackend, residentBackend, Option.filter_filter]

/-- A model that is not ready is loaded, or the request gives up. -/
theorem loadTurn_ne_wait (opts : AcquireSlotOptions) (hact : c.waiterIsActionableLocked s now)
    (hnext : c.waiterIsNextLocked s.id now) :
    c.loadTurn opts s now = .load ∨ ∃ resident, c.loadTurn opts s now = .notReady resident := by
  obtain ⟨_, _, hprep, hretry⟩ := actionable_spec hact
  unfold loadTurn
  cases opts.prepare with
  | true => simp [hnext, hprep, hretry]
  | false => simp

theorem canStep_of_loadTurn (hact : c.waiterIsActionableLocked s now)
    (hnext : c.waiterIsNextLocked s.id now)
    (hturn : c.acquireTurn opts s now = c.loadTurn opts s now) : c.CanStep opts s now := by
  unfold CanStep
  rw [hturn]
  rcases loadTurn_ne_wait opts hact hnext with h | ⟨_, h⟩ <;> simp [h]

theorem canStep_iff_of_slotTurn {backend : Backend}
    (hready : c.readyBackend s.model = some backend) (hdemanded : opts.demand → s.demandPrepared)
    (hconfirmed : opts.prepareCapacity → s.demandPrepared → s.capacityPrepared)
    (hresize : s.model ∉ c.resizingModels) (hnext : c.waiterIsNextLocked s.id now)
    (hturn : c.acquireTurn opts s now = c.slotTurn opts s now) :
    c.CanStep opts s now ↔ ¬ c.Full opts s := by
  unfold CanStep
  rw [hturn, slotTurn]
  by_cases hgrown : s.capacityPrepared ∧ opts.prepareCapacity ∧ c.reservationsOutgrown s
  · have hfull : ¬ c.Full opts s := by
      rintro ⟨_, _, _, _, hfits, _⟩
      simp [hfits hgrown.1 hgrown.2.1] at hgrown
    simp [hgrown, hfull]
  · have hrecheck : (s.capacityPrepared && opts.prepareCapacity && c.reservationsOutgrown s) =
        false := by
      cases hc : s.capacityPrepared <;> cases ho : opts.prepareCapacity <;>
        cases hg : c.reservationsOutgrown s <;> simp_all
    have hfits : s.capacityPrepared → opts.prepareCapacity → c.reservationsOutgrown s = false := by
      intro hc ho
      by_contra hg
      exact hgrown ⟨hc, ho, Bool.eq_true_of_not_eq_false hg⟩
    cases hpool : c.admissionPoolAllowsLocked s.model with
    | false =>
        have hfull : c.Full opts s := ⟨backend, hready, hdemanded, hconfirmed, hfits, Or.inl hpool⟩
        simp [hrecheck, hfull]
    | true =>
        have hfull : c.Full opts s ↔ backend.nFreeSlots ≤ 0 := by
          constructor
          · rintro ⟨b, hb, _, _, _, hclosed | hfree⟩
            · simp [hpool] at hclosed
            · rwa [Option.some.inj (hready.symm.trans hb)]
          · exact fun hfree => ⟨backend, hready, hdemanded, hconfirmed, hfits, Or.inr hfree⟩
        simp [hrecheck, hresize, hnext, hready, hfull]

/-- A selected actionable waiter is stuck exactly when its model is full. -/
theorem canStep_iff_not_full (hact : c.waiterIsActionableLocked s now)
    (hnext : c.waiterIsNextLocked s.id now) : c.CanStep opts s now ↔ ¬ c.Full opts s := by
  obtain ⟨hdrain, hresize, hprep, hretry⟩ := actionable_spec hact
  have hopen : (decide (s.model ∈ c.drainingModels) || decide (s.model ∈ c.resizingModels)) =
      false := by simp [hdrain, hresize]
  cases hres : c.residentBackend s.model with
  | none =>
      have hnone : c.readyBackend s.model = none := by simp [readyBackend_eq_filter, hres]
      have hturn : c.acquireTurn opts s now = c.loadTurn opts s now := by
        simp [acquireTurn, hopen, hres]
      simp [canStep_of_loadTurn hact hnext hturn, Full, hnone]
  | some backend =>
      by_cases hdemand : opts.demand ∧ s.demandPrepared = false
      · have hturn : c.acquireTurn opts s now = .fetchDemand := by
          simp [acquireTurn, hopen, hres, hdemand, hnext]
        simp [CanStep, hturn, Full, hdemand]
      · have hfetched : (opts.demand && !s.demandPrepared &&
            (c.waiterIsNextLocked s.id now || c.isFront s.id)) = false := by
          cases hd : opts.demand <;> cases hp : s.demandPrepared <;> simp_all
        have hdemanded : opts.demand → s.demandPrepared := by
          intro hd
          by_contra hp
          exact hdemand ⟨hd, Bool.eq_false_of_not_eq_true hp⟩
        by_cases hcapacity : opts.prepareCapacity ∧ s.demandPrepared ∧ s.capacityPrepared = false
        · have hfull : ¬ c.Full opts s := by
            rintro ⟨_, _, _, hconfirmed, _⟩
            simp [hconfirmed hcapacity.1 hcapacity.2.1] at hcapacity
          refine iff_of_true ?_ hfull
          unfold CanStep acquireTurn
          simp only [hopen, hres, hcapacity, hnext, hretry]
          split_ifs <;> simp_all
        · have hconfirmed : opts.prepareCapacity → s.demandPrepared → s.capacityPrepared := by
            intro ho hp
            by_contra hc
            exact hcapacity ⟨ho, hp, Bool.eq_false_of_not_eq_true hc⟩
          have hasked : (opts.prepareCapacity && s.demandPrepared && !s.capacityPrepared &&
              c.waiterIsNextLocked s.id now) = false := by
            cases ho : opts.prepareCapacity <;> cases hp : s.demandPrepared <;>
              cases hc : s.capacityPrepared <;> simp_all
          cases hhealth : backend.executionHealthy with
          | false =>
              have hnone : c.readyBackend s.model = none := by
                simp [readyBackend_eq_filter, hres, Option.filter, hhealth]
              have hturn : c.acquireTurn opts s now = c.loadTurn opts s now := by
                simp only [acquireTurn, hopen, hres, hfetched, hasked, hhealth]
                rfl
              simp [canStep_of_loadTurn hact hnext hturn, Full, hnone]
          | true =>
              have hready : c.readyBackend s.model = some backend := by
                simp [readyBackend_eq_filter, hres, Option.filter, hhealth]
              have hturn : c.acquireTurn opts s now = c.slotTurn opts s now := by
                simp only [acquireTurn, hopen, hres, hfetched, hasked, hhealth]
                rfl
              exact canStep_iff_of_slotTurn hready hdemanded hconfirmed hresize hnext hturn

/-- The winner of a queue without barrier and hold: the contender that ranks first. -/
theorem next_iff_first_contender (hhold : ∀ name, c.continuationHoldValidLocked name now = false)
    (hbarrier : ∀ v ∈ c.waiters.waiters, c.waiterIsResourceBarrierLocked v = false)
    (hs : s ∈ c.waiters.waiters) :
    c.waiterIsNextLocked s.id now ↔
      c.Contender now s ∧ ∀ v, c.Contender now v → v.rank now ≤ s.rank now := by
  have hcand : ∀ v ∈ c.waiters.waiters, (c.candidate now v ↔ c.Contender now v) := by
    intro v hv
    have hbelow : ¬ c.belowBarrier v now := by
      simp [belowBarrier, resourceBarrier_eq_none_iff.2 hbarrier]
    rw [candidate_iff, hasPrepared_iff, Contender]
    tauto
  rw [waiterIsNextLocked_iff, nextWaiter_eq_selected hhold]
  constructor
  · rintro ⟨v, hv, hid⟩
    obtain ⟨hmem, hcv, hmax⟩ := selected_eq_some_iff.1 hv
    obtain rfl := c.waiters.eq_of_id_eq hmem hs hid
    exact ⟨(hcand v hmem).1 hcv, fun u hu => hmax u hu.1 ((hcand u hu.1).2 hu)⟩
  · rintro ⟨hcont, hmax⟩
    refine ⟨s, selected_eq_some_iff.2 ⟨hs, (hcand s hs).2 hcont, fun v hv hcv => ?_⟩, rfl⟩
    exact hmax v ((hcand v hv).1 hcv)

/-- Some contender ranks first, as soon as there is one. -/
theorem exists_first_contender (hs : c.Contender now s) :
    ∃ v, c.Contender now v ∧ ∀ u, c.Contender now u → u.rank now ≤ v.rank now := by
  classical
  let contenders := c.waiters.waiters.filter (fun v => decide (c.Contender now v))
  have hmem : ∀ v, v ∈ contenders ↔ c.Contender now v := by
    intro v
    simp only [contenders, List.mem_filter, decide_eq_true_eq, and_iff_right_iff_imp]
    exact fun hv => hv.1
  have hne : contenders.argmax (SlotWaiter.rank now) ≠ none := by
    rw [ne_eq, List.argmax_eq_none]
    exact List.ne_nil_of_mem ((hmem s).2 hs)
  obtain ⟨v, hv⟩ := Option.ne_none_iff_exists'.1 hne
  exact ⟨v, (hmem v).1 (List.argmax_mem hv),
    fun u hu => List.le_of_mem_argmax ((hmem u).2 hu) hv⟩

/-- Without a hold and without a barrier, a runnable waiter is kept waiting by nobody exactly when
every contender for a full model is outranked by a contender whose model is not full. -/
theorem noHeadOfLineBlocking_iff (c : BackendCoordinator) (opts : ℕ → AcquireSlotOptions)
    (now : TimePoint) (hhold : ∀ name, c.continuationHoldValidLocked name now = false)
    (hbarrier : ∀ v ∈ c.waiters.waiters, c.waiterIsResourceBarrierLocked v = false) :
    c.NoHeadOfLineBlocking opts now ↔
      ((∃ w, c.Runnable (opts w.id) w) →
        ∀ s, c.Contender now s → c.Full (opts s.id) s →
          ∃ v, c.Contender now v ∧ ¬ c.Full (opts v.id) v ∧ s.rank now < v.rank now) := by
  refine forall_congr' (fun _ => ?_)
  constructor
  · intro hstep s hs hfull
    obtain ⟨v, hv, hmax⟩ := exists_first_contender hs
    have hnext := (next_iff_first_contender hhold hbarrier hv.1).2 ⟨hv, hmax⟩
    have hfree := (canStep_iff_not_full hv.2.1 hnext).1 (hstep v hv.1 hnext)
    refine ⟨v, hv, hfree, lt_of_le_of_ne (hmax s hs) ?_⟩
    intro heq
    have hsame := c.waiters.eq_of_id_eq hs.1 hv.1 ((SlotWaiter.rank_eq_iff now s v).1 heq).2
    exact hfree (hsame ▸ hfull)
  · intro houtranked s hs hnext
    obtain ⟨hcont, hmax⟩ := (next_iff_first_contender hhold hbarrier hs).1 hnext
    refine (canStep_iff_not_full hcont.2.1 hnext).2 (fun hfull => ?_)
    obtain ⟨v, hv, _, hlt⟩ := houtranked s hcont hfull
    exact absurd hlt (not_lt.2 (hmax v hv))

/-- Request 1 waits for the one busy slot of "coder" with its demand and capacity prepared;
request 2 could take the free slot of "chat", which has an admission pool of its own. -/
def blockedLine : BackendCoordinator where
  registry := { entries := ∅, factories := [] }
  instances := (AList.insert "coder"
      { info := { name := "coder", admissionPool := "coder", concurrencyLimit := 1, nSlots := 1 }
        loaded := true
        slots := [true] } ∅).insert "chat"
      { info := { name := "chat", admissionPool := "chat", concurrencyLimit := 1, nSlots := 1 }
        loaded := true
        slots := [false] }
  activeRequests := 1
  activeRequestsByModel := AList.insert "coder" 1 ∅
  activeLeases := AList.insert 1
    { model := "coder", backendSlot := 0, contextReservation := 100, sequenceReservation := 1,
      reservationKey := "", priority := 0, continuation := false } ∅
  activeContextReservationByModel := AList.insert "coder" 100 ∅
  activeSequenceReservationByModel := AList.insert "coder" 1 ∅
  nextLeaseId := 2
  waiters :=
    { waiters :=
        [{ id := 1, model := "coder", priority := 0, enqueued := 0, deadline := seconds 30,
           reservationKey := "", demandPrepared := true, capacityPrepared := true,
           demand := some
             { requiredContext := 100, aggregateContext := 200, aggregateSequences := 2 } },
         { id := 2, model := "chat", priority := 0, enqueued := 0, deadline := seconds 30,
           reservationKey := "", demandPrepared := true, capacityPrepared := true,
           demand := some
             { requiredContext := 100, aggregateContext := 100, aggregateSequences := 1 } }]
      nextWaiterId := 3
      increasing := by decide
      below := by decide }

/-- Both requests come with all three callbacks. -/
def chatOptions : AcquireSlotOptions where
  prepare := true
  demand := true
  prepareCapacity := true

theorem blockedLine_no_hold (name : String) (now : TimePoint) :
    blockedLine.continuationHoldValidLocked name now = false := by
  simp [continuationHoldValidLocked, blockedLine]

theorem blockedLine_blocks :
    (∀ name, blockedLine.continuationHoldValidLocked name 0 = false) ∧
      (∀ v ∈ blockedLine.waiters.waiters, blockedLine.waiterIsResourceBarrierLocked v = false) ∧
      ¬ blockedLine.NoHeadOfLineBlocking (fun _ => chatOptions) 0 := by
  refine ⟨fun name => blockedLine_no_hold name 0, by decide, ?_⟩
  intro hstep
  have hrunnable : blockedLine.Runnable chatOptions blockedLine.waiters.waiters[1] :=
    ⟨by decide, by decide, by decide, by decide, by decide, _, rfl, by decide⟩
  have hnext : blockedLine.waiterIsNextLocked 1 0 := by decide
  have hturn : blockedLine.acquireTurn chatOptions blockedLine.waiters.waiters[0] 0 = .wait := by
    decide
  have hcan := hstep ⟨_, hrunnable⟩ blockedLine.waiters.waiters[0] (by decide) hnext
  simp only [CanStep, hturn] at hcan

theorem blockedLine_condition :
    blockedLine.NoHeadOfLineBlocking (fun _ => chatOptions) 0 ↔
      ((∃ w, blockedLine.Runnable chatOptions w) →
        ∀ s, blockedLine.Contender 0 s → blockedLine.Full chatOptions s →
          ∃ v, blockedLine.Contender 0 v ∧ ¬ blockedLine.Full chatOptions v ∧
            s.rank 0 < v.rank 0) :=
  noHeadOfLineBlocking_iff blockedLine (fun _ => chatOptions) 0
    (fun name => blockedLine_no_hold name 0) (by decide)

end InferDeck.Model.BackendCoordinator
