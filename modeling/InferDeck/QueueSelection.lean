import InferDeck.BackendCoordinator
import InferDeck.Selection

/-!
# Which waiting request may proceed

The predicates of the request queue, as evaluated at one instant `now` under the coordinator's
mutex. One request at a time is the next one: among the actionable waiters, prepared ones before
unprepared ones and none below the resource barrier, the one with the highest score, and of equal
scores the one that queued first.
-/

namespace InferDeck.Model

open InferDeck.Foundation InferDeck.Selection

namespace PrioritySession

def live (session : PrioritySession) (now : TimePoint) : Bool :=
  !(session.activeHolds == 0 && decide (session.deadline ≤ now))

end PrioritySession

namespace SlotWaiter

def score (w : SlotWaiter) (now : TimePoint) : ℤ :=
  w.priority + wholeSeconds (now - w.enqueued)

def beats (now : TimePoint) (w selected : SlotWaiter) : Bool :=
  decide (selected.score now < w.score now) ||
    (w.score now == selected.score now && decide (w.id < selected.id))

/-- Greater rank is served first: higher score, then the smaller id. -/
def rank (now : TimePoint) (w : SlotWaiter) : ℤ ×ₗ ℕᵒᵈ :=
  toLex (w.score now, OrderDual.toDual w.id)

theorem beats_eq_rank_lt (now : TimePoint) (w s : SlotWaiter) :
    w.beats now s = decide (s.rank now < w.rank now) := by
  rw [Bool.eq_iff_iff]
  simp only [beats, rank, Bool.or_eq_true, Bool.and_eq_true, beq_iff_eq, decide_eq_true_eq,
    Prod.Lex.toLex_lt_toLex, OrderDual.toDual_lt_toDual]
  exact or_congr_right (and_congr_left fun _ => eq_comm)

theorem rank_eq_iff (now : TimePoint) (w s : SlotWaiter) :
    w.rank now = s.rank now ↔ w.score now = s.score now ∧ w.id = s.id := by
  simp [rank]

theorem score_le_of_rank_le {now : TimePoint} {w s : SlotWaiter} (h : w.rank now ≤ s.rank now) :
    w.score now ≤ s.score now := by
  rcases Prod.Lex.toLex_le_toLex.1 h with hlt | heq
  · exact hlt.le
  · exact heq.1.le

end SlotWaiter

namespace BackendCoordinator

variable (c : BackendCoordinator)

/-- The info of the instance, or of the registry entry when no instance exists. -/
def findInfo (name : String) : Option ModelInfo :=
  match c.instances.lookup name with
  | some backend => some backend.info
  | none => c.registry.entries.lookup name

def modelIsPrimaryLocked (name : String) : Bool := (c.findInfo name).any isPrimaryModel

def modelIsPriorityMediaLocked (name : String) : Bool := (c.findInfo name).any isPriorityMediaModel

def modelIsIndependentSidecarLocked (name : String) : Bool :=
  (c.findInfo name).any isIndependentSidecar

def priorityMediaActiveLocked : Bool :=
  c.activeRequestsByModel.entries.any fun entry =>
    decide (0 < entry.2) && (c.instances.lookup entry.1).any fun backend =>
      isPriorityMediaModel backend.info

def activeInPool (pool : String) : ℤ :=
  ((c.activeRequestsByModel.entries.filter fun entry =>
    decide (0 < entry.2) && (c.findInfo entry.1).any fun info =>
      info.admissionPool == pool).map Sigma.snd).sum

def admissionPoolAllowsLocked (name : String) : Bool :=
  match c.findInfo name with
  | none => false
  | some target =>
      if target.concurrencyAuto then
        match c.instances.lookup name with
        | none => true
        | some backend =>
            !backend.isLoaded || decide (c.activeRequestsByModel.find name 0 < backend.nSlots)
      else decide (c.activeInPool target.admissionPool < target.concurrencyLimit)

/-- A live session of another client reserves the conversation models for itself. -/
def sessionReservedForAnother (name reservationKey : String) (now : TimePoint) : Bool :=
  (c.prioritySessions.values.any fun session => session.live now) &&
    !(c.prioritySessions.entries.any fun entry => entry.2.live now &&
      entry.1 == reservationKey && entry.2.model == name)

def requestWaitsForPriorityMediaLocked (name reservationKey : String) (now : TimePoint) : Bool :=
  let primary := c.modelIsPrimaryLocked name
  if primary && c.sessionReservedForAnother name reservationKey now then true
  else
    let mediaReserved := c.priorityMediaActiveLocked ||
      c.waiters.waiters.any fun waiter => c.modelIsPriorityMediaLocked waiter.model
    if !mediaReserved then false else primary

def readyBackend (name : String) : Option Backend :=
  (c.instances.lookup name).filter fun backend => backend.isLoaded && backend.executionHealthy

/-- The waiter's last attempt was refused and nothing has changed since. -/
def awaitsRetry (waiter : SlotWaiter) : Bool :=
  waiter.retryAfterGeneration == some c.resourceGeneration

def anotherPrepare (waiter : SlotWaiter) (now : TimePoint) : Bool :=
  c.waiters.waiters.any fun other => other.id != waiter.id &&
    (other.preparing || (other.prepared &&
      !c.requestWaitsForPriorityMediaLocked other.model other.reservationKey now))

def waiterIsActionableLocked (waiter : SlotWaiter) (now : TimePoint) : Bool :=
  if decide (waiter.model ∈ c.drainingModels) || decide (waiter.model ∈ c.resizingModels) ||
      waiter.preparing || c.awaitsRetry waiter then false
  else if c.requestWaitsForPriorityMediaLocked waiter.model waiter.reservationKey now then false
  else if !c.admissionPoolAllowsLocked waiter.model && !waiter.demandPrepared then false
  else
    match c.readyBackend waiter.model with
    | none =>
        c.modelIsIndependentSidecarLocked waiter.model || !c.anotherPrepare waiter now
    | some backend => decide (0 < backend.nFreeSlots) || waiter.demandPrepared

def waiterIsResourceBarrierLocked (waiter : SlotWaiter) : Bool :=
  waiter.resourceBlocked && !c.modelIsIndependentSidecarLocked waiter.model

def continuationHoldValidLocked (name : String) (now : TimePoint) : Bool :=
  match c.continuationHolds.lookup name with
  | none => false
  | some hold =>
      if decide (hold.deadline ≤ now) || hold.generation != c.resourceGeneration ||
          decide (name ∈ c.drainingModels) || decide (name ∈ c.resizingModels) ||
          c.priorityMediaActiveLocked then false
      else
        match c.readyBackend name with
        | none => false
        | some backend =>
            backend.nSlots == 1 && backend.info.runtime == "vllm_radiance" &&
              decide (0 < backend.info.continuationGraceMs)

def hasPrepared (now : TimePoint) : Bool :=
  c.waiters.waiters.any fun waiter => waiter.prepared && c.waiterIsActionableLocked waiter now

/-- The highest ranked waiter whose model could not get its resources. -/
def resourceBarrier (now : TimePoint) : Option SlotWaiter :=
  selectBest (SlotWaiter.beats now) (c.waiters.waiters.filter c.waiterIsResourceBarrierLocked)

def HighestBarrier (now : TimePoint) (b : SlotWaiter) : Prop :=
  b ∈ c.waiters.waiters ∧ c.waiterIsResourceBarrierLocked b ∧
    ∀ v ∈ c.waiters.waiters, c.waiterIsResourceBarrierLocked v → v.rank now ≤ b.rank now

def belowBarrier (waiter : SlotWaiter) (now : TimePoint) : Bool :=
  match c.resourceBarrier now with
  | none => false
  | some barrier =>
      waiter.id != barrier.id && !c.modelIsIndependentSidecarLocked waiter.model &&
        decide (waiter.score now < barrier.score now)

def candidate (now : TimePoint) (waiter : SlotWaiter) : Bool :=
  c.waiterIsActionableLocked waiter now &&
    !(c.hasPrepared now && !waiter.prepared &&
      !c.modelIsIndependentSidecarLocked waiter.model) &&
    !c.belowBarrier waiter now

/-- The winner of the two loops, before a continuation hold may redirect the turn. -/
def selected (now : TimePoint) : Option SlotWaiter :=
  selectBest (SlotWaiter.beats now) (c.waiters.waiters.filter (c.candidate now))

/-- The oldest actionable waiter that continues the request the hold is kept for. -/
def continuation (name : String) (hold : ContinuationHold) (now : TimePoint) : Option SlotWaiter :=
  selectBest (fun w best => decide (w.id < best.id)) (c.waiters.waiters.filter fun waiter =>
    waiter.model == name && waiter.reservationKey == hold.key &&
      c.waiterIsActionableLocked waiter now)

/-- The hold whose key decides about the selected waiter's turn, if one does. -/
def governingHold (winner : SlotWaiter) (now : TimePoint) : Option ContinuationHold :=
  if (c.resourceBarrier now).all (fun barrier => barrier.model == winner.model) &&
      !c.modelIsIndependentSidecarLocked winner.model &&
      !c.modelIsPriorityMediaLocked winner.model &&
      c.continuationHoldValidLocked winner.model now then
    (c.continuationHolds.lookup winner.model).filter fun hold =>
      !(c.waiters.waiters.any fun waiter =>
        decide (hold.priority < waiter.priority) && c.waiterIsActionableLocked waiter now)
  else none

def nextWaiter (now : TimePoint) : Option SlotWaiter :=
  match c.selected now with
  | none => none
  | some winner =>
      match c.governingHold winner now with
      | some hold => c.continuation winner.model hold now
      | none => some winner

def waiterIsNextLocked (id : ℕ) (now : TimePoint) : Bool :=
  (c.nextWaiter now).any fun waiter => waiter.id == id

variable {c}

theorem waiterIsNextLocked_iff {id : ℕ} {now : TimePoint} :
    c.waiterIsNextLocked id now ↔ ∃ w, c.nextWaiter now = some w ∧ w.id = id := by
  simp [waiterIsNextLocked, Option.any_eq_true]

theorem existsUnique_next_iff {now : TimePoint} :
    (∃! id, c.waiterIsNextLocked id now) ↔ (c.nextWaiter now).isSome := by
  constructor
  · rintro ⟨id, hid, _⟩
    obtain ⟨w, hw, _⟩ := waiterIsNextLocked_iff.1 hid
    simp [hw]
  · intro h
    obtain ⟨w, hw⟩ := Option.isSome_iff_exists.1 h
    refine ⟨w.id, waiterIsNextLocked_iff.2 ⟨w, hw, rfl⟩, ?_⟩
    intro id hid
    obtain ⟨v, hv, rfl⟩ := waiterIsNextLocked_iff.1 hid
    rw [Option.some.inj (hv.symm.trans hw)]

theorem nextWaiter_eq_selected {now : TimePoint}
    (hold : ∀ name, c.continuationHoldValidLocked name now = false) :
    c.nextWaiter now = c.selected now := by
  unfold nextWaiter
  cases hs : c.selected now with
  | none => rfl
  | some winner => simp [governingHold, hold]

theorem selected_eq_some_iff {now : TimePoint} {w : SlotWaiter} :
    c.selected now = some w ↔ w ∈ c.waiters.waiters ∧ c.candidate now w ∧
      ∀ v ∈ c.waiters.waiters, c.candidate now v → v.rank now ≤ w.rank now := by
  rw [selected, selectBest_eq_some_iff (SlotWaiter.beats_eq_rank_lt now)]
  · simp only [List.mem_filter, and_assoc, and_imp]
  · intro a ha b hb hab
    exact c.waiters.eq_of_id_eq (List.mem_filter.1 ha).1 (List.mem_filter.1 hb).1
      ((SlotWaiter.rank_eq_iff now a b).1 hab).2

theorem selected_isSome_iff {now : TimePoint} :
    (c.selected now).isSome ↔ ∃ w ∈ c.waiters.waiters, c.candidate now w := by
  rw [Option.isSome_iff_ne_none, ne_eq, selected,
    selectBest_eq_none_iff (SlotWaiter.beats_eq_rank_lt now), List.filter_eq_nil_iff]
  push Not
  rfl

theorem resourceBarrier_eq_some_iff {now : TimePoint} {b : SlotWaiter} :
    c.resourceBarrier now = some b ↔ c.HighestBarrier now b := by
  rw [resourceBarrier, selectBest_eq_some_iff (SlotWaiter.beats_eq_rank_lt now)]
  · simp only [HighestBarrier, List.mem_filter, and_assoc, and_imp]
  · intro a ha b hb hab
    exact c.waiters.eq_of_id_eq (List.mem_filter.1 ha).1 (List.mem_filter.1 hb).1
      ((SlotWaiter.rank_eq_iff now a b).1 hab).2

theorem resourceBarrier_eq_none_iff {now : TimePoint} :
    c.resourceBarrier now = none ↔
      ∀ v ∈ c.waiters.waiters, c.waiterIsResourceBarrierLocked v = false := by
  rw [resourceBarrier, selectBest_eq_none_iff (SlotWaiter.beats_eq_rank_lt now),
    List.filter_eq_nil_iff]
  simp only [Bool.not_eq_true]

theorem candidate_iff {now : TimePoint} {w : SlotWaiter} :
    c.candidate now w ↔ c.waiterIsActionableLocked w now ∧
      (c.hasPrepared now → w.prepared ∨ c.modelIsIndependentSidecarLocked w.model) ∧
      ¬ c.belowBarrier w now := by
  unfold candidate
  cases c.hasPrepared now <;> cases w.prepared <;>
    cases c.modelIsIndependentSidecarLocked w.model <;> simp

theorem belowBarrier_iff {now : TimePoint} {w : SlotWaiter} (hw : w ∈ c.waiters.waiters) :
    c.belowBarrier w now ↔ ∃ barrier, c.HighestBarrier now barrier ∧
      c.modelIsIndependentSidecarLocked w.model = false ∧ w.score now < barrier.score now := by
  unfold belowBarrier
  simp only [← resourceBarrier_eq_some_iff]
  cases hb : c.resourceBarrier now with
  | none => simp
  | some barrier =>
      have hmem := (resourceBarrier_eq_some_iff.1 hb).1
      have hne : w.score now < barrier.score now → w.id ≠ barrier.id := by
        intro hlt hid
        rw [c.waiters.eq_of_id_eq hw hmem hid] at hlt
        exact lt_irrefl _ hlt
      simp only [Bool.and_eq_true, bne_iff_ne, Bool.not_eq_true', decide_eq_true_eq,
        Option.some.injEq, exists_eq_left']
      exact ⟨fun h => ⟨h.1.2, h.2⟩, fun h => ⟨⟨hne h.2, h.1⟩, h.2⟩⟩

theorem hasPrepared_iff {now : TimePoint} :
    c.hasPrepared now ↔
      ∃ v ∈ c.waiters.waiters, v.prepared ∧ c.waiterIsActionableLocked v now := by
  simp only [hasPrepared, List.any_eq_true, Bool.and_eq_true]

end BackendCoordinator

end InferDeck.Model
