import Mathlib.Data.Finset.Basic
import InferDeck.Backend

/-!
# State of the backend coordinator

Everything `BackendCoordinator` guards by its mutex, together with the two recursive lifecycle
mutexes. The waiting requests form a queue whose ids increase from front to back and stay below
the next id, so two queued waiters never share an id.
-/

namespace InferDeck.Model

open InferDeck.Foundation

structure RequestDemand where
  promptPositions : ℤ := 0
  outputTokens : ℤ := 0
  requiredContext : ℤ := 0
  requiredSequences : ℤ := 1
  aggregateContext : ℤ := 0
  aggregateSequences : ℤ := 0
  deriving DecidableEq, Repr

structure SlotWaiter where
  id : ℕ
  model : String
  priority : ℤ
  enqueued : TimePoint
  deadline : TimePoint
  reservationKey : String
  preparing : Bool := false
  prepared : Bool := false
  retryAfterGeneration : Option ℕ := none
  resourceBlocked : Bool := false
  demandPrepared : Bool := false
  capacityPrepared : Bool := false
  demand : Option RequestDemand := none
  maxAggregateContext : ℤ := 0
  maxAggregateSequences : ℤ := 0
  deriving DecidableEq, Repr

structure ActiveLease where
  model : String
  backendSlot : ℕ
  contextReservation : ℤ
  sequenceReservation : ℤ
  reservationKey : String
  priority : ℤ
  continuation : Bool
  deriving DecidableEq, Repr

structure ContinuationHold where
  key : String
  priority : ℤ
  deadline : TimePoint
  generation : ℕ
  deriving DecidableEq, Repr

structure PrioritySession where
  model : String
  deadline : TimePoint
  token : ℕ
  activeHolds : ℕ
  deriving DecidableEq, Repr

/-- The waiting requests, oldest first, and the id the next one gets. -/
structure WaiterQueue where
  waiters : List SlotWaiter
  nextWaiterId : ℕ
  increasing : (waiters.map SlotWaiter.id).Pairwise (· < ·)
  below : ∀ w ∈ waiters, w.id < nextWaiterId

namespace WaiterQueue

def empty : WaiterQueue where
  waiters := []
  nextWaiterId := 1
  increasing := List.Pairwise.nil
  below := by simp

def find (q : WaiterQueue) (id : ℕ) : Option SlotWaiter :=
  q.waiters.find? (fun w => w.id == id)

def pushBack (q : WaiterQueue) (w : SlotWaiter) : WaiterQueue where
  waiters := q.waiters ++ [{ w with id := q.nextWaiterId }]
  nextWaiterId := q.nextWaiterId + 1
  increasing := by
    rw [List.map_append, List.pairwise_append]
    refine ⟨q.increasing, by simp, ?_⟩
    intro a ha b hb
    obtain ⟨v, hv, rfl⟩ := List.mem_map.1 ha
    obtain rfl : b = q.nextWaiterId := by simpa using hb
    exact q.below v hv
  below := by
    intro v hv
    rcases List.mem_append.1 hv with hv | hv
    · exact (q.below v hv).trans (Nat.lt_succ_self _)
    · obtain rfl := List.mem_singleton.1 hv
      exact Nat.lt_succ_self _

def erase (q : WaiterQueue) (id : ℕ) : WaiterQueue where
  waiters := q.waiters.filter (fun w => w.id != id)
  nextWaiterId := q.nextWaiterId
  increasing := q.increasing.sublist (List.filter_sublist.map _)
  below := fun w hw => q.below w (List.mem_filter.1 hw).1

def modify (q : WaiterQueue) (id : ℕ) (f : SlotWaiter → SlotWaiter) : WaiterQueue where
  waiters := q.waiters.map (fun w => if w.id = id then { f w with id := w.id } else w)
  nextWaiterId := q.nextWaiterId
  increasing := by
    have hids : (q.waiters.map (fun w => if w.id = id then { f w with id := w.id } else w)).map
        SlotWaiter.id = q.waiters.map SlotWaiter.id := by
      rw [List.map_map]
      refine List.map_congr_left (fun w _ => ?_)
      by_cases h : w.id = id <;> simp [h]
    rw [hids]
    exact q.increasing
  below := by
    intro v hv
    obtain ⟨w, hw, rfl⟩ := List.mem_map.1 hv
    by_cases h : w.id = id
    · simpa [h] using q.below w hw
    · simpa [h] using q.below w hw

theorem eq_of_id_eq (q : WaiterQueue) {a b : SlotWaiter} (ha : a ∈ q.waiters)
    (hb : b ∈ q.waiters) (h : a.id = b.id) : a = b := by
  have hnodup : (q.waiters.map SlotWaiter.id).Nodup := q.increasing.imp Nat.ne_of_lt
  exact List.inj_on_of_nodup_map hnodup ha hb h

theorem find_eq_some_iff (q : WaiterQueue) {id : ℕ} {w : SlotWaiter} :
    q.find id = some w ↔ w ∈ q.waiters ∧ w.id = id := by
  constructor
  · intro h
    exact ⟨List.mem_of_find?_eq_some h, by simpa using List.find?_some h⟩
  · rintro ⟨hw, rfl⟩
    cases hf : q.find w.id with
    | none => simpa using List.find?_eq_none.1 hf w hw
    | some v =>
        have hv : v.id = w.id := by simpa using List.find?_some hf
        rw [q.eq_of_id_eq (List.mem_of_find?_eq_some hf) hw hv]

end WaiterQueue

/-- A recursive mutex: the thread that holds it and how often it locked it. -/
structure RecursiveMutex where
  owner : Option (ℕ × ℕ) := none
  deriving DecidableEq, Repr

structure BackendCoordinator where
  registry : ModelRegistry
  instances : Map String Backend := ∅
  currentLoaded : Option String := none
  activeRequests : ℤ := 0
  activeRequestsByModel : Map String ℤ := ∅
  activeLeases : Map ℤ ActiveLease := ∅
  continuationHolds : Map String ContinuationHold := ∅
  activeContextReservationByModel : Map String ℤ := ∅
  activeSequenceReservationByModel : Map String ℤ := ∅
  nextLeaseId : ℤ := 1
  drainingModels : Finset String := ∅
  resizingModels : Finset String := ∅
  vramBudgetMb : ℤ := 0
  vramSafetyMarginMb : ℤ := 1024
  observedVramUsedMb : ℤ := 0
  observedVramTotalMb : ℤ := 0
  observedVramAt : TimePoint := 0
  lastResourceDecision : String := ""
  waiters : WaiterQueue := .empty
  resourceGeneration : ℕ := 0
  maxQueueSize : ℕ := 128
  prioritySessions : Map String PrioritySession := ∅
  nextPrioritySessionToken : ℕ := 1
  swapMutex : RecursiveMutex := {}
  sidecarMutex : RecursiveMutex := {}
  swapInProgress : Bool := false
  swapCancel : Bool := false

end InferDeck.Model
