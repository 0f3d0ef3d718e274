import InferDeck.AcquireTurn

/-!
# Leases

The critical sections of the coordinator that issue and release leases. A release of a continuation
leaves no hold behind; any other release of an opted-in single slot holds the next turn of the
model for the client's key.
-/

namespace InferDeck.Model

open InferDeck.Foundation

def clampPriority (priority : ℤ) : ℤ := max (-100) (min 100 priority)

/-- Keys of clients that want their prompt cache kept. -/
def isCacheKey (key : String) : Bool :=
  "openai-cache:".toList.isPrefixOf key.toList && decide (13 < key.toList.length)

namespace BackendCoordinator

variable (c : BackendCoordinator)

def hasActiveRequests (name : String) : Bool :=
  decide (0 < c.activeRequestsByModel.find name 0)

def setInstance (name : String) (backend : Backend) : BackendCoordinator :=
  { c with instances := c.instances.insert name backend }

def setWaiters (waiters : WaiterQueue) : BackendCoordinator := { c with waiters }

def eraseWaiterLocked (id : ℕ) : BackendCoordinator :=
  match c.waiters.find id with
  | none => c
  | some waiter =>
      let held := (c.continuationHolds.lookup waiter.model).any fun hold =>
        hold.key == waiter.reservationKey
      { c with
        waiters := c.waiters.erase id
        continuationHolds :=
          if held then c.continuationHolds.erase waiter.model else c.continuationHolds }

/-- The hold on the model is valid and kept for the key. -/
def continues (name key : String) (now : TimePoint) : Bool :=
  c.continuationHoldValidLocked name now &&
    (c.continuationHolds.lookup name).any fun hold => hold.key == key

def addLease (name : String) (lease : ActiveLease) : BackendCoordinator :=
  { c with
    nextLeaseId := c.nextLeaseId + 1
    continuationHolds := c.continuationHolds.erase name
    activeLeases := c.activeLeases.insert c.nextLeaseId lease
    activeContextReservationByModel := c.activeContextReservationByModel.insert name
      (c.activeContextReservationByModel.find name 0 + lease.contextReservation)
    activeSequenceReservationByModel := c.activeSequenceReservationByModel.insert name
      (c.activeSequenceReservationByModel.find name 0 + lease.sequenceReservation)
    activeRequests := c.activeRequests + 1
    activeRequestsByModel := c.activeRequestsByModel.insert name
      (c.activeRequestsByModel.find name 0 + 1) }

def issueLeaseLocked (name : String) (backendSlot : ℕ) (demand : Option RequestDemand)
    (reservationKey : String) (priority : ℤ) (now : TimePoint) : Result ℤ × BackendCoordinator :=
  if decide (name ∈ c.drainingModels) || decide (name ∈ c.resizingModels) ||
      (c.readyBackend name).isNone then
    (err .unavailable ("model is not ready: " ++ name), c)
  else if !c.admissionPoolAllowsLocked name then
    (err .resourceBusy ("admission pool concurrency limit reached: " ++ name), c)
  else if intMax < c.nextLeaseId then (err .internal "slot lease id space exhausted", c)
  else
    let lease : ActiveLease :=
      { model := name
        backendSlot
        contextReservation := (demand.map fun d => max 0 d.requiredContext).getD 0
        sequenceReservation := (demand.map fun d => max 0 d.requiredSequences).getD 0
        reservationKey
        priority := clampPriority priority
        continuation := c.continues name reservationKey now }
    (.ok c.nextLeaseId, c.addLease name lease)

def removeLease (id : ℤ) (lease : ActiveLease) : BackendCoordinator :=
  let name := lease.model
  { c with
    activeLeases := c.activeLeases.erase id
    activeRequests := if 0 < c.activeRequests then c.activeRequests - 1 else c.activeRequests
    activeContextReservationByModel := c.activeContextReservationByModel.insert name
      (max 0 (c.activeContextReservationByModel.find name 0 - lease.contextReservation))
    activeSequenceReservationByModel := c.activeSequenceReservationByModel.insert name
      (max 0 (c.activeSequenceReservationByModel.find name 0 - lease.sequenceReservation))
    activeRequestsByModel :=
      if c.hasActiveRequests name then
        c.activeRequestsByModel.insert name (c.activeRequestsByModel.find name 0 - 1)
      else c.activeRequestsByModel }

/-- The generation advances, so that refused waiters try again. -/
def advanceGeneration : BackendCoordinator :=
  { c with resourceGeneration := c.resourceGeneration + 1 }

def leavesHold (lease : ActiveLease) (backend : Backend) : Bool :=
  !lease.continuation && backend.info.runtime == "vllm_radiance" &&
    decide (0 < backend.info.continuationGraceMs) && backend.nSlots == 1 &&
    isCacheKey lease.reservationKey && decide (lease.model ∉ c.drainingModels) &&
    decide (lease.model ∉ c.resizingModels)

def leaveHold (lease : ActiveLease) (backend : Backend) (now : TimePoint) : BackendCoordinator :=
  { c with
    continuationHolds := c.continuationHolds.insert lease.model
      { key := lease.reservationKey
        priority := lease.priority
        deadline := now + milliseconds (min 2000 backend.info.continuationGraceMs)
        generation := c.resourceGeneration } }

/-- `release_slot`, where the backend may fail to take the slot back. -/
def releaseSlot (name : String) (leaseId : ℤ) (failure : Option Error) (now : TimePoint) :
    Result Unit × BackendCoordinator :=
  match c.activeLeases.lookup leaseId with
  | none =>
      if 0 < leaseId ∧ leaseId < c.nextLeaseId then (.ok (), c)
      else (err .invalidArgument "invalid slot lease", c)
  | some lease =>
      if lease.model ≠ name then
        (err .invalidArgument "slot lease belongs to another model", c)
      else
        match c.instances.lookup name with
        | none => (err .notFound ("model not loaded: " ++ name), c)
        | some backend =>
            match backend.releaseSlot lease.backendSlot failure with
            | (.error e, _) => (.error e, c)
            | (.ok (), backend) =>
                let c := (c.setInstance name backend).removeLease leaseId lease
                let c := if 0 < backend.estimatedVramMb then c.advanceGeneration else c
                (.ok (), if c.leavesHold lease backend then c.leaveHold lease backend now else c)

/-- Take a slot of the backend and issue a lease on it, or give the slot back. -/
def leaseSlot (name : String) (backend : Backend) (slot : ℕ) (demand : Option RequestDemand)
    (reservationKey : String) (priority : ℤ) (failure : Option Error) (now : TimePoint) :
    Result ℤ × BackendCoordinator :=
  match backend.acquireSlot slot with
  | (.error e, _) => (.error e, c)
  | (.ok backendSlot, taken) =>
      match (c.setInstance name taken).issueLeaseLocked name backendSlot demand reservationKey
        priority now with
      | (.ok id, c) => (.ok id, c)
      | (.error e, c) => (.error e, c.setInstance name (taken.releaseSlot backendSlot failure).2)

/-- The hold on the model is for another key, whose priority is not below that of the request. -/
def heldBack (name : String) (opts : AcquireSlotOptions) (now : TimePoint) : Bool :=
  c.continuationHoldValidLocked name now && (c.continuationHolds.lookup name).any fun hold =>
    hold.key != opts.reservationKey && decide (opts.priority ≤ hold.priority)

/-- `acquire_slot` of a request that does not block. -/
def acquireSlotNow (name : String) (opts : AcquireSlotOptions) (slot : ℕ)
    (failure : Option Error) (now : TimePoint) : Result ℤ × BackendCoordinator :=
  if name ∈ c.drainingModels then (err .unavailable ("model is draining: " ++ name), c)
  else if name ∈ c.resizingModels then (err .unavailable ("model is resizing: " ++ name), c)
  else
    match c.residentBackend name with
    | none => (err .notFound ("model not loaded: " ++ name), c)
    | some backend =>
        if !backend.executionHealthy then
          (err .unavailable ("model requires recovery: " ++ name), c)
        else if c.heldBack name opts now || !c.waiters.waiters.isEmpty ||
            c.requestWaitsForPriorityMediaLocked name opts.reservationKey now ||
            !c.admissionPoolAllowsLocked name then
          (err .unavailable ("request queue is busy: " ++ name), c)
        else
          c.leaseSlot name backend slot none opts.reservationKey opts.priority failure now

def newWaiter (name : String) (opts : AcquireSlotOptions) (now : TimePoint) : SlotWaiter where
  id := 0
  model := name
  priority := clampPriority opts.priority
  enqueued := now
  deadline := now + opts.timeout
  reservationKey := opts.reservationKey

/-- `acquire_slot` up to its loop: the request enters the queue, unless it is full. -/
def enqueue (name : String) (opts : AcquireSlotOptions) (now : TimePoint) :
    Result ℕ × BackendCoordinator :=
  if c.maxQueueSize ≤ c.waiters.waiters.length then
    (err .unavailable "request queue is full", c)
  else (.ok c.waiters.nextWaiterId, c.setWaiters (c.waiters.pushBack (newWaiter name opts now)))

end BackendCoordinator

end InferDeck.Model
