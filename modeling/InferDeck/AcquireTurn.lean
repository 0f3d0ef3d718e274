import InferDeck.QueueSelection

/-!
# One turn of the acquire loop

What the blocking `acquire_slot` does in one pass of its loop, once it has found that the request
is neither cancelled nor past its deadline: wait, call one of the request's callbacks, give up, or
try to take a slot. The pass reads the coordinator once, under the mutex.
-/

namespace InferDeck.Model

open InferDeck.Foundation

/-- The options of a request. The callbacks are code of the caller: here only whether they are
given matters. -/
structure AcquireSlotOptions where
  timeout : ℤ := milliseconds 30000
  block : Bool := true
  priority : ℤ := 0
  reservationKey : String := ""
  prepare : Bool := false
  demand : Bool := false
  prepareCapacity : Bool := false
  deriving DecidableEq

inductive AcquireTurn where
  | wait
  | fetchDemand
  /-- Ask for the capacity of the given waiter's demand, with the waiter's fields as written. -/
  | prepareCapacity (waiter : SlotWaiter)
  | demandTooLarge
  | load
  | notReady (resident : Bool)
  | recheckCapacity
  | takeSlot
  deriving DecidableEq

namespace BackendCoordinator

variable (c : BackendCoordinator)

/-- The instance of `name` when it is loaded, healthy or not. -/
def residentBackend (name : String) : Option Backend :=
  (c.instances.lookup name).filter Backend.isLoaded

def aggregateContext (name : String) (demand : RequestDemand) : ℤ :=
  c.activeContextReservationByModel.find name 0 + demand.requiredContext

def aggregateSequences (name : String) (demand : RequestDemand) : ℤ :=
  c.activeSequenceReservationByModel.find name 0 + demand.requiredSequences

/-- The waiter as it asks for capacity: the demand carries the sums of all reservations, which in an
automatic pool never drop below an earlier request of this waiter. -/
def withAggregates (backend : Backend) (waiter : SlotWaiter) (demand : RequestDemand) :
    SlotWaiter :=
  let automaticPool := backend.info.concurrencyAuto && backend.info.contextPoolAuto
  let context := c.aggregateContext waiter.model demand
  let sequences := c.aggregateSequences waiter.model demand
  let maxContext := if automaticPool then max waiter.maxAggregateContext context else context
  let maxSequences :=
    if automaticPool then max waiter.maxAggregateSequences sequences else sequences
  { waiter with
    retryAfterGeneration := none
    preparing := true
    resourceBlocked := true
    maxAggregateContext := maxContext
    maxAggregateSequences := maxSequences
    demand := some
      { demand with aggregateContext := maxContext, aggregateSequences := maxSequences } }

/-- The reservations have outgrown what the waiter's capacity was prepared for. -/
def reservationsOutgrown (waiter : SlotWaiter) : Bool :=
  match waiter.demand with
  | none => false
  | some demand =>
      decide (demand.aggregateContext < c.aggregateContext waiter.model demand) ||
        decide (demand.aggregateSequences < c.aggregateSequences waiter.model demand)

def isFront (id : ℕ) : Bool := c.waiters.waiters.head?.any fun waiter => waiter.id == id

/-- The model is not resident or not healthy, and the request may have it loaded. -/
def loadTurn (opts : AcquireSlotOptions) (waiter : SlotWaiter) (now : TimePoint) : AcquireTurn :=
  if opts.prepare then
    if c.waiterIsNextLocked waiter.id now && !c.awaitsRetry waiter && !waiter.preparing then .load
    else .wait
  else .notReady (c.residentBackend waiter.model).isSome

/-- The model is ready and the request has called back for all it needs. -/
def slotTurn (opts : AcquireSlotOptions) (waiter : SlotWaiter) (now : TimePoint) : AcquireTurn :=
  if waiter.capacityPrepared && opts.prepareCapacity && c.reservationsOutgrown waiter then
    .recheckCapacity
  else if decide (waiter.model ∉ c.resizingModels) && c.admissionPoolAllowsLocked waiter.model &&
      c.waiterIsNextLocked waiter.id now then .takeSlot
  else .wait

def acquireTurn (opts : AcquireSlotOptions) (waiter : SlotWaiter) (now : TimePoint) :
    AcquireTurn :=
  if decide (waiter.model ∈ c.drainingModels) || decide (waiter.model ∈ c.resizingModels) then .wait
  else
    match c.residentBackend waiter.model with
    | none => c.loadTurn opts waiter now
    | some backend =>
        if opts.demand && !waiter.demandPrepared &&
            (c.waiterIsNextLocked waiter.id now || c.isFront waiter.id) then .fetchDemand
        else if opts.prepareCapacity && waiter.demandPrepared && !waiter.capacityPrepared &&
            c.waiterIsNextLocked waiter.id now then
          if c.awaitsRetry waiter then .wait
          else
            let demand := waiter.demand.getD {}
            if decide (intMax < c.aggregateContext waiter.model demand) ||
                decide (intMax < c.aggregateSequences waiter.model demand) then .demandTooLarge
            else .prepareCapacity (c.withAggregates backend waiter demand)
        else if !backend.executionHealthy then c.loadTurn opts waiter now
        else c.slotTurn opts waiter now

end BackendCoordinator

end InferDeck.Model
