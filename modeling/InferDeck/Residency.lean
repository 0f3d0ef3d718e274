import InferDeck.Leases

/-!
# Residency

What the coordinator knows of the VRAM: the declared budget and the last live observation, which
counts for three seconds. And the models that it may reclaim, shrink or evict to make room, and the
gate of the priority sessions before a load.
-/

namespace InferDeck.Model

open InferDeck.Foundation

/-- A deadline of `LifecycleControl`, `none` for `time_point::max()`. -/
abbrev Deadline := Option TimePoint

def Deadline.expired (deadline : Deadline) (now : TimePoint) : Bool :=
  deadline.any fun d => decide (d ≤ now)

/-- The earlier one of the deadline and a time point. -/
def Deadline.before (deadline : Deadline) (t : TimePoint) : TimePoint :=
  (deadline.map fun d => min d t).getD t

def liveVramObservationTtl : ℤ := seconds 3

/-- A backend with slots in use keeps them, and no operation changes what its model is. -/
def Backend.keeps (backend after : Backend) : Bool :=
  decide (after.info = backend.info) &&
    (!backend.slots.any id || (decide (after.slots = backend.slots) && after.loaded))

namespace BackendCoordinator

variable (c : BackendCoordinator)

def residents : List (String × Backend) :=
  (c.instances.entries.map fun e => (e.1, e.2)).filter fun e => e.2.isLoaded

def isReady (name : String) : Bool :=
  decide (name ∉ c.resizingModels) && (c.readyBackend name).isSome

def estimatedVramLocked : ℤ := (c.residents.map fun e => e.2.estimatedVramMb).sum

def liveVramObservationFreshLocked (now : TimePoint) : Bool :=
  decide (0 < c.observedVramTotalMb) && decide (c.observedVramAt ≠ 0) &&
    decide (now - c.observedVramAt ≤ liveVramObservationTtl)

def liveVramObservationUsableLocked (now : TimePoint) : Bool :=
  c.liveVramObservationFreshLocked now && c.residents.all fun e =>
    decide (e.2.estimatedVramMb ≤ 0) || e.2.liveVramAccountingComplete

def declaredAvailable : ℤ :=
  max 0 (c.vramBudgetMb - c.vramSafetyMarginMb - c.estimatedVramLocked)

/-- What the observation leaves beside the reserves of the loaded models. -/
def observedAvailable : ℤ :=
  let reserved := ((c.residents.filter fun e => decide (0 < e.2.estimatedVramMb)).map fun e =>
    if e.2.liveVramAccountingComplete then max 0 e.2.additionalVramReserveMb
    else max 0 e.2.estimatedVramMb).sum
  max 0 (min intMax (min c.vramBudgetMb c.observedVramTotalMb - c.vramSafetyMarginMb -
    c.observedVramUsedMb - reserved))

def availableVramLocked (now : TimePoint) : ℤ :=
  if c.vramBudgetMb ≤ 0 then 0
  else if c.liveVramObservationFreshLocked now then
    if c.liveVramObservationUsableLocked now then c.observedAvailable
    else min c.declaredAvailable c.observedAvailable
  else c.declaredAvailable

/-- A change of the memory: the observation is out of date, and refused waiters try again. -/
def memoryChanged : BackendCoordinator :=
  { c with observedVramAt := 0, resourceGeneration := c.resourceGeneration + 1 }

def noteDecision (decision : String) : BackendCoordinator := { c with lastResourceDecision := decision }

/-- The loaded conversation model with the greatest estimate, and of those the first by name. -/
def selectPrimaryLocked : BackendCoordinator :=
  let primaries := c.residents.filter fun e => isPrimaryModel e.2.info
  { c with
    currentLoaded := (primaries.foldl (fun (selected : Option (String × Backend)) e =>
      match selected with
      | none => some e
      | some s =>
          if s.2.estimatedVramMb < e.2.estimatedVramMb ∨
              (e.2.estimatedVramMb = s.2.estimatedVramMb ∧ e.1 < s.1) then some e
          else some s) none).map Prod.fst }

def sessionForAnother (name : String) (now : TimePoint) : Bool :=
  c.prioritySessions.values.any fun session => session.live now && session.model != name

def requirePrioritySessionAllows (name : String) (now : TimePoint) :
    Result Unit × BackendCoordinator :=
  if c.sessionForAnother name now then
    (err .resourceBusy ("voice session has priority before loading model: " ++ name),
      c.advanceGeneration.noteDecision ("voice session reserved before loading " ++ name))
  else (.ok (), c)

def reclaimable (target : String) (attempts : List String) (name : String) (backend : Backend) :
    Bool :=
  name != target && decide (name ∉ c.resizingModels) && !attempts.contains name &&
    backend.isLoaded && backend.executionHealthy && !c.hasActiveRequests name &&
    decide (0 < backend.estimatedVramMb) && backend.canReclaimIdleContext

/-- Idle, with more slots than it needs. -/
def shrinkable (target name : String) (backend : Backend) : Bool :=
  name != target && backend.isLoaded && !c.hasActiveRequests name &&
    decide (0 < backend.estimatedVramMb) && backend.info.residency != .always &&
    backend.canResizeSlots && decide (backend.minSlots < backend.nSlots)

def evictable (target name : String) (backend : Backend) : Bool :=
  name != target && backend.isLoaded && decide (0 < backend.estimatedVramMb) &&
    backend.info.evictionEligible && backend.info.residency != .always &&
    decide (c.activeRequestsByModel.find name 0 = 0)

/-- The choice is a model that satisfies the condition, or there is none. -/
def chooses (eligible : String → Backend → Bool) (choice : Option String) : Bool :=
  match choice with
  | some name => (c.instances.lookup name).any (eligible name)
  | none => c.instances.entries.all fun e => !eligible e.1 e.2

/-- No other model that satisfies the condition has a greater estimate. -/
def largest (eligible : String → Backend → Bool) (name : String) : Bool :=
  (c.instances.lookup name).any fun backend => c.instances.entries.all fun e =>
    !eligible e.1 e.2 || decide (e.2.estimatedVramMb ≤ backend.estimatedVramMb)

def operate (name : String) (after : Option Backend) : Option BackendCoordinator :=
  match c.instances.lookup name, after with
  | none, _ => none
  | some _, none => some c
  | some backend, some after =>
      if backend.keeps after then some (c.setInstance name after) else none

def setVramBudget (totalMb safetyMarginMb : ℤ) : BackendCoordinator :=
  let budget := max 0 totalMb
  let margin := max 0 safetyMarginMb
  if budget ≠ c.vramBudgetMb ∨ margin ≠ c.vramSafetyMarginMb then
    { c with
      vramBudgetMb := budget
      vramSafetyMarginMb := margin
      resourceGeneration := c.resourceGeneration + 1 }
  else c

def updateVramObservation (usedMb totalMb : ℤ) (now : TimePoint) : BackendCoordinator :=
  if totalMb ≤ 0 ∨ usedMb < 0 then
    if c.observedVramTotalMb ≠ 0 ∨ c.observedVramUsedMb ≠ 0 ∨ c.observedVramAt ≠ 0 then
      { c with
        observedVramUsedMb := 0
        observedVramTotalMb := 0
        observedVramAt := 0
        resourceGeneration := c.resourceGeneration + 1 }
    else c
  else
    let used := min usedMb totalMb
    let changed := !c.liveVramObservationFreshLocked now ||
      decide (c.observedVramTotalMb ≠ totalMb) || decide (c.observedVramUsedMb ≠ used)
    { c with
      observedVramUsedMb := used
      observedVramTotalMb := totalMb
      observedVramAt := now
      resourceGeneration :=
        if changed then c.resourceGeneration + 1 else c.resourceGeneration }

end BackendCoordinator

end InferDeck.Model
