import InferDeck.LifecycleFrames

/-!
# Steps of the lifecycle calls

`unload_with_control`, `load_with_lock_deadline`, `prepare_capacity_for`, `swap_to_with_control`,
`swap_to_cancellable` and `prepare_request_capacity`.
-/

namespace InferDeck.Model

open InferDeck.Foundation InferDeck.Threads

def Control.isCancelled (control : Control) (c : BackendCoordinator) (input : Reading) : Bool :=
  (control.caller && input.cancelled) || (control.swapFlag && c.swapCancel)

namespace BackendCoordinator

variable (c : BackendCoordinator) (canLock : LifecycleLock → Bool) (input : Reading)

/-- The mutex under which the model is loaded and unloaded. -/
def lifecycleLock (name : String) : LifecycleLock :=
  if (c.registry.entries.lookup name).any isIndependentSidecar then .sidecar else .swap

def returns (result : Result Unit) : FrameStep := some (c, .ret result)

def goes (frame : Frame) : FrameStep := some (c, .goto frame)

def drain (name : String) : BackendCoordinator :=
  { c with drainingModels := insert name c.drainingModels }

def undrain (name : String) : BackendCoordinator :=
  { c with drainingModels := c.drainingModels.erase name }

def resize (name : String) : BackendCoordinator :=
  { c with resizingModels := insert name c.resizingModels }

def unresize (name : String) : BackendCoordinator :=
  { c with resizingModels := c.resizingModels.erase name }

/-- Take the instance out, and select another primary if it was the selected one. -/
def takeInstance (name : String) : BackendCoordinator :=
  let c' := { c with instances := c.instances.erase name }
  if c.currentLoaded = some name then c'.selectPrimaryLocked else c'

/-- The loop that waits for active requests, from one of its checks on. -/
def drainTurn (name : String) (control : Control) (held : Option LifecycleLock)
    (drainDeadline : TimePoint) (first : Bool) : FrameStep :=
  if c.hasActiveRequests name && decide (input.now < drainDeadline) &&
      !control.isCancelled c input then
    if first then c.goes (.unload name control held (.draining drainDeadline)) else none
  else if control.isCancelled c input then
    (c.undrain name).returns (err .cancelled ("model unload cancelled: " ++ name))
  else if c.hasActiveRequests name then
    (c.undrain name).returns (err .timeout ("timeout draining active requests for: " ++ name))
  else
    let taken := c.instances.lookup name
    (c.takeInstance name).goes (.unload name control held
      (.unloading taken (decide (c.currentLoaded = some name))
        ((taken.map Backend.estimatedVramMb).getD 0)))

/-- The instance is back after a failed unload. -/
def restoreInstance (name : String) (backend : Backend) (wasPrimary : Bool) :
    BackendCoordinator :=
  { c with
    instances := c.instances.insert name backend
    currentLoaded := if wasPrimary then some name else c.currentLoaded }

def forgetRequests (name : String) : BackendCoordinator :=
  { c with activeRequestsByModel := c.activeRequestsByModel.erase name }

def finishUnload (name : String) (releasedVram : ℤ) : BackendCoordinator :=
  let c := (c.forgetRequests name).undrain name
  if 0 < releasedVram then c.memoryChanged else c

def unloadStep (name : String) (control : Control) (held : Option LifecycleLock) :
    UnloadPc → FrameStep
  | .start =>
      if canLock (c.lifecycleLock name) then
        c.goes (.unload name control (some (c.lifecycleLock name))
          (.locked (control.deadline.before (input.now + seconds 30))))
      else if control.isCancelled c input then
        c.returns (err .cancelled ("model unload cancelled: " ++ name))
      else if control.deadline.expired input.now then
        c.returns (err .timeout ("timeout waiting to start model unload: " ++ name))
      else none
  | .locked drainDeadline => (c.drain name).drainTurn input name control held drainDeadline true
  | .draining drainDeadline => c.drainTurn input name control held drainDeadline false
  | .unloading none _ releasedVram => (c.finishUnload name releasedVram).returns (.ok ())
  | .unloading (some backend) wasPrimary releasedVram =>
      match input.done with
      | .ok () => (c.finishUnload name releasedVram).returns (.ok ())
      | .error e =>
          let backend' := input.after.getD backend
          if backend.keeps backend' then
            ((c.restoreInstance name backend' wasPrimary).undrain name).returns (.error e)
          else none

def selectIfPrimary (name : String) : BackendCoordinator :=
  if (c.instances.lookup name).any fun backend => isPrimaryModel backend.info then
    { c with currentLoaded := some name }
  else c

def memoryChangedBy (name : String) : BackendCoordinator :=
  if (c.instances.lookup name).any fun backend => decide (0 < backend.estimatedVramMb) then
    c.memoryChanged
  else c

def resizeSlots (name : String) (slots : ℤ) : Option BackendCoordinator :=
  (c.operate name input.after).filter fun c => input.done.toOption.isNone ||
    (c.instances.lookup name).any fun backend => decide (backend.nSlots = slots)

def loadStep (name : String) (control : Control) (held : Option LifecycleLock)
    (result : Result Unit) : LoadPc → FrameStep
  | .start =>
      match c.registry.getInfoResult name with
      | .error e => c.returns (.error e)
      | .ok _ =>
          if control.isCancelled c input then
            c.returns (err .cancelled ("model load cancelled: " ++ name))
          else if control.deadline.expired input.now then
            c.returns (err .timeout ("timeout waiting to start model load: " ++ name))
          else if canLock (c.lifecycleLock name) then
            c.goes (.load name control (some (c.lifecycleLock name)) .locked (.ok ()))
          else none
  | .locked =>
      match c.residentBackend name with
      | none => c.goes (.load name control held (.create none) (.ok ()))
      | some backend =>
          if backend.executionHealthy then (c.selectIfPrimary name).returns (.ok ())
          else
            some (c, .call (.load name control held (.recovered backend.nSlots) (.ok ()))
              (.callUnload name control))
  | .recovered slots =>
      match result with
      | .error e => c.returns (.error e)
      | .ok () => c.goes (.load name control held (.create (some slots)) (.ok ()))
  | .create recovery =>
      let next := fun (c : BackendCoordinator) (backend : Backend) =>
        match recovery with
        | some slots =>
            if !backend.info.concurrencyAuto && decide (backend.nSlots ≠ slots) then
              c.goes (.load name control held (.resize slots) (.ok ()))
            else c.goes (.load name control held .load (.ok ()))
        | none => c.goes (.load name control held .load (.ok ()))
      match c.instances.lookup name with
      | some backend => next c backend
      | none =>
          match input.created with
          | .error e => c.returns (err e.code e.message)
          | .ok backend =>
              if backend.loaded || backend.slots.any id then none
              else next (c.setInstance name backend) backend
  | .resize slots =>
      (c.resizeSlots input name slots).bind fun c =>
        match input.done with
        | .error e => c.returns (.error e)
        | .ok () => c.goes (.load name control held .load (.ok ()))
  | .load =>
      (c.operate name input.after).bind fun c =>
        c.goes (.load name control held .loaded input.done)
  | .loaded =>
      match result with
      | .error e => (c.memoryChangedBy name).returns (.error e)
      | .ok () => ((c.selectIfPrimary name).memoryChangedBy name).returns (.ok ())

/-- Pass the session gate to the next frame, or go on with the refusal. -/
def gate (name : String) (refused : Error → CoordinatorMove) (next : CoordinatorMove) :
    FrameStep :=
  match c.requirePrioritySessionAllows name input.now with
  | (.error e, c) => some (c, refused e)
  | (.ok (), c) => some (c, next)

/-- The loaded models with memory on the GPU and active requests. -/
def blockers : List String :=
  (c.residents.filter fun e => decide (0 < e.2.estimatedVramMb) && c.hasActiveRequests e.1).map
    Prod.fst

def fits (required : ℤ) : Bool := decide (required ≤ c.availableVramLocked input.now)

def capacityVerdict (name : String) (required : ℤ) : FrameStep :=
  if !c.blockers.isEmpty && decide (required ≤ max 0 (c.vramBudgetMb - c.vramSafetyMarginMb)) then
    (c.noteDecision ("waiting for active residency before loading " ++ name)).returns
      (err .resourceBusy ("VRAM capacity for " ++ name ++
        " is temporarily held by active model(s): " ++ ",".intercalate c.blockers))
  else
    (c.noteDecision ("insufficient VRAM for " ++ name)).returns
      (err .outOfMemory ("insufficient VRAM for " ++ name ++ ": required_mb=" ++
        toString required ++ " available_mb=" ++ toString (c.availableVramLocked input.now)))

def prepareCapacityStep (name : String) (control : Control) (force : Bool) (required : ℤ)
    (result : Result Unit) (pc : PrepareCapacityPc) : FrameStep :=
  let at' := fun pc => Frame.prepareCapacity name control force required pc (.ok ())
  let cancelled := control.isCancelled c input
  let expired := control.deadline.expired input.now
  let afterReclaim :=
    if force then c.returns (err .outOfMemory ("unable to reclaim idle context for " ++ name))
    else c.goes (at' .shrink)
  match pc with
  | .start =>
      if cancelled then c.returns (err .cancelled ("capacity preparation cancelled: " ++ name))
      else if expired then c.returns (err .timeout ("capacity preparation timed out: " ++ name))
      else
        c.gate input name (fun e => .ret (.error e))
          (match c.registry.getInfoResult name with
          | .error e => .ret (err e.code e.message)
          | .ok info =>
              .goto (.prepareCapacity name control force info.vramRequiredMb .check (.ok ())))
  | .check =>
      if (c.residentBackend name).isSome then
        (c.noteDecision (name ++ " already resident")).returns (.ok ())
      else if !force && (decide (c.vramBudgetMb ≤ 0) || c.fits input required) then
        (c.noteDecision (if c.liveVramObservationUsableLocked input.now then
          name ++ " fits live GPU headroom" else name ++ " fits configured VRAM budget")).returns
            (.ok ())
      else c.goes (at' (.reclaim []))
  | .reclaim attempts =>
      if cancelled || expired then afterReclaim
      else if !force && c.fits input required then c.returns (.ok ())
      else if c.chooses (c.reclaimable name attempts) input.choice then
        match input.choice with
        | none => afterReclaim
        | some candidate =>
            (c.resize candidate).goes (at' (.reclaimGate (candidate :: attempts) candidate
              (if c.liveVramObservationFreshLocked input.now then some c.observedVramUsedMb
              else none)))
      else none
  | .reclaimGate attempts candidate observed =>
      c.gate input name (fun e => .goto (at' (.refused candidate e)))
        (.goto (at' (.reclaiming attempts candidate observed)))
  | .reclaiming attempts candidate observed =>
      (c.operate candidate input.after).bind fun c =>
        c.goes (at' (.reclaimed attempts candidate observed input.outcome))
  | .reclaimed attempts candidate observed outcome =>
      match outcome with
      | .error e => (c.unresize candidate).returns (.error e)
      | .ok false => (c.unresize candidate).goes (at' (.reclaim attempts))
      | .ok true =>
          let c := (c.noteDecision
            ("reclaimed idle context from " ++ candidate ++ " for " ++ name)).memoryChanged
          match observed with
          | none => (c.unresize candidate).goes (at' (.reclaimFits attempts))
          | some previous =>
              c.goes (at' (.observing attempts candidate previous
                (control.deadline.before (input.now + liveVramObservationTtl))))
  | .observing attempts candidate previous limit =>
      if c.liveVramObservationFreshLocked input.now && decide (c.observedVramUsedMb < previous) ||
          decide (limit ≤ input.now) then
        (c.unresize candidate).goes (at' (.reclaimFits attempts))
      else none
  | .reclaimFits attempts =>
      if c.fits input required then c.returns (.ok ()) else c.goes (at' (.reclaim attempts))
  | .shrink =>
      if cancelled then c.returns (err .cancelled ("capacity resize cancelled: " ++ name))
      else if expired then c.returns (err .timeout ("capacity resize timed out: " ++ name))
      else if c.fits input required then c.returns (.ok ())
      else if c.chooses (c.shrinkable name) input.choice then
        match input.choice with
        | none => c.goes (at' .evict)
        | some candidate =>
            (c.resize candidate).goes (at' (.shrinkGate candidate
              (((c.instances.lookup candidate).map Backend.nSlots).getD 0 - 1)))
      else none
  | .shrinkGate candidate nextSlots =>
      c.gate input name (fun e => .goto (at' (.refused candidate e)))
        (.goto (at' (.shrinking candidate nextSlots)))
  | .shrinking candidate nextSlots =>
      (c.resizeSlots input candidate nextSlots).bind fun c =>
        c.goes (at' (.shrunk candidate nextSlots input.done))
  | .shrunk candidate nextSlots outcome =>
      match outcome with
      | .error _ => (c.unresize candidate).goes (at' .evict)
      | .ok () =>
          ((c.unresize candidate).noteDecision ("shrunk " ++ candidate ++ " to " ++
            toString nextSlots ++ " slots for " ++ name)).memoryChanged.goes (at' .shrink)
  | .refused candidate e => (c.unresize candidate).returns (.error e)
  | .evict =>
      if cancelled then c.returns (err .cancelled ("capacity eviction cancelled: " ++ name))
      else if expired then c.returns (err .timeout ("capacity eviction timed out: " ++ name))
      else if c.fits input required then c.returns (.ok ())
      else if c.chooses (c.evictable name) input.choice &&
          input.choice.all (c.largest (c.evictable name)) then
        match input.choice with
        | none => c.goes (at' .verdict)
        | some candidate => c.goes (at' (.evictGate candidate))
      else none
  | .evictGate candidate =>
      c.gate input name (fun e => .ret (.error e))
        (.call (at' (.evicted candidate)) (.callUnload candidate control))
  | .evicted candidate =>
      match result with
      | .error e => c.returns (.error e)
      | .ok () =>
          (c.noteDecision ("evicted idle " ++ candidate ++ " for " ++ name)).goes (at' .evict)
  | .verdict => c.capacityVerdict input name required

end BackendCoordinator

end InferDeck.Model
