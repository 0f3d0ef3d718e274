import InferDeck.LifecycleSteps

/-!
# Steps of the swaps and of the blocking acquire

`swap_to_with_control`, `swap_to_cancellable`, `prepare_request_capacity` and `acquire_slot`. The
callbacks of a request are the gateway's: `prepare` swaps to the request's model, `prepare_capacity`
asks for the capacity of its demand.
-/

namespace InferDeck.Model

open InferDeck.Foundation InferDeck.Threads

namespace BackendCoordinator

variable (c : BackendCoordinator) (canLock : LifecycleLock → Bool) (input : Reading)

def calls (frame callee : Frame) : FrameStep := some (c, .call frame callee)

def resetSwapCancel : BackendCoordinator := { c with swapCancel := false }

def setSwapInProgress (inProgress : Bool) : BackendCoordinator :=
  { c with swapInProgress := inProgress }

/-- `residency()`: the loaded models by name, with their slot counts. -/
def residency : List (String × ℤ) :=
  (c.residents.map fun e => (e.1, e.2.nSlots)).mergeSort fun a b => decide (a.1 ≤ b.1)

def selectRestored (primary name : String) : BackendCoordinator :=
  { c with
    currentLoaded := some primary
    lastResourceDecision := "load failed for " ++ name ++ "; previous residency restored" }

def loadedWith (name : String) (slots : ℤ) : Bool :=
  (c.residentBackend name).any fun backend => decide (backend.nSlots = slots)

/-- `LifecycleControl recovery`: half a minute, and nobody cancels. -/
def recoveryControl (recovery : TimePoint) : Control := { deadline := some recovery }

def swapStep (name : String) (control : Control) (held : Option LifecycleLock)
    (result : Result Unit) (pc : SwapPc) : FrameStep :=
  let at' := fun pc => Frame.swap name control held pc (.ok ())
  match pc with
  | .start =>
      if c.isReady name then c.returns (.ok ())
      else
        match c.registry.getInfoResult name with
        | .error e => c.returns (.error e)
        | .ok info =>
            if isIndependentSidecar info then c.calls (at' .tail) (.callLoad name control)
            else c.goes (at' .lock)
  | .lock =>
      if canLock .swap then c.goes (.swap name control (some .swap) .locked (.ok ()))
      else if control.isCancelled c input then
        c.returns (err .cancelled ("model swap cancelled: " ++ name))
      else if control.deadline.expired input.now then
        c.returns (err .timeout ("timeout waiting to start model swap: " ++ name))
      else none
  | .locked => if c.isReady name then c.returns (.ok ()) else c.goes (at' .gate)
  | .gate => c.gate input name (fun e => .ret (.error e)) (.goto (at' .plan))
  | .plan =>
      if (c.residentBackend name).isSome then c.calls (at' .tail) (.callLoad name control)
      else
        match c.registry.entries.lookup name with
        | none => c.returns (err .notFound ("model not registered: " ++ name))
        | some info =>
            if c.registry.hasFactory info.runtime then c.goes (at' .budget)
            else c.returns (err .unavailable ("runtime not registered: " ++ info.runtime))
  | .tail => c.returns result
  | .budget => c.goes (at' (if c.vramBudgetMb ≤ 0 then .unbudgeted else .residency))
  | .unbudgeted =>
      match c.currentLoaded with
      | some current => c.calls (at' (.unbudgetedUnloaded current)) (.callUnload current control)
      | none => c.calls (at' (.unbudgetedLoaded none)) (.callLoad name control)
  | .unbudgetedUnloaded current =>
      match result with
      | .error e => c.returns (.error e)
      | .ok () => c.calls (at' (.unbudgetedLoaded (some current))) (.callLoad name control)
  | .unbudgetedLoaded current =>
      match result, current with
      | .error e, some current =>
          c.calls (at' (.unbudgetedRestored current (.error e)))
            (.callLoad current (recoveryControl (input.now + seconds 30)))
      | result, _ => c.returns result
  | .unbudgetedRestored current loaded =>
      match result with
      | .ok () => (c.selectRestored current name).returns loaded
      | .error _ => c.returns loaded
  | .residency => c.goes (at' (.selected c.residency))
  | .selected before =>
      c.calls (at' (.prepared { before, primary := c.currentLoaded }))
        (.callPrepareCapacity name control false)
  | .prepared snapshot =>
      match result with
      | .error e => c.returns (.error e)
      | .ok () => c.goes (at' (.loadGate snapshot))
  | .loadGate snapshot =>
      c.gate input name (fun e => .ret (.error e))
        (.call (at' (.loaded snapshot)) (.callLoad name control))
  | .loaded snapshot =>
      match result with
      | .ok () => c.returns (.ok ())
      | .error e =>
          if e.code = .outOfMemory ∧ !control.isCancelled c input ∧
              !control.deadline.expired input.now then
            c.calls (at' (.retryUnloaded snapshot (.error e))) (.callUnload name control)
          else c.goes (at' (.rollback snapshot (.error e)))
  | .retryUnloaded snapshot loaded =>
      c.calls (at' (.retryPrepared snapshot loaded)) (.callPrepareCapacity name control true)
  | .retryPrepared snapshot loaded =>
      match result with
      | .ok () => c.calls (at' (.retryLoaded snapshot)) (.callLoad name control)
      | .error e =>
          if e.code = .cancelled ∨ e.code = .timeout then c.returns (.error e)
          else c.goes (at' (.rollback snapshot loaded))
  | .retryLoaded snapshot =>
      match result with
      | .ok () => c.returns (.ok ())
      | .error e => c.goes (at' (.rollback snapshot (.error e)))
  | .rollback snapshot loaded =>
      let recovery := input.now + seconds 30
      c.calls (at' (.restore snapshot loaded recovery))
        (.callUnload name (recoveryControl recovery))
  | .restore snapshot loaded recovery =>
      match snapshot.before with
      | [] => c.goes (at' (.restored snapshot.primary loaded))
      | (prior, slots) :: before =>
          let rest : ResidencySnapshot := { snapshot with before }
          if c.loadedWith prior slots then c.goes (at' (.restore rest loaded recovery))
          else if (c.residentBackend prior).isSome then
            c.calls (at' (.restoreLoad prior rest loaded recovery))
              (.callUnload prior (recoveryControl recovery))
          else c.goes (at' (.restoreLoad prior rest loaded recovery))
  | .restoreLoad prior snapshot loaded recovery =>
      c.calls (at' (.restore snapshot loaded recovery))
        (.callLoad prior (recoveryControl recovery))
  | .restored primary loaded =>
      match primary.filter fun primary => (c.residentBackend primary).isSome with
      | some primary => c.goes (at' (.reselect primary loaded))
      | none => c.returns loaded
  | .reselect primary loaded => (c.selectRestored primary name).returns loaded

/-- Without the handler of exceptions: backends and factories do not throw here. -/
def swapCancellableStep (name : String) (control : Control) (result : Result Unit)
    (pc : SwapCancellablePc) : FrameStep :=
  let at' := fun pc => Frame.swapCancellable name control pc (.ok ())
  match pc with
  | .start =>
      match c.registry.getInfoResult name with
      | .error e => c.returns (.error e)
      | .ok info =>
          if isIndependentSidecar info then
            if c.swapCancel then
              c.resetSwapCancel.returns (err .cancelled "swap cancelled before sidecar load")
            else c.calls (at' .sidecarLoaded) (.callLoad name control)
          else if c.isReady name then c.returns (.ok ())
          else c.goes (at' .ready)
  | .sidecarLoaded => c.resetSwapCancel.returns result
  | .ready =>
      if c.swapCancel then
        c.resetSwapCancel.returns (err .cancelled "swap cancelled before start")
      else (c.setSwapInProgress true).goes (at' .begun)
  | .begun =>
      if c.swapCancel then
        c.goes (.swapCancellable name control .swapped
          (err .cancelled "swap cancelled before load"))
      else c.calls (at' .swapped) (.callSwap name control)
  | .swapped =>
      (c.setSwapInProgress false).goes (.swapCancellable name control .finished result)
  | .finished => c.resetSwapCancel.returns result

/-- The hold on the model outlives the resize of its only slot's context. -/
def preservesContinuation (name : String) : Bool :=
  (c.continuationHolds.lookup name).any (fun hold => hold.generation == c.resourceGeneration) &&
    (c.instances.lookup name).any fun backend =>
      backend.info.runtime == "vllm_radiance" && backend.nSlots == 1

/-- The generation advances, and with it that of a hold that outlives the change. -/
def advanceWithHold (name : String) : BackendCoordinator :=
  if c.preservesContinuation name then
    match c.continuationHolds.lookup name with
    | none => c.advanceGeneration
    | some hold =>
        { c.advanceGeneration with
          continuationHolds := c.continuationHolds.insert name
            { hold with generation := c.resourceGeneration + 1 } }
  else c.advanceGeneration

def prepareRequestStep (name : String) (demand : RequestDemand) (control : Control)
    (held : Option LifecycleLock) (pc : PrepareRequestPc) : FrameStep :=
  let at' := fun pc => Frame.prepareRequest name demand control held pc
  match pc with
  | .start =>
      if canLock .swap then c.goes (.prepareRequest name demand control (some .swap) .locked)
      else none
  | .locked =>
      if (c.residentBackend name).isNone then
        c.returns (err .notFound ("model not loaded: " ++ name))
      else if name ∈ c.resizingModels then
        c.returns (err .resourceBusy ("request capacity is already being prepared: " ++ name))
      else if !input.isModel then
        c.returns (err .invalidArgument ("backend is not a generation model: " ++ name))
      else (c.resize name).goes (at' .ensuring)
  | .ensuring => (c.operate name input.after).bind fun c => c.goes (at' (.ensured input.done))
  | .ensured result =>
      match result with
      | .error e => (c.unresize name).returns (.error e)
      | .ok () => ((c.unresize name).advanceWithHold name).returns (.ok ())

def modifyWaiter (id : ℕ) (f : SlotWaiter → SlotWaiter) : BackendCoordinator :=
  c.setWaiters (c.waiters.modify id f)

/-- The request leaves the queue. -/
def leaves (id : ℕ) (result : Result Unit) : FrameStep := (c.eraseWaiterLocked id).returns result

/-- The waiter as its `prepare` callback is called. -/
def beginLoad (waiter : SlotWaiter) : SlotWaiter :=
  { waiter with
    retryAfterGeneration := none
    preparing := true
    resourceBlocked := true
    prepared := false }

/-- The waiter after a callback that was refused for want of resources. A waiter that no change of
the generation has overtaken waits for the next one. -/
def refuse (generationBefore : ℕ) (waiter : SlotWaiter) : SlotWaiter :=
  { waiter with
    preparing := false
    resourceBlocked := true
    retryAfterGeneration :=
      if c.resourceGeneration = generationBefore then some generationBefore
      else waiter.retryAfterGeneration }

/-- The end of a `prepare` or `prepare_capacity` callback. -/
def afterCallback (id generationBefore : ℕ) (grant : SlotWaiter → SlotWaiter) (again : Frame)
    (result : Result Unit) : FrameStep :=
  match result with
  | .error e =>
      if e.code = .resourceBusy then (c.modifyWaiter id (c.refuse generationBefore)).goes again
      else c.leaves id (err e.code e.message)
  | .ok () => (c.modifyWaiter id grant).goes again

def takeSlotTurn (id : ℕ) (waiter : SlotWaiter) (opts : AcquireSlotOptions) (again : Frame) :
    FrameStep :=
  match c.readyBackend waiter.model with
  | none => none
  | some backend =>
      match backend.acquireSlot input.slot with
      | (.error _, _) => none
      | (.ok _, _) =>
          match c.leaseSlot waiter.model backend input.slot
            (if waiter.demandPrepared then waiter.demand else none) opts.reservationKey
            opts.priority input.failure input.now with
          | (.ok _, c) => c.leaves id (.ok ())
          | (.error e, c) =>
              if e.code = .resourceBusy then c.goes again else c.leaves id (.error e)

def acquireLoop (name : String) (opts : AcquireSlotOptions) (deadline : TimePoint) (id : ℕ) :
    FrameStep :=
  let at' := fun pc => Frame.acquire name opts deadline pc (.ok ())
  if input.cancelled then
    c.leaves id (err .cancelled ("request cancelled while queued: " ++ name))
  else if deadline ≤ input.now then
    c.leaves id (err .timeout ("timeout waiting in request queue: " ++ name))
  else
    match c.waiters.find id with
    | none => none
    | some waiter =>
        match c.acquireTurn opts waiter input.now with
        | .wait => none
        | .fetchDemand =>
            (c.modifyWaiter id fun waiter => { waiter with preparing := true }).goes
              (at' (.demanding id))
        | .prepareCapacity waiter =>
            (c.modifyWaiter id fun _ => waiter).calls
              (at' (.capacityPrepared id c.resourceGeneration))
              (.callPrepareRequest name (waiter.demand.getD {})
                { deadline := some deadline, caller := true })
        | .demandTooLarge =>
            c.leaves id (err .invalidArgument "request demand exceeds supported capacity")
        | .load =>
            (c.modifyWaiter id beginLoad).calls (at' (.prepared id c.resourceGeneration))
              (.callSwapCancellable name (some deadline))
        | .notReady resident =>
            c.leaves id (err (if resident then .unavailable else .notFound)
              ((if resident then "model requires recovery: " else "model not loaded: ") ++ name))
        | .recheckCapacity =>
            (c.modifyWaiter id fun waiter => { waiter with capacityPrepared := false }).goes
              (at' (.loop id))
        | .takeSlot => c.takeSlotTurn input id waiter opts (at' (.loop id))

def acquireStep (name : String) (opts : AcquireSlotOptions) (deadline : TimePoint)
    (result : Result Unit) (pc : AcquirePc) : FrameStep :=
  let again := fun id => Frame.acquire name opts deadline (.loop id) (.ok ())
  match pc with
  | .start =>
      match c.enqueue name opts input.now with
      | (.error e, c) => c.returns (.error e)
      | (.ok id, c) =>
          c.goes (.acquire name opts (input.now + opts.timeout) (.loop id) (.ok ()))
  | .loop id => c.acquireLoop input name opts deadline id
  | .demanding id =>
      -- the gateway's callback, which reads the instance under the swap lock
      match input.demand with
      | .error e => c.leaves id (err e.code e.message)
      | .ok demand =>
          (c.modifyWaiter id fun waiter =>
            { waiter with preparing := false, demand := some demand, demandPrepared := true }).goes
            (again id)
  | .capacityPrepared id generationBefore =>
      c.afterCallback id generationBefore (fun waiter =>
        { waiter with preparing := false, capacityPrepared := true, resourceBlocked := false })
        (again id) result
  | .prepared id generationBefore =>
      c.afterCallback id generationBefore (fun waiter =>
        { waiter with preparing := false, prepared := true, resourceBlocked := false })
        (again id) result

end BackendCoordinator

def frameStep (canLock : LifecycleLock → Bool) (input : Reading) (c : BackendCoordinator) :
    Frame → FrameStep
  | .unload name control held pc => c.unloadStep canLock input name control held pc
  | .load name control held pc result => c.loadStep canLock input name control held result pc
  | .prepareCapacity name control force required pc result =>
      c.prepareCapacityStep input name control force required result pc
  | .swap name control held pc result => c.swapStep canLock input name control held result pc
  | .swapCancellable name control pc result => c.swapCancellableStep name control result pc
  | .prepareRequest name demand control held pc =>
      c.prepareRequestStep canLock input name demand control held pc
  | .acquire name opts deadline pc result => c.acquireStep input name opts deadline result pc

end InferDeck.Model
