import InferDeck.CoordinatorRuns

/-!
# How the calls go on

A frame that is past its lock holds it, and a frame that has entered a name into the draining or the
resizing models gives the name up before it calls another function or returns. Room is made only by
a swap that holds the swap lock.
-/

namespace InferDeck.Model

open InferDeck.Foundation InferDeck.Threads

def PrepareCapacityPc.candidate : PrepareCapacityPc → Option String
  | .reclaimGate _ candidate _ => some candidate
  | .reclaiming _ candidate _ => some candidate
  | .reclaimed _ candidate _ _ => some candidate
  | .observing _ candidate _ _ => some candidate
  | .shrinkGate candidate _ => some candidate
  | .shrinking candidate _ => some candidate
  | .shrunk candidate _ _ => some candidate
  | .refused candidate _ => some candidate
  | _ => none

namespace Frame

def drains : Frame → Option String
  | .unload name _ _ (.draining _) => some name
  | .unload name _ _ (.unloading ..) => some name
  | _ => none

def resizes : Frame → Option String
  | .prepareCapacity _ _ _ _ pc _ => pc.candidate
  | .prepareRequest name _ _ _ .ensuring => some name
  | .prepareRequest name _ _ _ (.ensured _) => some name
  | _ => none

def isPrepareCapacity : Frame → Bool
  | .prepareCapacity .. => true
  | _ => false

/-- The model that the frame works on because it has no requests. -/
def quiesces : Frame → Option String
  | .unload name _ _ (.unloading ..) => some name
  | .prepareCapacity _ _ _ _ pc _ => pc.candidate
  | _ => none

def Guarded (lifecycleLock : String → LifecycleLock) : Frame → Prop
  | .unload name _ held pc => pc = .start ∨ held = some (lifecycleLock name)
  | .load name _ held pc _ => pc = .start ∨ held = some (lifecycleLock name)
  | .swap _ _ held pc _ => pc = .start ∨ pc = .lock ∨ pc = .tail ∨ held = some .swap
  | .prepareRequest _ _ _ held pc => pc = .start ∨ held = some .swap
  | _ => True

inductive Enters : Frame → Prop
  | unload (name : String) (control : Control) : Enters (.unload name control none .start)
  | load (name : String) (control : Control) (result : Result Unit) :
      Enters (.load name control none .start result)
  | prepareCapacity (name : String) (control : Control) (force : Bool) (required : ℤ)
      (result : Result Unit) :
      Enters (.prepareCapacity name control force required .start result)
  | swap (name : String) (control : Control) (result : Result Unit) :
      Enters (.swap name control none .start result)
  | swapCancellable (name : String) (control : Control) (result : Result Unit) :
      Enters (.swapCancellable name control .start result)
  | prepareRequest (name : String) (demand : RequestDemand) (control : Control) :
      Enters (.prepareRequest name demand control none .start)
  | acquire (name : String) (opts : AcquireSlotOptions) (deadline : TimePoint)
      (result : Result Unit) : Enters (.acquire name opts deadline .start result)

end Frame

/-- How a frame goes on: guarded, as the same function, with its names given up where it calls. Room
is made only under the swap lock. -/
def Frame.Proceeds (lifecycleLock : String → LifecycleLock) (frame : Frame) :
    CoordinatorMove → Prop
  | .goto next => next.Guarded lifecycleLock ∧ next.isPrepareCapacity = frame.isPrepareCapacity
  | .call next callee =>
      next.Guarded lifecycleLock ∧ next.isPrepareCapacity = frame.isPrepareCapacity ∧
        next.drains = none ∧ next.resizes = none ∧ callee.Enters ∧
        (callee.isPrepareCapacity → next.holds = some .swap)
  | .ret _ => True

/-- The name that the frame on top after the move has entered into the draining models. -/
def drainsAfter : CoordinatorMove → Option String
  | .goto next => next.drains
  | .call _ callee => callee.drains
  | .ret _ => none

def resizesAfter : CoordinatorMove → Option String
  | .goto next => next.resizes
  | .call _ callee => callee.resizes
  | .ret _ => none

open BackendCoordinator

section Moves

variable {c : BackendCoordinator} {input : Reading} {name : String} {result : Result Unit}
  {P : BackendCoordinator → CoordinatorMove → Prop}

theorem ensures_returns : Ensures (c.returns result) P ↔ P c (.ret result) := ensures_some

theorem ensures_goes {frame : Frame} : Ensures (c.goes frame) P ↔ P c (.goto frame) := ensures_some

theorem ensures_calls {frame callee : Frame} :
    Ensures (c.calls frame callee) P ↔ P c (.call frame callee) := ensures_some

theorem ensures_gate {refused : Error → CoordinatorMove} {next : CoordinatorMove} :
    Ensures (c.gate input name refused next) P ↔
      (c.sessionForAnother name input.now →
        P (c.advanceGeneration.noteDecision ("voice session reserved before loading " ++ name))
          (refused { code := .resourceBusy
                     message := "voice session has priority before loading model: " ++ name })) ∧
        (¬c.sessionForAnother name input.now → P c next) := by
  unfold gate requirePrioritySessionAllows
  split_ifs with hsession
  · simp [err, hsession]
  · simp [hsession]

end Moves

section Proceeds

variable {c : BackendCoordinator} {canLock : LifecycleLock → Bool} {input : Reading}
  {name : String} {control : Control} {held : Option LifecycleLock} {result : Result Unit}
  {lifecycleLock : String → LifecycleLock} {frame next callee : Frame}

theorem proceeds_ret : frame.Proceeds lifecycleLock (.ret result) := trivial

theorem proceeds_goto : frame.Proceeds lifecycleLock (.goto next) ↔
    next.Guarded lifecycleLock ∧ next.isPrepareCapacity = frame.isPrepareCapacity := Iff.rfl

theorem proceeds_call : frame.Proceeds lifecycleLock (.call next callee) ↔
    next.Guarded lifecycleLock ∧ next.isPrepareCapacity = frame.isPrepareCapacity ∧
      next.drains = none ∧ next.resizes = none ∧ callee.Enters ∧
      (callee.isPrepareCapacity → next.holds = some .swap) := Iff.rfl

theorem guarded_unload {pc : UnloadPc} :
    (Frame.unload name control held pc).Guarded lifecycleLock ↔
      pc = .start ∨ held = some (lifecycleLock name) := Iff.rfl

theorem guarded_load {pc : LoadPc} :
    (Frame.load name control held pc result).Guarded lifecycleLock ↔
      pc = .start ∨ held = some (lifecycleLock name) := Iff.rfl

theorem guarded_prepareCapacity {force : Bool} {required : ℤ} {pc : PrepareCapacityPc} :
    (Frame.prepareCapacity name control force required pc result).Guarded lifecycleLock := trivial

theorem guarded_swap {pc : SwapPc} :
    (Frame.swap name control held pc result).Guarded lifecycleLock ↔
      pc = .start ∨ pc = .lock ∨ pc = .tail ∨ held = some .swap := Iff.rfl

theorem guarded_swapCancellable {pc : SwapCancellablePc} :
    (Frame.swapCancellable name control pc result).Guarded lifecycleLock := trivial

theorem guarded_prepareRequest {demand : RequestDemand} {pc : PrepareRequestPc} :
    (Frame.prepareRequest name demand control held pc).Guarded lifecycleLock ↔
      pc = .start ∨ held = some .swap := Iff.rfl

theorem guarded_acquire {opts : AcquireSlotOptions} {deadline : TimePoint} {pc : AcquirePc} :
    (Frame.acquire name opts deadline pc result).Guarded lifecycleLock := trivial

theorem unloadStep_proceeds {pc : UnloadPc}
    (h : (Frame.unload name control held pc).Guarded c.lifecycleLock) :
    Ensures (c.unloadStep canLock input name control held pc) fun _ move =>
      (Frame.unload name control held pc).Proceeds c.lifecycleLock move ∧
        resizesAfter move = none := by
  rw [guarded_unload] at h
  cases pc
  case' unloading taken _ _ => cases taken <;> cases hdone : input.done
  all_goals simp only [reduceCtorEq, false_or, true_or] at h
  all_goals simp +contextual only [*, unloadStep, drainTurn, ensures_returns, ensures_goes,
    ensures_ite, ensures_none, proceeds_ret, proceeds_goto, guarded_unload, resizesAfter,
    Frame.isPrepareCapacity, Frame.resizes, or_true, not_true_eq_false, implies_true, and_self]

theorem loadStep_proceeds {pc : LoadPc}
    (h : (Frame.load name control held pc result).Guarded c.lifecycleLock) :
    Ensures (c.loadStep canLock input name control held result pc) fun _ move =>
      (Frame.load name control held pc result).Proceeds c.lifecycleLock move ∧
        drainsAfter move = none ∧ resizesAfter move = none := by
  rw [guarded_load] at h
  cases pc
  case' start => cases hinfo : c.registry.getInfoResult name
  case' locked => cases hresident : c.residentBackend name
  case' recovered => cases result
  case' create recovery =>
    cases recovery <;> cases hinstance : c.instances.lookup name <;> cases hcreated : input.created
  case' resize => cases hdone : input.done
  case' loaded => cases result
  all_goals simp only [reduceCtorEq, false_or, true_or] at h
  all_goals simp +contextual only [*, loadStep, ensures_returns, ensures_goes, ensures_some,
    ensures_ite, ensures_bind, ensures_none, proceeds_ret, proceeds_goto, proceeds_call,
    guarded_load, drainsAfter, resizesAfter, Frame.isPrepareCapacity, Frame.drains, Frame.resizes,
    Frame.callUnload, Frame.Enters.unload, or_true, Bool.false_eq_true, false_implies,
    implies_true, and_self]

variable (lifecycleLock) in
theorem prepareCapacityStep_proceeds {force : Bool} {required : ℤ} {pc : PrepareCapacityPc} :
    Ensures (c.prepareCapacityStep input name control force required result pc) fun _ move =>
      (Frame.prepareCapacity name control force required pc result).Proceeds lifecycleLock move ∧
        drainsAfter move = none := by
  cases pc
  case' start => cases hinfo : c.registry.getInfoResult name
  case' reclaim => cases hchoice : input.choice
  case' reclaimed _ _ observed outcome => rcases outcome with _ | (_ | _) <;> cases observed
  case' shrink => cases hchoice : input.choice
  case' shrunk _ _ outcome => cases outcome
  case' evict => cases hchoice : input.choice
  case' evicted => cases result
  all_goals simp +contextual only [*, prepareCapacityStep, capacityVerdict, ensures_returns,
    ensures_goes, ensures_ite, ensures_bind, ensures_none, ensures_gate, proceeds_ret,
    proceeds_goto, proceeds_call, guarded_prepareCapacity, drainsAfter, Frame.isPrepareCapacity,
    Frame.drains, Frame.resizes, PrepareCapacityPc.candidate, Frame.callUnload,
    Frame.Enters.unload, Bool.false_eq_true, false_implies, implies_true, and_self]

theorem swapStep_proceeds {pc : SwapPc}
    (h : (Frame.swap name control held pc result).Guarded lifecycleLock) :
    Ensures (c.swapStep canLock input name control held result pc) fun _ move =>
      (Frame.swap name control held pc result).Proceeds lifecycleLock move ∧
        drainsAfter move = none ∧ resizesAfter move = none := by
  rw [guarded_swap] at h
  cases pc
  case' start => cases hinfo : c.registry.getInfoResult name
  case' plan => cases hinfo : c.registry.entries.lookup name
  case' unbudgeted => cases hcurrent : c.currentLoaded
  case' unbudgetedUnloaded => cases result
  case' unbudgetedLoaded current => cases result <;> cases current
  case' unbudgetedRestored => cases result
  case' prepared => cases result
  case' loaded => cases result
  case' retryPrepared => cases result
  case' retryLoaded => cases result
  case' restore snapshot _ _ => rcases hbefore : snapshot.before with _ | ⟨⟨_, _⟩, _⟩
  case' restored primary _ =>
    cases hprimary : primary.filter fun primary => (c.residentBackend primary).isSome
  all_goals simp only [reduceCtorEq, false_or, true_or] at h
  all_goals simp +contextual only [*, swapStep, ensures_returns, ensures_goes, ensures_calls,
    ensures_ite, ensures_none, ensures_gate, proceeds_ret, proceeds_goto, proceeds_call,
    guarded_swap, drainsAfter, resizesAfter, Frame.isPrepareCapacity, Frame.drains, Frame.resizes,
    Frame.holds, PrepareCapacityPc.candidate,
    Frame.callUnload, Frame.callLoad, Frame.callPrepareCapacity, Frame.Enters.unload,
    Frame.Enters.load, Frame.Enters.prepareCapacity, Bool.false_eq_true, false_implies, or_true, true_or,
    implies_true, and_self]

variable (lifecycleLock) in
theorem swapCancellableStep_proceeds {pc : SwapCancellablePc} :
    Ensures (c.swapCancellableStep name control result pc) fun _ move =>
      (Frame.swapCancellable name control pc result).Proceeds lifecycleLock move ∧
        drainsAfter move = none ∧ resizesAfter move = none := by
  cases pc
  case' start => cases hinfo : c.registry.getInfoResult name
  all_goals simp +contextual only [*, swapCancellableStep, ensures_returns, ensures_goes, ensures_calls,
    ensures_ite, proceeds_ret, proceeds_goto, proceeds_call,
    guarded_swapCancellable, drainsAfter, resizesAfter, Frame.isPrepareCapacity, Frame.drains, Frame.resizes,
    Frame.callLoad, Frame.callSwap, 
    Frame.Enters.load, Frame.Enters.swap, Bool.false_eq_true, false_implies, 
    implies_true, and_self]

theorem prepareRequestStep_proceeds {demand : RequestDemand} {pc : PrepareRequestPc}
    (h : (Frame.prepareRequest name demand control held pc).Guarded lifecycleLock) :
    Ensures (c.prepareRequestStep canLock input name demand control held pc) fun _ move =>
      (Frame.prepareRequest name demand control held pc).Proceeds lifecycleLock move ∧
        drainsAfter move = none := by
  rw [guarded_prepareRequest] at h
  cases pc
  case' ensured result => cases result
  all_goals simp only [reduceCtorEq, false_or, true_or] at h
  all_goals simp +contextual only [*, prepareRequestStep, ensures_returns, ensures_goes,
    ensures_ite, ensures_bind, ensures_none, proceeds_ret, proceeds_goto,
    guarded_prepareRequest, drainsAfter, Frame.isPrepareCapacity, Frame.drains, or_true, implies_true, and_self]

/-- The turn takes a slot and ends with a lease or without one, or takes the slot in vain. -/
theorem takeSlotTurn_eq_some {opts : AcquireSlotOptions} {id : ℕ} {waiter : SlotWaiter}
    {again : Frame} {c' : BackendCoordinator} {move : CoordinatorMove}
    (h : c.takeSlotTurn input id waiter opts again = some (c', move)) :
    ∃ backend slot taken result leased, c.readyBackend waiter.model = some backend ∧
      backend.acquireSlot input.slot = (.ok slot, taken) ∧
      c.leaseSlot waiter.model backend input.slot
        (if waiter.demandPrepared then waiter.demand else none) opts.reservationKey opts.priority
        input.failure input.now = (result, leased) ∧
      ((c' = leased.eraseWaiterLocked id ∧ move = .ret (result.map fun _ => ())) ∨
        (c' = leased ∧ move = .goto again ∧ result.toOption = none)) := by
  unfold takeSlotTurn at h
  cases hready : c.readyBackend waiter.model with
  | none => simp [hready] at h
  | some backend =>
      rcases hslot : backend.acquireSlot input.slot with ⟨slot, taken⟩
      cases slot with
      | error e => simp [hready, hslot] at h
      | ok slot =>
          rcases hlease : c.leaseSlot waiter.model backend input.slot
            (if waiter.demandPrepared then waiter.demand else none) opts.reservationKey
            opts.priority input.failure input.now with ⟨result, leased⟩
          refine ⟨backend, slot, taken, result, leased, rfl, hslot, hlease, ?_⟩
          simp only [hready, hslot, hlease] at h
          cases result with
          | ok leaseId =>
              obtain ⟨rfl, rfl⟩ := Prod.mk.inj (Option.some.inj h)
              exact .inl ⟨rfl, rfl⟩
          | error e =>
              dsimp only at h
              split_ifs at h
              · obtain ⟨rfl, rfl⟩ := Prod.mk.inj (Option.some.inj h)
                exact .inr ⟨rfl, rfl, rfl⟩
              · obtain ⟨rfl, rfl⟩ := Prod.mk.inj (Option.some.inj h)
                exact .inl ⟨rfl, rfl⟩

theorem acquireLoop_proceeds {opts : AcquireSlotOptions} {deadline : TimePoint} {id : ℕ} :
    Ensures (c.acquireLoop input name opts deadline id) fun _ move =>
      (Frame.acquire name opts deadline (.loop id) result).Proceeds lifecycleLock move ∧
        drainsAfter move = none ∧ resizesAfter move = none := by
  unfold acquireLoop
  cases hfind : c.waiters.find id
  case some waiter =>
    cases hturn : c.acquireTurn opts waiter input.now
    case takeSlot =>
      simp only [*, leaves, ensures_returns, ensures_ite, proceeds_ret, drainsAfter, resizesAfter,
        implies_true, and_self, true_and]
      intro _ _ c' move hmove
      obtain ⟨_, _, _, _, _, -, -, -, ⟨-, rfl⟩ | ⟨-, rfl, -⟩⟩ := takeSlotTurn_eq_some hmove
      · exact ⟨trivial, rfl, rfl⟩
      · exact ⟨⟨trivial, rfl⟩, rfl, rfl⟩
    all_goals simp only [*, leaves, ensures_returns, ensures_goes, ensures_calls, ensures_ite, ensures_none,
      proceeds_ret, proceeds_goto, proceeds_call, guarded_acquire, drainsAfter, resizesAfter, Frame.isPrepareCapacity,
      Frame.drains, Frame.resizes, Frame.callSwapCancellable, Frame.callPrepareRequest, Frame.Enters.swapCancellable, Frame.Enters.prepareRequest,
      Bool.false_eq_true, false_implies, implies_true, and_self]
  all_goals simp only [*, leaves, ensures_returns, ensures_ite, ensures_none, proceeds_ret, drainsAfter, resizesAfter, implies_true, and_self]

variable (lifecycleLock) in
theorem acquireStep_proceeds {opts : AcquireSlotOptions} {deadline : TimePoint} {pc : AcquirePc} :
    Ensures (c.acquireStep input name opts deadline result pc) fun _ move =>
      (Frame.acquire name opts deadline pc result).Proceeds lifecycleLock move ∧
        drainsAfter move = none ∧ resizesAfter move = none := by
  cases pc
  case loop id => exact acquireLoop_proceeds
  case' start => rcases henqueue : c.enqueue name opts input.now with ⟨_ | _, _⟩
  case' demanding => cases hdemand : input.demand
  case' capacityPrepared => cases result
  case' prepared => cases result
  all_goals simp +contextual only [*, acquireStep, afterCallback, leaves, ensures_returns, ensures_goes,
    ensures_ite, proceeds_ret, proceeds_goto, guarded_acquire, drainsAfter, resizesAfter,
    Frame.isPrepareCapacity, Frame.drains, Frame.resizes, implies_true, and_self]

/-- Every step of a guarded frame goes on properly. -/
theorem frameStep_proceeds (h : frame.Guarded c.lifecycleLock) :
    Ensures (frameStep canLock input c frame) fun _ move =>
      frame.Proceeds c.lifecycleLock move := by
  cases frame with
  | unload name control held pc => exact (unloadStep_proceeds h).mono fun _ _ h => h.1
  | load name control held pc result => exact (loadStep_proceeds h).mono fun _ _ h => h.1
  | prepareCapacity name control force required pc result =>
      exact (prepareCapacityStep_proceeds _).mono fun _ _ h => h.1
  | swap name control held pc result => exact (swapStep_proceeds h).mono fun _ _ h => h.1
  | swapCancellable name control pc result =>
      exact (swapCancellableStep_proceeds _).mono fun _ _ h => h.1
  | prepareRequest name demand control held pc =>
      exact (prepareRequestStep_proceeds h).mono fun _ _ h => h.1
  | acquire name opts deadline pc result => exact (acquireStep_proceeds _).mono fun _ _ h => h.1

end Proceeds

end InferDeck.Model
