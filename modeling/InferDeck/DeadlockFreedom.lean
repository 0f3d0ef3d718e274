import InferDeck.LifecycleInvariant
import InferDeck.LockOrder

/-!
# The coordinator's calls do not block each other for good

The swap lock comes before the sidecar lock: whoever waits for the swap lock holds no lock, or the
swap lock itself. So every call waits in the end for one that goes on. The one exception is a thread
that resizes a sidecar's backend, which it does under the swap lock, when the sidecar is unloaded
under its own lock meanwhile.
-/

namespace InferDeck.Model

open Function Relation InferDeck.Execution InferDeck.Foundation InferDeck.Threads BackendCoordinator

def LifecycleLock.place : LifecycleLock → Fin 2
  | .swap => 0
  | .sidecar => 1

theorem LifecycleLock.place_injective : Injective place := by
  intro l l' h
  cases l <;> cases l' <;> first | rfl | cases h

instance : LinearOrder LifecycleLock := LinearOrder.lift' _ LifecycleLock.place_injective

instance : Finite LifecycleLock := Finite.of_injective _ LifecycleLock.place_injective

theorem LifecycleLock.swap_lt_sidecar : LifecycleLock.swap < .sidecar :=
  show LifecycleLock.place .swap < LifecycleLock.place .sidecar from Fin.zero_lt_one

def LoadPc.operand (name : String) : LoadPc → Option String
  | .resize _ => some name
  | .load => some name
  | _ => none

def PrepareCapacityPc.operand : PrepareCapacityPc → Option String
  | .reclaimGate _ candidate _ => some candidate
  | .reclaiming _ candidate _ => some candidate
  | .shrinkGate candidate _ => some candidate
  | .shrinking candidate _ => some candidate
  | _ => none

def PrepareRequestPc.operand (name : String) : PrepareRequestPc → Option String
  | .ensuring => some name
  | _ => none

namespace Frame

variable (lifecycleLock : String → LifecycleLock)

def lock : Frame → LifecycleLock
  | .unload name .. => lifecycleLock name
  | .load name .. => lifecycleLock name
  | .prepareCapacity .. => .swap
  | .swap .. => .swap
  | .swapCancellable .. => .swap
  | .prepareRequest .. => .swap
  | .acquire .. => .swap

def waits : Frame → Option LifecycleLock
  | .unload name _ _ .start => some (lifecycleLock name)
  | .load name _ _ .start _ => some (lifecycleLock name)
  | .swap _ _ _ .lock _ => some .swap
  | .prepareRequest _ _ _ _ .start => some .swap
  | _ => none

def operates : Frame → Option String
  | .load name _ _ pc _ => pc.operand name
  | .prepareCapacity _ _ _ _ pc _ => pc.operand
  | .prepareRequest name _ _ _ pc => pc.operand name
  | .unload .. => none
  | .swap .. => none
  | .swapCancellable .. => none
  | .acquire .. => none

/-- How a frame goes on with its lock, and with whom it calls. -/
def Advances (canLock : LifecycleLock → Bool) (frame : Frame) : CoordinatorMove → Prop
  | .goto next => next.lock lifecycleLock = frame.lock lifecycleLock ∧
      (next.holds = frame.holds ∨
        next.holds = some (frame.lock lifecycleLock) ∧ canLock (frame.lock lifecycleLock) = true)
  | .call next callee => next.lock lifecycleLock = frame.lock lifecycleLock ∧
      next.holds = frame.holds ∧ next.operates = none ∧
      (callee.lock lifecycleLock = frame.lock lifecycleLock ∨ frame.lock lifecycleLock = .swap)
  | .ret _ => True

end Frame

def operatesAfter : CoordinatorMove → Option String
  | .goto next => next.operates
  | .call _ callee => callee.operates
  | .ret _ => none

/-- The frame goes on with its own lock, and comes to operate only on an instance that is there. -/
def Frame.Follows (lifecycleLock : String → LifecycleLock) (canLock : LifecycleLock → Bool)
    (frame : Frame) (c : BackendCoordinator) (move : CoordinatorMove) : Prop :=
  frame.Advances lifecycleLock canLock move ∧ ∀ n, operatesAfter move = some n →
    frame.operates = some n ∧ resizesAfter move = frame.resizes ∨ (c.instances.lookup n).isSome

section Follows

variable {c : BackendCoordinator} {canLock : LifecycleLock → Bool} {input : Reading}
  {name name' : String} {control control' : Control} {held : Option LifecycleLock}
  {result result' : Result Unit} {lifecycleLock : String → LifecycleLock} {frame : Frame}

theorem follows_ret : frame.Follows lifecycleLock canLock c (.ret result) := ⟨trivial, nofun⟩

theorem follows_unload {pc pc' : UnloadPc} :
    (Frame.unload name control held pc).Follows lifecycleLock canLock c
      (.goto (.unload name control' held pc')) :=
  ⟨⟨rfl, .inl rfl⟩, nofun⟩

theorem follows_unload_lock {pc pc' : UnloadPc} (h : canLock (lifecycleLock name) = true) :
    (Frame.unload name control held pc).Follows lifecycleLock canLock c
      (.goto (.unload name control' (some (lifecycleLock name)) pc')) :=
  ⟨⟨rfl, .inr ⟨rfl, h⟩⟩, nofun⟩

theorem follows_load {pc pc' : LoadPc} :
    (Frame.load name control held pc result).Follows lifecycleLock canLock c
        (.goto (.load name control' held pc' result')) ↔
      ∀ n, pc'.operand name = some n →
        pc.operand name = some n ∨ (c.instances.lookup n).isSome := by
  refine ⟨fun h n hn => (h.2 n hn).imp_left And.left, fun h => ?_⟩
  exact ⟨⟨rfl, .inl rfl⟩, fun n hn => (h n hn).imp_left fun hsame => ⟨hsame, rfl⟩⟩

theorem follows_load_lock {pc : LoadPc} (h : canLock (lifecycleLock name) = true) :
    (Frame.load name control held pc result).Follows lifecycleLock canLock c
      (.goto (.load name control' (some (lifecycleLock name)) .locked result')) :=
  ⟨⟨rfl, .inr ⟨rfl, h⟩⟩, nofun⟩

theorem follows_load_unload {pc : LoadPc} {slots : ℤ} :
    (Frame.load name control held pc result).Follows lifecycleLock canLock c
      (.call (.load name control held (.recovered slots) result') (.callUnload name control')) :=
  ⟨⟨rfl, rfl, rfl, .inl rfl⟩, nofun⟩

theorem follows_prepareCapacity {force force' : Bool} {required required' : ℤ}
    {pc pc' : PrepareCapacityPc} :
    (Frame.prepareCapacity name control force required pc result).Follows lifecycleLock canLock c
        (.goto (.prepareCapacity name' control' force' required' pc' result')) ↔
      ∀ n, pc'.operand = some n →
        pc.operand = some n ∧ pc'.candidate = pc.candidate ∨ (c.instances.lookup n).isSome :=
  ⟨fun h => h.2, fun h => ⟨⟨rfl, .inl rfl⟩, h⟩⟩

theorem follows_prepareCapacity_unload {force force' : Bool} {required required' : ℤ}
    {pc : PrepareCapacityPc} {candidate : String} :
    (Frame.prepareCapacity name control force required pc result).Follows lifecycleLock canLock c
      (.call (.prepareCapacity name control force' required' (.evicted candidate) result')
        (.callUnload candidate control')) :=
  ⟨⟨rfl, rfl, rfl, .inr rfl⟩, nofun⟩

theorem follows_swap {pc pc' : SwapPc} :
    (Frame.swap name control held pc result).Follows lifecycleLock canLock c
      (.goto (.swap name control' held pc' result')) :=
  ⟨⟨rfl, .inl rfl⟩, nofun⟩

theorem follows_swap_lock {pc pc' : SwapPc} (h : canLock .swap = true) :
    (Frame.swap name control held pc result).Follows lifecycleLock canLock c
      (.goto (.swap name control' (some .swap) pc' result')) :=
  ⟨⟨rfl, .inr ⟨rfl, h⟩⟩, nofun⟩

theorem follows_swap_call {pc pc' : SwapPc} {callee : Frame} (h : callee.operates = none) :
    (Frame.swap name control held pc result).Follows lifecycleLock canLock c
      (.call (.swap name control' held pc' result') callee) := by
  refine ⟨⟨rfl, rfl, rfl, .inr rfl⟩, fun n hn => ?_⟩
  rw [operatesAfter, h] at hn
  cases hn

theorem follows_swap_unload {pc pc' : SwapPc} :
    (Frame.swap name control held pc result).Follows lifecycleLock canLock c
      (.call (.swap name control held pc' result') (.callUnload name' control')) :=
  follows_swap_call rfl

theorem follows_swap_load {pc pc' : SwapPc} :
    (Frame.swap name control held pc result).Follows lifecycleLock canLock c
      (.call (.swap name control held pc' result') (.callLoad name' control')) :=
  follows_swap_call rfl

theorem follows_swap_prepareCapacity {pc pc' : SwapPc} {force : Bool} :
    (Frame.swap name control held pc result).Follows lifecycleLock canLock c
      (.call (.swap name control held pc' result') (.callPrepareCapacity name' control' force)) :=
  follows_swap_call rfl

theorem follows_swapCancellable {pc pc' : SwapCancellablePc} :
    (Frame.swapCancellable name control pc result).Follows lifecycleLock canLock c
      (.goto (.swapCancellable name control' pc' result')) :=
  ⟨⟨rfl, .inl rfl⟩, nofun⟩

theorem follows_swapCancellable_call {pc pc' : SwapCancellablePc} {callee : Frame}
    (h : callee.operates = none) :
    (Frame.swapCancellable name control pc result).Follows lifecycleLock canLock c
      (.call (.swapCancellable name control' pc' result') callee) := by
  refine ⟨⟨rfl, rfl, rfl, .inr rfl⟩, fun n hn => ?_⟩
  rw [operatesAfter, h] at hn
  cases hn

theorem follows_swapCancellable_load {pc pc' : SwapCancellablePc} :
    (Frame.swapCancellable name control pc result).Follows lifecycleLock canLock c
      (.call (.swapCancellable name control pc' result') (.callLoad name' control')) :=
  follows_swapCancellable_call rfl

theorem follows_swapCancellable_swap {pc pc' : SwapCancellablePc} :
    (Frame.swapCancellable name control pc result).Follows lifecycleLock canLock c
      (.call (.swapCancellable name control pc' result') (.callSwap name' control')) :=
  follows_swapCancellable_call rfl

theorem follows_acquire {opts : AcquireSlotOptions} {deadline deadline' : TimePoint}
    {pc pc' : AcquirePc} :
    (Frame.acquire name opts deadline pc result).Follows lifecycleLock canLock c
      (.goto (.acquire name' opts deadline' pc' result')) :=
  ⟨⟨rfl, .inl rfl⟩, nofun⟩

theorem follows_acquire_call {opts : AcquireSlotOptions} {deadline deadline' : TimePoint}
    {pc pc' : AcquirePc} {callee : Frame} (h : callee.operates = none) :
    (Frame.acquire name opts deadline pc result).Follows lifecycleLock canLock c
      (.call (.acquire name' opts deadline' pc' result') callee) := by
  refine ⟨⟨rfl, rfl, rfl, .inr rfl⟩, fun n hn => ?_⟩
  rw [operatesAfter, h] at hn
  cases hn

theorem unloadStep_follows {pc : UnloadPc} :
    Ensures (c.unloadStep canLock input name control held pc) fun c' move =>
      (Frame.unload name control held pc).Follows c.lifecycleLock canLock c' move := by
  cases pc
  case' unloading taken _ _ => cases taken <;> cases hdone : input.done
  all_goals simp +contextual only [*, unloadStep, drainTurn, ensures_returns, ensures_goes,
    ensures_ite, ensures_none, follows_ret, follows_unload, follows_unload_lock,
    not_true_eq_false, implies_true, and_self]

/-- A load operates on an instance that is there. -/
theorem loadStep_follows {pc : LoadPc} :
    Ensures (c.loadStep canLock input name control held result pc) fun c' move =>
      (Frame.load name control held pc result).Follows c.lifecycleLock canLock c' move := by
  cases pc
  case' start => cases hinfo : c.registry.getInfoResult name
  case' locked => cases hresident : c.residentBackend name
  case' recovered => cases result
  case' create recovery =>
    cases recovery <;> cases hinstance : c.instances.lookup name <;> cases hcreated : input.created
  case' resize => cases hdone : input.done
  case' loaded => cases result
  all_goals simp +contextual only [*, loadStep, ensures_returns, ensures_goes, ensures_some,
    ensures_ite, ensures_bind, ensures_none, follows_ret, follows_load, follows_load_lock,
    follows_load_unload, LoadPc.operand, setInstance, AList.lookup_insert, Option.some.injEq,
    Option.isSome_some, reduceCtorEq, forall_eq', false_implies, true_or, or_true, implies_true,
    and_self]

theorem isSome_of_chooses {eligible : String → Backend → Bool} {candidate : String}
    (h : c.chooses eligible (some candidate) = true) :
    (c.instances.lookup candidate).isSome := by
  obtain ⟨backend, hlookup, -⟩ := (Option.any_eq_true _ _).1 h
  exact Option.isSome_of_mem hlookup

/-- Room is made in an instance that is there. -/
theorem prepareCapacityStep_follows {force : Bool} {required : ℤ} {pc : PrepareCapacityPc} :
    Ensures (c.prepareCapacityStep input name control force required result pc) fun c' move =>
      (Frame.prepareCapacity name control force required pc result).Follows lifecycleLock canLock
        c' move := by
  cases pc
  case' start => cases hinfo : c.registry.getInfoResult name
  case' reclaim => cases hchoice : input.choice
  case' reclaimed _ _ observed outcome => rcases outcome with _ | (_ | _) <;> cases observed
  case' shrink => cases hchoice : input.choice
  case' shrunk _ _ outcome => cases outcome
  case' evict => cases hchoice : input.choice
  case' evicted => cases result
  all_goals simp only [*, prepareCapacityStep, capacityVerdict, ensures_returns, ensures_goes,
    ensures_ite, ensures_bind, ensures_none, ensures_gate, follows_ret, follows_prepareCapacity,
    follows_prepareCapacity_unload, PrepareCapacityPc.operand, PrepareCapacityPc.candidate,
    resize, Option.some.injEq, reduceCtorEq, forall_eq', false_implies, true_or, false_or,
    implies_true, and_self, and_true, true_and]
  case reclaim.some => exact fun _ _ => isSome_of_chooses
  case shrink.some => exact fun _ _ _ => isSome_of_chooses

theorem isSome_of_resident (h : ¬(c.residentBackend name).isNone = true) :
    (c.instances.lookup name).isSome := by
  obtain ⟨backend, hresident⟩ := Option.isSome_iff_exists.1
    (Option.isSome_iff_ne_none.2 fun hnone => h (Option.isNone_iff_eq_none.2 hnone))
  exact Option.isSome_of_mem (Option.filter_eq_some_iff.1 hresident).1

theorem swapStep_follows {pc : SwapPc} :
    Ensures (c.swapStep canLock input name control held result pc) fun c' move =>
      (Frame.swap name control held pc result).Follows lifecycleLock canLock c' move := by
  cases pc
  case lock =>
    simp only [swapStep, ensures_returns, ensures_goes, ensures_ite, ensures_none, follows_ret,
      implies_true, and_true]
    exact follows_swap_lock
  case' start => cases hinfo : c.registry.getInfoResult name
  case' plan => cases hinfo : c.registry.entries.lookup name
  case' unbudgeted => cases hcurrent : c.currentLoaded
  case' unbudgetedUnloaded => cases result
  case' unbudgetedLoaded current => cases result <;> cases current
  case' unbudgetedRestored => cases result
  case' prepared => cases result
  case' loaded => cases result
  case' retryPrepared => cases result
  case' retryLoaded => cases result
  case' restore snapshot _ _ => rcases hbefore : snapshot.before with _ | ⟨⟨_, _⟩, _⟩
  case' restored primary _ =>
    cases hprimary : primary.filter fun primary => (c.residentBackend primary).isSome
  all_goals simp only [*, swapStep, ensures_returns, ensures_goes, ensures_calls, ensures_ite,
    ensures_gate, follows_ret, follows_swap, follows_swap_unload, follows_swap_load,
    follows_swap_prepareCapacity, implies_true, and_self]

theorem swapCancellableStep_follows {pc : SwapCancellablePc} :
    Ensures (c.swapCancellableStep name control result pc) fun c' move =>
      (Frame.swapCancellable name control pc result).Follows lifecycleLock canLock c' move := by
  cases pc
  case' start => cases hinfo : c.registry.getInfoResult name
  all_goals simp only [*, swapCancellableStep, ensures_returns, ensures_goes, ensures_calls,
    ensures_ite, follows_ret, follows_swapCancellable, follows_swapCancellable_load,
    follows_swapCancellable_swap, implies_true, and_self]

theorem prepareRequestStep_follows {demand : RequestDemand} {pc : PrepareRequestPc} :
    Ensures (c.prepareRequestStep canLock input name demand control held pc) fun c' move =>
      (Frame.prepareRequest name demand control held pc).Follows lifecycleLock canLock c'
        move := by
  cases pc with
  | start =>
      simp only [prepareRequestStep, ensures_goes, ensures_ite, ensures_none, implies_true,
        and_true]
      exact fun hcan => ⟨⟨rfl, .inr ⟨rfl, hcan⟩⟩, fun _ hn => by cases hn⟩
  | locked =>
      simp only [prepareRequestStep, ensures_returns, ensures_goes, ensures_ite, follows_ret,
        implies_true, true_and]
      intro hresident _ _
      refine ⟨⟨rfl, .inl rfl⟩, fun n hn => .inr ?_⟩
      exact Option.some.inj hn ▸ isSome_of_resident hresident
  | ensuring =>
      simp only [prepareRequestStep, ensures_bind, ensures_goes]
      exact fun _ _ => ⟨⟨rfl, .inl rfl⟩, fun _ hn => by cases hn⟩
  | ensured result =>
      cases result
      all_goals simp only [prepareRequestStep, ensures_returns, follows_ret]

theorem acquireLoop_follows {opts : AcquireSlotOptions} {deadline : TimePoint} {id : ℕ} :
    Ensures (c.acquireLoop input name opts deadline id) fun c' move =>
      (Frame.acquire name opts deadline (.loop id) result).Follows lifecycleLock canLock c'
        move := by
  unfold acquireLoop
  cases hfind : c.waiters.find id
  case some waiter =>
    cases hturn : c.acquireTurn opts waiter input.now
    case takeSlot =>
      simp only [*, leaves, ensures_returns, ensures_ite, follows_ret, implies_true, true_and]
      intro _ _ c' move hmove
      obtain ⟨_, _, _, _, _, -, -, -, ⟨-, rfl⟩ | ⟨-, rfl, -⟩⟩ := takeSlotTurn_eq_some hmove
      · exact follows_ret
      · exact follows_acquire
    all_goals simp only [*, leaves, ensures_returns, ensures_goes, ensures_calls, ensures_ite,
      ensures_none, follows_ret, follows_acquire, implies_true, and_self, true_and]
    case prepareCapacity => exact fun _ _ => follows_acquire_call rfl
    case load => exact fun _ _ => follows_acquire_call rfl
  all_goals simp only [*, leaves, ensures_returns, ensures_ite, ensures_none, follows_ret,
    implies_true, and_self]

theorem acquireStep_follows {opts : AcquireSlotOptions} {deadline : TimePoint} {pc : AcquirePc} :
    Ensures (c.acquireStep input name opts deadline result pc) fun c' move =>
      (Frame.acquire name opts deadline pc result).Follows lifecycleLock canLock c' move := by
  cases pc
  case loop id => exact acquireLoop_follows
  case' start => rcases henqueue : c.enqueue name opts input.now with ⟨_ | _, _⟩
  case' demanding => cases hdemand : input.demand
  case' capacityPrepared => cases result
  case' prepared => cases result
  all_goals simp only [*, acquireStep, afterCallback, leaves, ensures_returns, ensures_goes,
    ensures_ite, follows_ret, follows_acquire, implies_true, and_self]

theorem frameStep_follows (frame : Frame) :
    Ensures (frameStep canLock input c frame) fun c' move =>
      frame.Follows c.lifecycleLock canLock c' move := by
  cases frame with
  | unload name control held pc => exact unloadStep_follows
  | load name control held pc result => exact loadStep_follows
  | prepareCapacity name control force required pc result => exact prepareCapacityStep_follows
  | swap name control held pc result => exact swapStep_follows
  | swapCancellable name control pc result => exact swapCancellableStep_follows
  | prepareRequest name demand control held pc => exact prepareRequestStep_follows
  | acquire name opts deadline pc result => exact acquireStep_follows

end Follows

section Enabled

variable {c : BackendCoordinator} {canLock : LifecycleLock → Bool} {input : Reading}
  {name : String} {control : Control} {held : Option LifecycleLock} {result : Result Unit}

theorem isSome_returns : (c.returns result).isSome = true := rfl

theorem isSome_goes {frame : Frame} : (c.goes frame).isSome = true := rfl

theorem isSome_calls {frame callee : Frame} : (c.calls frame callee).isSome = true := rfl

theorem isSome_gate {refused : Error → CoordinatorMove} {next : CoordinatorMove} :
    (c.gate input name refused next).isSome = true := by
  unfold gate requirePrioritySessionAllows
  split_ifs <;> rfl

theorem isSome_ite {α : Type} {p : Prop} [Decidable p] {x y : Option α} :
    (if p then x else y).isSome = true ↔ (p → x.isSome = true) ∧ (¬p → y.isSome = true) := by
  split_ifs with h <;> simp [h]

/-- A backend that is there does an operation that changes nothing. -/
theorem operate_none (h : (c.instances.lookup name).isSome) : c.operate name none = some c := by
  obtain ⟨backend, hlookup⟩ := Option.isSome_iff_exists.1 h
  unfold operate
  rw [hlookup]

theorem resizeSlots_failing {slots : ℤ} {e : Error} (h : (c.instances.lookup name).isSome)
    (hafter : input.after = none) (hfails : input.outcome = .error e) :
    c.resizeSlots input name slots = some c := by
  have hdone : input.done = .error e := by rw [Reading.done, hfails]; rfl
  rw [resizeSlots, hafter, operate_none h, hdone]
  rfl

/-- Among the instances that satisfy a condition there is one with the greatest estimate. -/
theorem exists_chooses (eligible : String → Backend → Bool) :
    ∃ choice, c.chooses eligible choice = true ∧ choice.all (c.largest eligible) = true := by
  let s : Set (Sigma fun _ : String => Backend) :=
    {e | e ∈ c.instances.entries ∧ eligible e.1 e.2 = true}
  have hfinite : s.Finite := (List.finite_toSet c.instances.entries).subset fun e he => he.1
  by_cases hs : s.Nonempty
  · obtain ⟨e, ⟨hmem, heligible⟩, hmax⟩ :=
      Set.exists_max_image s (fun e => e.2.estimatedVramMb) hfinite hs
    have hlookup : c.instances.lookup e.1 = some e.2 := AList.mem_lookup_iff.2 hmem
    refine ⟨some e.1, ?_, ?_⟩
    · rw [chooses, hlookup]
      exact heligible
    · rw [Option.all_some, largest, hlookup, Option.any_some, List.all_eq_true]
      intro e' he'
      by_cases heligible' : eligible e'.1 e'.2 = true
      · rw [Bool.or_eq_true, decide_eq_true_iff]
        exact .inr (hmax e' ⟨he', heligible'⟩)
      · simp [heligible']
  · refine ⟨none, ?_, rfl⟩
    rw [chooses, List.all_eq_true]
    intro e he
    rw [Bool.not_eq_true', ← Bool.not_eq_true]
    exact fun heligible => hs ⟨e, he, heligible⟩

theorem unloadStep_enabled {pc : UnloadPc}
    (hlock : pc = .start → canLock (c.lifecycleLock name) = true) :
    ∃ input, (c.unloadStep canLock input name control held pc).isSome = true := by
  cases pc with
  | start => exact ⟨{ now := 0 }, by rw [unloadStep, if_pos (hlock rfl)]; rfl⟩
  | locked drainDeadline =>
      refine ⟨{ now := 0 }, ?_⟩
      simp only [unloadStep, drainTurn, isSome_ite, isSome_returns, isSome_goes,
        not_true_eq_false, false_implies, implies_true, and_self]
  | draining drainDeadline =>
      -- Once the time is up, the wait is over.
      refine ⟨{ now := drainDeadline }, ?_⟩
      simp only [unloadStep, drainTurn, lt_irrefl, decide_false, Bool.and_false, Bool.false_and,
        isSome_ite, isSome_returns, isSome_goes, Bool.false_eq_true, false_implies, implies_true,
        and_self]
  | unloading taken wasPrimary releasedVram => exact ⟨{ now := 0 }, by cases taken <;> rfl⟩

theorem loadStep_enabled {pc : LoadPc}
    (hlock : pc = .start → canLock (c.lifecycleLock name) = true)
    (hthere : ∀ n, (Frame.load name control held pc result).operates = some n →
      (c.instances.lookup n).isSome) :
    ∃ input, (c.loadStep canLock input name control held result pc).isSome = true := by
  cases pc with
  | start =>
      refine ⟨{ now := 0 }, ?_⟩
      cases hinfo : c.registry.getInfoResult name
      all_goals simp only [loadStep, hinfo, hlock, if_true, isSome_ite, isSome_returns,
        isSome_goes, implies_true, and_self]
  | locked =>
      refine ⟨{ now := 0 }, ?_⟩
      cases hresident : c.residentBackend name
      all_goals simp only [loadStep, hresident, isSome_ite, isSome_returns, isSome_goes,
        Option.isSome_some, implies_true, and_self]
  | recovered slots =>
      refine ⟨{ now := 0 }, ?_⟩
      cases result <;> rfl
  | create recovery =>
      refine ⟨{ now := 0 }, ?_⟩
      cases recovery <;> cases hinstance : c.instances.lookup name
      all_goals simp only [loadStep, hinstance, err, isSome_ite, isSome_returns, isSome_goes,
        implies_true, and_self]
  | resize slots =>
      refine ⟨{ now := 0, outcome := err .unavailable "resize failed" }, ?_⟩
      rw [loadStep, resizeSlots_failing (hthere name rfl) rfl rfl]
      rfl
  | load =>
      refine ⟨{ now := 0 }, ?_⟩
      rw [loadStep, operate_none (hthere name rfl)]
      rfl
  | loaded =>
      refine ⟨{ now := 0 }, ?_⟩
      cases result <;> rfl

theorem prepareCapacityStep_enabled {force : Bool} {required : ℤ} {pc : PrepareCapacityPc}
    (hthere : ∀ n, (Frame.prepareCapacity name control force required pc result).operates = some n →
      (c.instances.lookup n).isSome) :
    ∃ input, (c.prepareCapacityStep input name control force required result pc).isSome = true := by
  cases pc with
  | reclaim attempts =>
      obtain ⟨choice, hchooses, -⟩ := exists_chooses (c := c) (c.reclaimable name attempts)
      refine ⟨{ now := 0, choice }, ?_⟩
      cases choice
      all_goals simp only [prepareCapacityStep, hchooses, if_true, isSome_ite, isSome_returns,
        isSome_goes, implies_true, and_self]
  | reclaiming attempts candidate observed =>
      refine ⟨{ now := 0 }, ?_⟩
      rw [prepareCapacityStep, operate_none (hthere candidate rfl)]
      rfl
  | observing attempts candidate previous limit =>
      refine ⟨{ now := limit }, ?_⟩
      rw [prepareCapacityStep, if_pos (by simp)]
      rfl
  | shrink =>
      obtain ⟨choice, hchooses, -⟩ := exists_chooses (c := c) (c.shrinkable name)
      refine ⟨{ now := 0, choice }, ?_⟩
      cases choice
      all_goals simp only [prepareCapacityStep, hchooses, if_true, isSome_ite, isSome_returns,
        isSome_goes, implies_true, and_self]
  | shrinking candidate nextSlots =>
      refine ⟨{ now := 0, outcome := err .unavailable "resize failed" }, ?_⟩
      rw [prepareCapacityStep, resizeSlots_failing (hthere candidate rfl) rfl rfl]
      rfl
  | evict =>
      obtain ⟨choice, hchooses, hlargest⟩ := exists_chooses (c := c) (c.evictable name)
      refine ⟨{ now := 0, choice }, ?_⟩
      cases choice
      all_goals simp only [prepareCapacityStep, hchooses, hlargest, Bool.and_self, if_true,
        isSome_ite, isSome_returns, isSome_goes, implies_true, and_self]
  | start =>
      refine ⟨{ now := 0 }, ?_⟩
      simp only [prepareCapacityStep, isSome_ite, isSome_returns, isSome_gate, implies_true,
        and_self]
  | reclaimed attempts candidate observed outcome =>
      refine ⟨{ now := 0 }, ?_⟩
      rcases outcome with _ | (_ | _) <;> cases observed <;> rfl
  | shrunk candidate nextSlots outcome =>
      refine ⟨{ now := 0 }, ?_⟩
      cases outcome <;> rfl
  | evicted candidate =>
      refine ⟨{ now := 0 }, ?_⟩
      cases result <;> rfl
  | _ =>
      refine ⟨{ now := 0 }, ?_⟩
      simp only [prepareCapacityStep, capacityVerdict, isSome_ite, isSome_returns, isSome_goes,
        isSome_gate, implies_true, and_self]

theorem swapStep_enabled {pc : SwapPc} (hlock : pc = .lock → canLock .swap = true) :
    (c.swapStep canLock input name control held result pc).isSome = true := by
  cases pc
  case' lock => have hcan := hlock rfl
  case' start => cases hinfo : c.registry.getInfoResult name
  case' plan => cases hinfo : c.registry.entries.lookup name
  case' unbudgeted => cases hcurrent : c.currentLoaded
  case' unbudgetedUnloaded => cases result
  case' unbudgetedLoaded current => cases result <;> cases current
  case' unbudgetedRestored => cases result
  case' prepared => cases result
  case' loaded => cases result
  case' retryPrepared => cases result
  case' retryLoaded => cases result
  case' restore snapshot _ _ => rcases hbefore : snapshot.before with _ | ⟨⟨_, _⟩, _⟩
  case' restored primary _ =>
    cases hprimary : primary.filter fun primary => (c.residentBackend primary).isSome
  all_goals simp only [*, swapStep, isSome_ite, isSome_returns, isSome_goes, isSome_calls,
    isSome_gate, if_true, implies_true, and_self]

theorem swapCancellableStep_enabled {pc : SwapCancellablePc} :
    (c.swapCancellableStep name control result pc).isSome = true := by
  cases pc
  case' start => cases hinfo : c.registry.getInfoResult name
  all_goals simp only [*, swapCancellableStep, isSome_ite, isSome_returns, isSome_goes,
    isSome_calls, implies_true, and_self]

theorem prepareRequestStep_enabled {demand : RequestDemand} {pc : PrepareRequestPc}
    (hlock : pc = .start → canLock .swap = true)
    (hthere : ∀ n, (Frame.prepareRequest name demand control held pc).operates = some n →
      (c.instances.lookup n).isSome) :
    ∃ input, (c.prepareRequestStep canLock input name demand control held pc).isSome = true := by
  refine ⟨{ now := 0 }, ?_⟩
  cases pc with
  | start => rw [prepareRequestStep, if_pos (hlock rfl)]; rfl
  | locked =>
      simp only [prepareRequestStep, isSome_ite, isSome_returns, isSome_goes, implies_true,
        and_self]
  | ensuring => rw [prepareRequestStep, operate_none (hthere name rfl)]; rfl
  | ensured result => cases result <;> rfl

theorem acquireStep_enabled {opts : AcquireSlotOptions} {deadline : TimePoint} {pc : AcquirePc} :
    ∃ input, (c.acquireStep input name opts deadline result pc).isSome = true := by
  cases pc with
  | loop id =>
      -- A request that waits gives up when its time is over.
      refine ⟨{ now := deadline }, ?_⟩
      rw [acquireStep, acquireLoop, if_neg (by simp), if_pos le_rfl]
      rfl
  | start =>
      refine ⟨{ now := 0 }, ?_⟩
      rcases henqueue : c.enqueue name opts 0 with ⟨_ | _, _⟩
      all_goals simp only [acquireStep, henqueue, isSome_returns, isSome_goes]
  | demanding id => exact ⟨{ now := 0 }, rfl⟩
  | capacityPrepared id generationBefore =>
      refine ⟨{ now := 0 }, ?_⟩
      cases result
      all_goals simp only [acquireStep, afterCallback, leaves, isSome_ite, isSome_returns,
        isSome_goes, implies_true, and_self]
  | prepared id generationBefore =>
      refine ⟨{ now := 0 }, ?_⟩
      cases result
      all_goals simp only [acquireStep, afterCallback, leaves, isSome_ite, isSome_returns,
        isSome_goes, implies_true, and_self]

/-- A frame that can have its lock and its backend goes on for some reading of the world. -/
theorem frameStep_enabled {frame : Frame}
    (hlock : ∀ lock, frame.waits c.lifecycleLock = some lock → canLock lock = true)
    (hthere : ∀ n, frame.operates = some n → (c.instances.lookup n).isSome) :
    ∃ input, (frameStep canLock input c frame).isSome = true := by
  cases frame with
  | unload name control held pc =>
      exact unloadStep_enabled fun hpc => hlock _ (by rw [hpc, Frame.waits])
  | load name control held pc result =>
      exact loadStep_enabled (fun hpc => hlock _ (by rw [hpc, Frame.waits])) hthere
  | prepareCapacity name control force required pc result =>
      exact prepareCapacityStep_enabled hthere
  | swap name control held pc result =>
      exact ⟨{ now := 0 }, swapStep_enabled fun hpc => hlock _ (by rw [hpc, Frame.waits])⟩
  | swapCancellable name control pc result => exact ⟨{ now := 0 }, swapCancellableStep_enabled⟩
  | prepareRequest name demand control held pc =>
      exact prepareRequestStep_enabled (fun hpc => hlock _ (by rw [hpc, Frame.waits])) hthere
  | acquire name opts deadline pc result => exact acquireStep_enabled

end Enabled

section Instances

variable {c c' : BackendCoordinator} {n : String}

theorem isSome_lookup_insert {instances : Map String Backend} {name : String} {backend : Backend}
    (h : (instances.lookup n).isSome) : ((instances.insert name backend).lookup n).isSome := by
  by_cases hn : n = name
  · rw [hn, AList.lookup_insert]
    rfl
  · rwa [AList.lookup_insert_ne hn]

/-- An operation and a creation take no instance out. -/
theorem InstanceChange.stays {instances after : Map String Backend}
    (h : InstanceChange instances after) (hthere : (instances.lookup n).isSome) :
    (after.lookup n).isSome := by
  cases h with
  | same => exact hthere
  | operate name backend changed _ _ => exact isSome_lookup_insert hthere
  | create name backend _ _ => exact isSome_lookup_insert hthere

theorem BackendCoordinator.LeaseChange.stays {book : LeaseBook} (h : c.LeaseChange book)
    (hthere : (c.instances.lookup n).isSome) : (book.instances.lookup n).isSome := by
  cases h with
  | same => exact hthere
  | _ => exact isSome_lookup_insert hthere

/-- Only an unload takes an instance out, under the lock of its model. -/
theorem frameStep_stays {frame : Frame} {canLock : LifecycleLock → Bool} {input : Reading}
    {move : CoordinatorMove} (hguarded : frame.Guarded c.lifecycleLock)
    (hlocked : ∀ name control held d, frame = .unload name control held (.locked d) →
      name ∉ c.drainingModels)
    (hstep : frameStep canLock input c frame = some (c', move))
    (hthere : (c.instances.lookup n).isSome) :
    (c'.instances.lookup n).isSome ∨
      frame.operates = none ∧ frame.holds = some (c.lifecycleLock n) := by
  cases frame with
  | unload name control held pc =>
      by_cases hpc : pc = .start
      · left
        subst hpc
        have hsame : Ensures (c.unloadStep canLock input name control held .start) fun c' _ =>
            c' = c := by
          simp only [unloadStep, ensures_returns, ensures_goes, ensures_ite, ensures_none,
            implies_true, and_self]
        rw [hsame c' move hstep]
        exact hthere
      · have hheld : held = some (c.lifecycleLock name) := hguarded.resolve_left hpc
        obtain ⟨-, -, -, hchange⟩ :=
          unloadStep_changes (fun d hpc => hlocked name control held d (hpc ▸ rfl)) c' move hstep
        by_cases hn : n = name
        · exact .inr ⟨rfl, by rw [hn]; exact hheld⟩
        · left
          cases hchange with
          | same hinstances => rw [hinstances]; exact hthere
          | take _ hinstances => rw [hinstances, AList.lookup_erase_ne hn]; exact hthere
          | restore backend _ hinstances =>
              rw [hinstances, AList.lookup_insert_ne hn]
              exact hthere
          | forget _ hinstances => rw [hinstances]; exact hthere
  | load name control held pc result =>
      exact .inl ((loadStep_changes c' move hstep).2.2.2.2.stays hthere)
  | prepareCapacity name control force required pc result =>
      exact .inl ((prepareCapacityStep_changes c' move hstep).2.2.2.2.stays hthere)
  | swap name control held pc result =>
      left
      rw [(swapStep_changes c' move hstep).2.2.2.2]
      exact hthere
  | swapCancellable name control pc result =>
      left
      rw [(swapCancellableStep_changes c' move hstep).2.2.2.2]
      exact hthere
  | prepareRequest name demand control held pc =>
      exact .inl ((prepareRequestStep_changes c' move hstep).2.2.2.2.stays hthere)
  | acquire name opts deadline pc result =>
      have hrequest : RequestStep c c' := acquireStep_takes c' move hstep
      exact .inl (hrequest.changes.1.stays hthere)

end Instances

section Aligned

variable {lifecycleLock : String → LifecycleLock} {frame : Frame} {rest : List Frame}

/-- A frame takes no lock but its own, the swap lock is not wanted above the sidecar lock alone, and
the callers operate on nothing. -/
structure Frame.Aligned (lifecycleLock : String → LifecycleLock) (frame : Frame)
    (rest : List Frame) : Prop where
  own : frame.holds = none ∨ frame.holds = some (frame.lock lifecycleLock)
  order : frame.lock lifecycleLock = .swap →
    calls.holders .sidecar rest = 0 ∨ 0 < calls.holders .swap rest
  callers : ∀ caller ∈ rest, caller.operates = none

theorem Frame.waits_eq_some {lock : LifecycleLock} (h : frame.waits lifecycleLock = some lock) :
    frame.lock lifecycleLock = lock := by
  cases frame with
  | unload name control held pc => cases pc <;> cases h; rfl
  | load name control held pc result => cases pc <;> cases h; rfl
  | swap name control held pc result => cases pc <;> cases h; rfl
  | prepareRequest name demand control held pc => cases pc <;> cases h; rfl
  | _ => cases h

theorem Frame.resume_same (lifecycleLock : String → LifecycleLock) (frame : Frame)
    (result : Result Unit) :
    (frame.resume result).holds = frame.holds ∧
      (frame.resume result).lock lifecycleLock = frame.lock lifecycleLock ∧
      (frame.resume result).operates = frame.operates := by
  cases frame with
  | load name control held pc result => cases pc <;> exact ⟨rfl, rfl, rfl⟩
  | prepareCapacity name control force required pc result => cases pc <;> exact ⟨rfl, rfl, rfl⟩
  | prepareRequest name demand control held pc => cases pc <;> exact ⟨rfl, rfl, rfl⟩
  | _ => exact ⟨rfl, rfl, rfl⟩

theorem Frame.Aligned.resume {result : Result Unit} (h : frame.Aligned lifecycleLock rest) :
    (frame.resume result).Aligned lifecycleLock rest := by
  obtain ⟨hholds, hlock, -⟩ := frame.resume_same lifecycleLock result
  exact ⟨by rw [hholds, hlock]; exact h.own, by rw [hlock]; exact h.order, h.callers⟩

/-- A frame for the swap lock holds no sidecar lock. -/
theorem Frame.Aligned.order_cons (h : frame.Aligned lifecycleLock rest)
    (hswap : frame.lock lifecycleLock = .swap) :
    calls.holders .sidecar (frame :: rest) = 0 ∨ 0 < calls.holders .swap (frame :: rest) := by
  rw [System.holders_cons, System.holders_cons]
  have hheld : Owners.held (calls.holds frame) LifecycleLock.sidecar = 0 := by
    refine if_neg fun hsidecar => ?_
    rcases h.own with hown | hown
    · exact absurd (hown.symm.trans hsidecar) (by simp)
    · rw [hswap] at hown
      exact absurd (hown.symm.trans hsidecar) (by simp)
  rcases h.order hswap with hrest | hrest
  · exact .inl (by omega)
  · exact .inr (by omega)

theorem Frame.Aligned.settles {canLock : LifecycleLock → Bool} {move : CoordinatorMove}
    (h : frame.Aligned lifecycleLock rest) (hmove : frame.Advances lifecycleLock canLock move)
    (hcallee : CallsUnlocked move) : System.Settles (Frame.Aligned lifecycleLock) rest move := by
  have hnext : ∀ next : Frame, next.lock lifecycleLock = frame.lock lifecycleLock →
      (next.holds = frame.holds ∨ next.holds = some (frame.lock lifecycleLock)) →
      next.Aligned lifecycleLock rest := by
    intro next hlock hholds
    refine ⟨?_, by rw [hlock]; exact h.order, h.callers⟩
    rw [hlock]
    rcases hholds with hholds | hholds
    · rw [hholds]
      exact h.own
    · exact .inr hholds
  cases move with
  | ret result => trivial
  | goto next =>
      obtain ⟨hlock, hholds⟩ := hmove
      exact hnext next hlock (hholds.imp_right And.left)
  | call next callee =>
      obtain ⟨hlock, hholds, hidle, hown⟩ := hmove
      have haligned := hnext next hlock (.inl hholds)
      refine ⟨haligned, .inl hcallee, fun hswap => haligned.order_cons ?_, ?_⟩
      · rw [hlock]
        exact hown.elim (fun heq => heq ▸ hswap) id
      · rintro caller hcaller
        obtain rfl | hcaller := List.mem_cons.1 hcaller
        · exact hidle
        · exact h.callers caller hcaller

theorem topMark_operates_push {move : CoordinatorMove} (h : frame.Aligned lifecycleLock rest) :
    topMark Frame.operates (calls.push rest move) = operatesAfter move := by
  cases move with
  | goto next => rfl
  | call next callee => rfl
  | ret result =>
      cases rest with
      | nil => rfl
      | cons caller rest =>
          exact (caller.resume_same lifecycleLock result).2.2.trans
            (h.callers caller List.mem_cons_self)

end Aligned

namespace World

/-- The thread resizes a sidecar's backend, under the swap lock. -/
def ResizesSidecar (w : World) (tid : ℕ) (name : String) : Prop :=
  topMark Frame.resizes (w.stack tid) = some name ∧ w.shared.lifecycleLock name = .sidecar

/-- The locks are taken in order, and a thread operates on an instance that is there. -/
structure Aligned (w : World) : Prop where
  sound : w.Sound
  counted : Owners.Counted w.shared.owner
  aligned : ∀ tid, System.Nested (Frame.Aligned w.shared.lifecycleLock) (w.stack tid)
  present : ∀ tid name, topMark Frame.operates (w.stack tid) = some name →
    (w.shared.instances.lookup name).isSome ∨ w.ResizesSidecar tid name

variable {w w' : World} {tid : ℕ} {name : String}

/-- Who operates on a backend holds the lock of its model, or it is a sidecar that is resized. -/
theorem Sound.holds_of_operates (h : w.Sound)
    (hoperates : topMark Frame.operates (w.stack tid) = some name) :
    0 < calls.holders (w.shared.lifecycleLock name) (w.stack tid) ∨
      w.ResizesSidecar tid name := by
  have hresizing : topMark Frame.resizes (w.stack tid) = some name →
      0 < calls.holders (w.shared.lifecycleLock name) (w.stack tid) ∨
        w.ResizesSidecar tid name := by
    intro hresizes
    cases hlock : w.shared.lifecycleLock name with
    | swap => exact .inl (h.holds_of_resizes hresizes)
    | sidecar => exact .inr ⟨hresizes, hlock⟩
  have hplaced := h.placed tid
  cases hstack : w.stack tid with
  | nil =>
      rw [hstack] at hoperates
      cases hoperates
  | cons frame rest =>
      rw [hstack] at hoperates hplaced hresizing
      change frame.operates = some name at hoperates
      change (frame.resizes = some name → _) at hresizing
      cases frame with
      | load n control held pc result =>
          left
          have hheld : held = some (w.shared.lifecycleLock n) ∧ n = name := by
            refine ⟨(guarded_load.1 hplaced.1.guarded).resolve_left ?_, ?_⟩
            · rintro rfl
              cases hoperates
            · cases pc <;> cases hoperates <;> rfl
          obtain ⟨hheld, rfl⟩ := hheld
          rw [System.holders_cons]
          have hone : Owners.held (calls.holds (.load n control held pc result))
            (w.shared.lifecycleLock n) = 1 := if_pos hheld
          omega
      | prepareCapacity n control force required pc result =>
          exact hresizing (by cases pc <;> cases hoperates <;> rfl)
      | prepareRequest n demand control held pc =>
          exact hresizing (by cases pc <;> cases hoperates; rfl)
      | _ => cases hoperates

theorem Aligned.withShared (h : w.Aligned) {c : BackendCoordinator}
    (hsound : (w.withShared c).Sound) (howner : c.owner = w.shared.owner)
    (hregistry : c.registry = w.shared.registry)
    (hstays : ∀ n, (w.shared.instances.lookup n).isSome → (c.instances.lookup n).isSome) :
    (w.withShared c).Aligned := by
  have hlock : c.lifecycleLock = w.shared.lifecycleLock := by
    funext name
    rw [lifecycleLock, lifecycleLock, hregistry]
  refine ⟨hsound, ?_, ?_, fun tid name hoperates => ?_⟩
  · change Owners.Counted c.owner
    rw [howner]
    exact h.counted
  · intro tid
    change System.Nested (Frame.Aligned c.lifecycleLock) _
    rw [hlock]
    exact h.aligned tid
  · refine (h.present tid name hoperates).imp (hstays name) fun hsidecar => ?_
    exact ⟨hsidecar.1, (congrFun hlock name).trans hsidecar.2⟩

theorem Aligned.run (h : w.Aligned) {input : Reading} (hrun : calls.run w tid input = some w') :
    w'.Aligned := by
  have hsound := h.sound.run hrun
  have hcounted := System.counted_run calls_lawful h.counted hrun
  obtain ⟨frame, rest, shared, move, owners, hstack, hstep, howners, rfl⟩ :=
    System.run_eq_some hrun
  have hplaced := h.sound.placed tid
  have haligned := h.aligned tid
  rw [hstack] at hplaced haligned
  have hlocked : ∀ name control held d, frame = .unload name control held (.locked d) →
      name ∉ w.shared.drainingModels :=
    fun name control held d hframe => h.sound.locked_notDraining (hframe ▸ hstack)
  have hchange : FrameChange w.shared frame shared move :=
    frameStep_change hplaced.1.guarded hlocked shared move hstep
  obtain ⟨hadvances, hoperates⟩ := frameStep_follows frame shared move hstep
  have hlock : (calls.setOwner shared owners).lifecycleLock = w.shared.lifecycleLock := by
    funext name
    change shared.lifecycleLock name = _
    rw [lifecycleLock, lifecycleLock, hchange.registry]
  have hstays : ∀ n, (w.shared.instances.lookup n).isSome → (shared.instances.lookup n).isSome ∨
      frame.operates = none ∧ frame.holds = some (w.shared.lifecycleLock n) :=
    fun n => frameStep_stays hplaced.1.guarded hlocked hstep
  refine ⟨hsound, hcounted, fun t => ?_, fun t n hmark => ?_⟩
  · change System.Nested (Frame.Aligned (calls.setOwner shared owners).lifecycleLock)
      (update w.stack tid (calls.push rest move) t)
    rw [hlock]
    by_cases ht : t = tid
    · rw [ht, update_self]
      exact System.Nested.push (fun frame result rest hframe => hframe.resume) haligned
        (haligned.1.settles hadvances (frameStep_callsUnlocked frame shared move hstep))
    · rw [update_of_ne ht]
      exact h.aligned t
  · change topMark _ (update w.stack tid (calls.push rest move) t) = _ at hmark
    change (shared.instances.lookup n).isSome ∨
      topMark Frame.resizes (update w.stack tid (calls.push rest move) t) = some n ∧
        (calls.setOwner shared owners).lifecycleLock n = .sidecar
    rw [hlock]
    by_cases ht : t = tid
    · subst ht
      rw [update_self, topMark_operates_push haligned.1] at hmark
      rw [update_self, topMark_resizes_push hplaced.1]
      rcases hoperates n hmark with ⟨hbefore, hresizes⟩ | hthere
      · have hpresent := h.present t n (by rw [hstack]; exact hbefore)
        rcases hpresent with hthere | hsidecar
        · refine (hstays n hthere).imp_right fun hunloads => ?_
          rw [hunloads.1] at hbefore
          cases hbefore
        · refine .inr ⟨hresizes.trans ?_, hsidecar.2⟩
          have htop := hsidecar.1
          rw [hstack] at htop
          exact htop
      · exact .inl hthere
    · rw [update_of_ne ht] at hmark ⊢
      rcases h.present t n hmark with hthere | hsidecar
      · rcases hstays n hthere with hstill | ⟨-, hheld⟩
        · exact .inl hstill
        · -- The instance is taken out under the lock of its model.
          refine .inr ((h.sound.holds_of_operates hmark).resolve_left fun hholds => ?_)
          refine ht (h.sound.locked.exclusive hholds ?_)
          rw [hstack, System.holders_cons]
          have hone : Owners.held (calls.holds frame) (w.shared.lifecycleLock n) = 1 :=
            if_pos hheld
          omega
      · exact .inr hsidecar

theorem aligned_initial (registry : ModelRegistry) : (initial registry).Aligned where
  sound := sound_initial registry
  counted lock t n h := by cases lock <;> cases h
  aligned tid := trivial
  present tid name h := by cases h

theorem Aligned.call (h : w.Aligned) (hidle : w.stack tid = []) (call : Call) :
    Aligned { w with stack := update w.stack tid [call.frame] } := by
  refine ⟨h.sound.call hidle call, h.counted, fun t => ?_, fun t name hmark => ?_⟩
  · change System.Nested _ (update w.stack tid [call.frame] t)
    by_cases ht : t = tid
    · rw [ht, update_self]
      have henters : call.frame.Enters := by cases call <;> constructor
      exact ⟨⟨.inl henters.holds_eq_none, fun _ => .inl rfl, by simp⟩, trivial⟩
    · rw [update_of_ne ht]
      exact h.aligned t
  · change topMark _ (update w.stack tid [call.frame] t) = _ at hmark
    by_cases ht : t = tid
    · rw [ht, update_self] at hmark
      cases call <;> cases hmark
    · rw [update_of_ne ht] at hmark
      refine (h.present t name hmark).imp_right fun hsidecar => ⟨?_, hsidecar.2⟩
      change topMark _ (update w.stack tid [call.frame] t) = _
      rw [update_of_ne ht]
      exact hsidecar.1

theorem aligned_next (h : w.Aligned) {action : Action} (hnext : w.next action = some w') :
    w'.Aligned := by
  have hsound := sound_next h.sound hnext
  cases action with
  | call tid call =>
      unfold next at hnext
      dsimp only at hnext
      split_ifs at hnext with hidle
      obtain rfl := Option.some.inj hnext
      exact h.call hidle call
  | run tid input => exact h.run hnext
  | releaseSlot name leaseId failure now =>
      obtain rfl := Option.some.inj hnext
      exact h.withShared hsound (owner_releaseSlot ..) releaseSlot_changes.2.1
        fun _ => releaseSlot_changes.1.stays
  | acquireSlotNow name opts slot failure now =>
      obtain rfl := Option.some.inj hnext
      exact h.withShared hsound (owner_acquireSlotNow ..) acquireSlotNow_takes.changes.2.1
        fun _ => acquireSlotNow_takes.changes.1.stays
  | setHealth name healthy =>
      obtain rfl := Option.some.inj hnext
      unfold BackendCoordinator.setHealth at hsound ⊢
      cases hlookup : w.shared.instances.lookup name with
      | none => exact h
      | some backend =>
          rw [hlookup] at hsound
          exact h.withShared hsound rfl rfl fun _ => isSome_lookup_insert
  | session now call =>
      obtain rfl := Option.some.inj hnext
      obtain ⟨howner, hbook, -⟩ := perform_keeps w.shared now call
      refine h.withShared hsound howner (congrArg LeaseBook.registry hbook) fun n hthere => ?_
      rw [show (w.shared.perform now call).instances = w.shared.instances from
        congrArg LeaseBook.instances hbook]
      exact hthere
  | setVramBudget totalMb safetyMarginMb =>
      obtain rfl := Option.some.inj hnext
      unfold BackendCoordinator.setVramBudget at hsound ⊢
      dsimp only at hsound ⊢
      split_ifs at hsound ⊢ <;> exact h.withShared hsound rfl rfl fun _ => id
  | updateVramObservation usedMb totalMb now =>
      obtain rfl := Option.some.inj hnext
      unfold BackendCoordinator.updateVramObservation at hsound ⊢
      dsimp only at hsound ⊢
      split_ifs at hsound ⊢ <;> exact h.withShared hsound rfl rfl fun _ => id
  | setSwapCancel cancel =>
      obtain rfl := Option.some.inj hnext
      exact h.withShared hsound rfl rfl fun _ => id

/-- The swap lock is taken before the sidecar lock. -/
theorem Aligned.inOrder (h : w.Aligned) :
    calls.InOrder (Frame.waits w.shared.lifecycleLock) w := by
  rintro t lock ⟨frame, rest, hstack, hwaits⟩ held hheld
  have haligned := h.aligned t
  rw [hstack] at haligned hheld ⊢
  have hlock := Frame.waits_eq_some hwaits
  cases lock with
  | sidecar =>
      cases held with
      | sidecar => exact .inr hheld
      | swap => exact .inl LifecycleLock.swap_lt_sidecar
  | swap =>
      right
      cases held with
      | swap => exact hheld
      | sidecar =>
          refine (haligned.1.order_cons hlock).resolve_left fun hnone => ?_
          rw [hnone] at hheld
          exact Nat.lt_irrefl 0 hheld

/-- The thread has a step, for some reading of the clock, the backends and the callers. -/
def GoesOn (w : World) (tid : ℕ) : Prop := ∃ input w', w.next (.run tid input) = some w'

/-- The thread resizes a sidecar's backend that has been unloaded meanwhile. -/
def Stranded (w : World) (tid : ℕ) : Prop :=
  ∃ name, w.ResizesSidecar tid name ∧ w.shared.instances.lookup name = none

/-- A thread that waits for nobody goes on. -/
theorem Aligned.goesOn (h : w.Aligned) (hbusy : w.stack tid ≠ [])
    (hfree : ∀ t, ¬calls.WaitsFor (Frame.waits w.shared.lifecycleLock) w tid t) :
    w.GoesOn tid ∨ w.Stranded tid := by
  obtain ⟨frame, rest, hstack⟩ := List.exists_cons_of_ne_nil hbusy
  have haligned := h.aligned tid
  rw [hstack] at haligned
  have hlock : ∀ lock, frame.waits w.shared.lifecycleLock = some lock →
      Owners.canLock (calls.owner w.shared) tid lock = true := by
    intro lock hwaits
    refine (System.canLock_or_waitsFor h.sound.locked h.counted
      ⟨frame, rest, hstack, hwaits⟩).resolve_right fun hwaiting => ?_
    obtain ⟨t, ht⟩ := hwaiting
    exact hfree t ht
  by_cases hgone : ∃ n, frame.operates = some n ∧ w.shared.instances.lookup n = none
  · obtain ⟨n, hoperates, hnone⟩ := hgone
    right
    have hpresent := h.present tid n (by rw [hstack]; exact hoperates)
    exact ⟨n, hpresent.resolve_left (by simp [hnone]), hnone⟩
  · left
    have hthere : ∀ n, frame.operates = some n → (w.shared.instances.lookup n).isSome := by
      intro n hoperates
      rw [Option.isSome_iff_ne_none]
      exact fun hnone => hgone ⟨n, hoperates, hnone⟩
    obtain ⟨input, hstep⟩ := frameStep_enabled hlock hthere
    obtain ⟨⟨shared, move⟩, hstep⟩ := Option.isSome_iff_exists.1 hstep
    have hadvances := (frameStep_follows frame shared move hstep).1
    have hrelock : (Owners.relock (calls.owner w.shared) tid (calls.holds frame)
        (calls.held move)).isSome := by
      cases move with
      | goto next =>
          obtain ⟨-, hholds | ⟨hholds, hcan⟩⟩ := hadvances
          · change (Owners.relock _ _ frame.holds next.holds).isSome
            rw [Owners.relock, if_pos hholds.symm]
            rfl
          · change (Owners.relock _ _ frame.holds next.holds).isSome
            rw [hholds]
            exact Owners.relock_isSome haligned.1.own hcan
      | call next callee =>
          change (Owners.relock _ _ frame.holds next.holds).isSome
          rw [Owners.relock, if_pos hadvances.2.1.symm]
          rfl
      | ret result =>
          change (Owners.relock _ _ frame.holds none).isSome
          rw [Owners.relock]
          split_ifs <;> rfl
    obtain ⟨owners, howners⟩ := Option.isSome_iff_exists.1 hrelock
    refine ⟨input, { shared := calls.setOwner shared owners
                     stack := update w.stack tid (calls.push rest move) }, ?_⟩
    change calls.run w tid input = _
    rw [System.run, hstack]
    change (Option.bind (frameStep _ input w.shared frame) _) = _
    rw [hstep]
    dsimp only [Option.bind]
    rw [howners]
    rfl

/-- In every state of every run, each thread that is in a call goes on, or waits for a lock along a
chain of threads at whose end one goes on. Beside that, a thread can only be stranded. -/
theorem calls_deadlock_free (registry : ModelRegistry) (actions : List Action) :
    Always next (fun w => ∀ tid, w.stack tid ≠ [] →
      ∃ t, ReflTransGen (calls.WaitsFor (Frame.waits w.shared.lifecycleLock) w) tid t ∧
        (w.GoesOn t ∨ w.Stranded t)) (initial registry) actions := by
  intro done w _ hexec tid hbusy
  have h : w.Aligned :=
    invariant_of_step (fun _ _ _ hs hnext => aligned_next hs hnext) (aligned_initial registry) hexec
  obtain ⟨t, hreach, hfree⟩ := System.waits_for_free h.sound.locked h.inOrder tid
  refine ⟨t, hreach, h.goesOn ?_ hfree⟩
  rcases hreach.cases_tail with heq | ⟨t', -, -, lock, -, hheld⟩
  · rw [heq]
    exact hbusy
  · intro hnil
    rw [hnil] at hheld
    exact Nat.lt_irrefl 0 hheld

end World

end InferDeck.Model
