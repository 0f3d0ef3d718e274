import InferDeck.Residency
import InferDeck.Threads

/-!
# Calls of the coordinator, one critical section at a time

A thread that is inside a call of the coordinator has a frame for each function that it is in. A
step takes the top frame to the end of its next critical section at most; a frame that waits, for a
lock, for active requests or for its turn, has no step until what it waits for has happened. What
the caller's flags, the clock and the backends do is read anew in each step. A call on a backend
that is gone has no step either.
-/

namespace InferDeck.Model

open InferDeck.Foundation InferDeck.Threads

inductive LifecycleLock where
  | swap
  | sidecar
  deriving DecidableEq

/-- `LifecycleControl`: the deadline, and whose cancel flags the callback reads. -/
structure Control where
  deadline : Deadline := none
  caller : Bool := false
  swapFlag : Bool := false
  deriving DecidableEq

/-- What a step reads of the world outside the coordinator. -/
structure Reading where
  now : TimePoint
  /-- The caller has cancelled. -/
  cancelled : Bool := false
  /-- The model that an iteration over the instances comes upon. -/
  choice : Option String := none
  /-- The result of the backend's operation, and the backend after it. -/
  outcome : Result Bool := .ok true
  after : Option Backend := none
  /-- The new backend of the registry's factory. -/
  created : Result Backend := err .unavailable "runtime not registered"
  demand : Result RequestDemand := .ok {}
  /-- The instance is a generation model. -/
  isModel : Bool := true
  /-- The slot that a backend hands out. -/
  slot : ℕ := 0
  deriving DecidableEq

namespace Reading

variable (input : Reading)

/-- The result of an operation that gives no value. -/
def done : Result Unit := input.outcome.map fun _ => ()

def failure : Option Error :=
  match input.outcome with
  | .ok _ => none
  | .error e => some e

end Reading

inductive UnloadPc where
  | start
  | locked (drainDeadline : TimePoint)
  | draining (drainDeadline : TimePoint)
  | unloading (taken : Option Backend) (wasPrimary : Bool) (releasedVram : ℤ)
  deriving DecidableEq

inductive LoadPc where
  | start
  | locked
  /-- An unhealthy instance with that many slots has been unloaded. -/
  | recovered (slots : ℤ)
  | create (recovery : Option ℤ)
  | resize (slots : ℤ)
  | load
  | loaded
  deriving DecidableEq

inductive PrepareCapacityPc where
  | start
  | check
  | reclaim (attempts : List String)
  | reclaimGate (attempts : List String) (candidate : String) (observed : Option ℤ)
  | reclaiming (attempts : List String) (candidate : String) (observed : Option ℤ)
  | reclaimed (attempts : List String) (candidate : String) (observed : Option ℤ)
      (result : Result Bool)
  | observing (attempts : List String) (candidate : String) (previous : ℤ) (limit : TimePoint)
  | reclaimFits (attempts : List String)
  | shrink
  | shrinkGate (candidate : String) (nextSlots : ℤ)
  | shrinking (candidate : String) (nextSlots : ℤ)
  | shrunk (candidate : String) (nextSlots : ℤ) (result : Result Unit)
  /-- The session gate has refused while the candidate is marked. -/
  | refused (candidate : String) (e : Error)
  | evict
  | evictGate (candidate : String)
  | evicted (candidate : String)
  | verdict
  deriving DecidableEq

/-- The residency before a swap: names with slot counts, and the selected primary. -/
structure ResidencySnapshot where
  before : List (String × ℤ)
  primary : Option String
  deriving DecidableEq

inductive SwapPc where
  | start
  | lock
  | locked
  | gate
  | plan
  | budget
  /-- The call returns what its last callee does. -/
  | tail
  | unbudgeted
  | unbudgetedUnloaded (current : String)
  | unbudgetedLoaded (current : Option String)
  | unbudgetedRestored (current : String) (loaded : Result Unit)
  | residency
  | selected (before : List (String × ℤ))
  | prepared (snapshot : ResidencySnapshot)
  | loadGate (snapshot : ResidencySnapshot)
  | loaded (snapshot : ResidencySnapshot)
  | retryUnloaded (snapshot : ResidencySnapshot) (loaded : Result Unit)
  | retryPrepared (snapshot : ResidencySnapshot) (loaded : Result Unit)
  | retryLoaded (snapshot : ResidencySnapshot)
  | rollback (snapshot : ResidencySnapshot) (loaded : Result Unit)
  | restore (snapshot : ResidencySnapshot) (loaded : Result Unit) (recovery : TimePoint)
  | restoreLoad (prior : String) (snapshot : ResidencySnapshot) (loaded : Result Unit)
      (recovery : TimePoint)
  | restored (primary : Option String) (loaded : Result Unit)
  | reselect (primary : String) (loaded : Result Unit)
  deriving DecidableEq

inductive SwapCancellablePc where
  | start
  | sidecarLoaded
  | ready
  | begun
  | swapped
  | finished
  deriving DecidableEq

inductive PrepareRequestPc where
  | start
  | locked
  | ensuring
  | ensured (result : Result Unit)
  deriving DecidableEq

inductive AcquirePc where
  | start
  | loop (id : ℕ)
  | demanding (id : ℕ)
  | capacityPrepared (id : ℕ) (generationBefore : ℕ)
  | prepared (id : ℕ) (generationBefore : ℕ)
  deriving DecidableEq

/-- A function that a thread is in: its arguments, the lock that it holds, where it is, and the
result of its last callee. -/
inductive Frame where
  | unload (name : String) (control : Control) (held : Option LifecycleLock) (pc : UnloadPc)
  | load (name : String) (control : Control) (held : Option LifecycleLock) (pc : LoadPc)
      (result : Result Unit)
  | prepareCapacity (name : String) (control : Control) (force : Bool) (required : ℤ)
      (pc : PrepareCapacityPc) (result : Result Unit)
  | swap (name : String) (control : Control) (held : Option LifecycleLock) (pc : SwapPc)
      (result : Result Unit)
  | swapCancellable (name : String) (control : Control) (pc : SwapCancellablePc)
      (result : Result Unit)
  | prepareRequest (name : String) (demand : RequestDemand) (control : Control)
      (held : Option LifecycleLock) (pc : PrepareRequestPc)
  | acquire (name : String) (opts : AcquireSlotOptions) (deadline : TimePoint) (pc : AcquirePc)
      (result : Result Unit)
  deriving DecidableEq

namespace Frame

def callUnload (name : String) (control : Control) : Frame := .unload name control none .start

def callLoad (name : String) (control : Control) : Frame := .load name control none .start (.ok ())

def callPrepareCapacity (name : String) (control : Control) (force : Bool) : Frame :=
  .prepareCapacity name control force 0 .start (.ok ())

def callSwap (name : String) (control : Control) : Frame := .swap name control none .start (.ok ())

def callSwapCancellable (name : String) (deadline : Deadline) : Frame :=
  .swapCancellable name { deadline, caller := true, swapFlag := true } .start (.ok ())

def callPrepareRequest (name : String) (demand : RequestDemand) (control : Control) : Frame :=
  .prepareRequest name demand control none .start

def callAcquire (name : String) (opts : AcquireSlotOptions) : Frame :=
  .acquire name opts 0 .start (.ok ())

def holds : Frame → Option LifecycleLock
  | .unload _ _ held _ => held
  | .load _ _ held _ _ => held
  | .swap _ _ held _ _ => held
  | .prepareRequest _ _ _ held _ => held
  | _ => none

def resume (frame : Frame) (result : Result Unit) : Frame :=
  match frame with
  | .unload name control held pc => .unload name control held pc
  | .load name control held pc _ => .load name control held pc result
  | .prepareCapacity name control force required pc _ =>
      .prepareCapacity name control force required pc result
  | .swap name control held pc _ => .swap name control held pc result
  | .swapCancellable name control pc _ => .swapCancellable name control pc result
  | .prepareRequest name demand control held pc => .prepareRequest name demand control held pc
  | .acquire name opts deadline pc _ => .acquire name opts deadline pc result

end Frame

abbrev CoordinatorMove := Move Frame (Result Unit)

/-- What a step of a frame gives: the coordinator after the critical section, and how the thread
goes on. -/
abbrev FrameStep := Option (BackendCoordinator × CoordinatorMove)

end InferDeck.Model
