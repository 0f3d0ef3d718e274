import InferDeck.Execution
import InferDeck.PrioritySessions
import InferDeck.SwapSteps

/-!
# Runs of the coordinator

Any number of threads call the coordinator, in any order and interleaved between any two critical
sections. A release and a request that does not block are one critical section each. The backends'
health, the observed VRAM, the budget, the priority sessions and the cancel flag change at any time.
The registry stays as it is.
-/

namespace InferDeck.Model

open Function InferDeck.Execution InferDeck.Foundation InferDeck.Threads

namespace BackendCoordinator

variable (c : BackendCoordinator)

def owner : LifecycleLock → Option (ℕ × ℕ)
  | .swap => c.swapMutex.owner
  | .sidecar => c.sidecarMutex.owner

def setOwner (owners : LifecycleLock → Option (ℕ × ℕ)) : BackendCoordinator :=
  { c with
    swapMutex := { owner := owners .swap }
    sidecarMutex := { owner := owners .sidecar } }

def perform (now : TimePoint) : SessionCall → BackendCoordinator
  | .reserve key model duration => (c.reservePrioritySession key model duration now).1
  | .refresh key token duration => (c.refreshPrioritySession key token duration now).1
  | .hold key model => (c.holdPrioritySession key model now).1
  | .complete key token duration => c.completePrioritySessionHold key token duration now
  | .release key token => c.releasePrioritySession key token

def setHealth (name : String) (healthy : Bool) : BackendCoordinator :=
  match c.instances.lookup name with
  | none => c
  | some backend => c.setInstance name { backend with healthy }

end BackendCoordinator

/-- The calls that take more than one critical section. -/
inductive Call where
  | load (name : String)
  | unload (name : String)
  | swapTo (name : String)
  | swapToCancellable (name : String) (deadline : Deadline)
  | prepareRequestCapacity (name : String) (demand : RequestDemand) (control : Control)
  | acquireSlot (name : String) (opts : AcquireSlotOptions)
  deriving DecidableEq

def Call.frame : Call → Frame
  | .load name => .callLoad name {}
  | .unload name => .callUnload name {}
  | .swapTo name => .callSwap name {}
  | .swapToCancellable name deadline => .callSwapCancellable name deadline
  | .prepareRequestCapacity name demand control => .callPrepareRequest name demand control
  | .acquireSlot name opts => .callAcquire name opts

inductive Action where
  /-- A thread that is in no call makes one. -/
  | call (tid : ℕ) (call : Call)
  | run (tid : ℕ) (input : Reading)
  | releaseSlot (name : String) (leaseId : ℤ) (failure : Option Error) (now : TimePoint)
  | acquireSlotNow (name : String) (opts : AcquireSlotOptions) (slot : ℕ)
      (failure : Option Error) (now : TimePoint)
  | setHealth (name : String) (healthy : Bool)
  | session (now : TimePoint) (call : SessionCall)
  | setVramBudget (totalMb safetyMarginMb : ℤ)
  | updateVramObservation (usedMb totalMb : ℤ) (now : TimePoint)
  | setSwapCancel (cancel : Bool)
  deriving DecidableEq

abbrev World := State BackendCoordinator Frame

def calls : System BackendCoordinator Reading Frame (Result Unit) LifecycleLock where
  step := frameStep
  resume := Frame.resume
  holds := Frame.holds
  owner := BackendCoordinator.owner
  setOwner := BackendCoordinator.setOwner

namespace World

def initial (registry : ModelRegistry) : World where
  shared := { registry }
  stack := fun _ => []

def withShared (w : World) (c : BackendCoordinator) : World := { w with shared := c }

def next (w : World) : Action → Option World
  | .call tid call =>
      if w.stack tid = [] then some { w with stack := update w.stack tid [call.frame] } else none
  | .run tid input => calls.run w tid input
  | .releaseSlot name leaseId failure now =>
      some (w.withShared (w.shared.releaseSlot name leaseId failure now).2)
  | .acquireSlotNow name opts slot failure now =>
      some (w.withShared (w.shared.acquireSlotNow name opts slot failure now).2)
  | .setHealth name healthy => some (w.withShared (w.shared.setHealth name healthy))
  | .session now call => some (w.withShared (w.shared.perform now call))
  | .setVramBudget totalMb safetyMarginMb =>
      some (w.withShared (w.shared.setVramBudget totalMb safetyMarginMb))
  | .updateVramObservation usedMb totalMb now =>
      some (w.withShared (w.shared.updateVramObservation usedMb totalMb now))
  | .setSwapCancel cancel => some (w.withShared { w.shared with swapCancel := cancel })

/-- A state that a run on the registry's models leads to. -/
def Reachable (registry : ModelRegistry) (w : World) : Prop :=
  ∃ actions, exec next (initial registry) actions = some w

end World

end InferDeck.Model
