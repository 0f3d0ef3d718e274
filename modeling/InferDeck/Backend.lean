import InferDeck.ModelInfo

/-!
# Backends as the coordinator sees them

An `IBackend` is a model instance with a slot table. Only what the coordinator reads is kept: the
load and health flags, which slots are in use, and the VRAM figures of the present slot count.
Which free slot `acquire_slot` hands out, and whether a lifecycle call succeeds, is the backend's
own choice.
-/

namespace InferDeck.Model

open InferDeck.Foundation

structure Backend where
  info : ModelInfo
  loaded : Bool := false
  healthy : Bool := true
  /-- One entry a slot: whether it is in use. -/
  slots : List Bool := []
  /-- `estimate_vram_mb(n_slots())`. -/
  estimatedVramMb : ℤ := 0
  minSlots : ℤ := 1
  canResizeSlots : Bool := false
  canReclaimIdleContext : Bool := false
  additionalVramReserveMb : ℤ := 0
  liveVramAccountingComplete : Bool := false
  deriving DecidableEq

namespace Backend

def isLoaded (b : Backend) : Bool := b.loaded

def executionHealthy (b : Backend) : Bool := b.healthy

def nSlots (b : Backend) : ℤ := b.slots.length

def nFreeSlots (b : Backend) : ℤ := b.slots.count false

def slotBusy (b : Backend) (slot : ℕ) : Bool := b.slots.getD slot false

/-- `acquire_slot` of a backend that offers slot `choice`: only a free slot is handed out. -/
def acquireSlot (b : Backend) (choice : ℕ) : Result ℕ × Backend :=
  if b.slots[choice]? = some false then
    (.ok choice, { b with slots := b.slots.set choice true })
  else (err .unavailable "no free slots", b)

/-- `release_slot`, unless the backend fails the call. -/
def releaseSlot (b : Backend) (slot : ℕ) (failure : Option Error) : Result Unit × Backend :=
  match failure with
  | some e => (.error e, b)
  | none => (.ok (), { b with slots := b.slots.set slot false })

end Backend

end InferDeck.Model
