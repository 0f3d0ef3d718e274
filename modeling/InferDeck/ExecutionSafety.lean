import InferDeck.LifecycleInvariant

/-!
# Operations on leased slots

`predict`, `embed` and the other operations look up the instance, its interface and the slot of the
lease in one critical section and then call the backend without the lock. An unload drains before it
destroys the instance, so the call is on a live backend for as long as its caller keeps the lease.
-/

namespace InferDeck.Model

open Function InferDeck.Execution InferDeck.Foundation InferDeck.Threads

inductive Operation where
  | predict
  | predictStream
  | embed
  | generateImages
  | generateAudio
  | generateVideo
  | synthesize
  | transcribe
  deriving DecidableEq

namespace BackendCoordinator

variable (c : BackendCoordinator)

def backendSlotForLeaseLocked (name : String) (leaseId : ℤ) : Result ℕ :=
  match c.activeLeases.lookup leaseId with
  | none => err .invalidArgument "invalid slot lease"
  | some lease =>
      if lease.model ≠ name then err .invalidArgument "invalid slot lease"
      else .ok lease.backendSlot

/-- The instance and the slot that an operation calls, where the instance implements the interface
of the operation or not. -/
def lookupForCall (capability task name : String) (leaseId : ℤ) (implements : Bool) :
    Result (Backend × ℕ) :=
  match c.instances.lookup name with
  | none => err .notFound ("model not loaded: " ++ name)
  | some backend =>
      if !implements || !backend.info.supports capability then
        err .invalidArgument ("backend does not support " ++ task ++ ": " ++ name)
      else (c.backendSlotForLeaseLocked name leaseId).map fun slot => (backend, slot)

def predict := c.lookupForCall "chat_completions" "text generation"

def predictStream := c.lookupForCall "chat_completions" "text generation"

def embed := c.lookupForCall "embeddings" "embeddings"

def generateImages := c.lookupForCall "image_generation" "image generation"

def generateAudio := c.lookupForCall "audio_generation" "audio generation"

def generateVideo := c.lookupForCall "video_generation" "video generation"

def synthesize := c.lookupForCall "audio_speech" "speech synthesis"

def transcribe := c.lookupForCall "audio_transcription" "transcription"

def execute (name : String) (leaseId : ℤ) (implements : Bool) :
    Operation → Result (Backend × ℕ)
  | .predict => c.predict name leaseId implements
  | .predictStream => c.predictStream name leaseId implements
  | .embed => c.embed name leaseId implements
  | .generateImages => c.generateImages name leaseId implements
  | .generateAudio => c.generateAudio name leaseId implements
  | .generateVideo => c.generateVideo name leaseId implements
  | .synthesize => c.synthesize name leaseId implements
  | .transcribe => c.transcribe name leaseId implements

end BackendCoordinator

structure Running where
  caller : ℕ
  name : String
  leaseId : ℤ
  slot : ℕ
  /-- What the instance is that has been called. -/
  info : ModelInfo
  /-- The lease has been released meanwhile. -/
  released : Bool

def Running.after (e : Running) : Action → Running
  | .releaseSlot name leaseId _ _ =>
      if name = e.name ∧ leaseId = e.leaseId then { e with released := true } else e
  | _ => e

structure Service where
  world : World
  running : List Running

inductive ServiceAction where
  | coordinator (action : Action)
  | execute (caller : ℕ) (op : Operation) (name : String) (leaseId : ℤ) (implements : Bool)
  /-- The backend has returned. -/
  | finish (caller : ℕ)

namespace Service

def initial (registry : ModelRegistry) : Service where
  world := .initial registry
  running := []

def next (s : Service) : ServiceAction → Option Service
  | .coordinator action => (s.world.next action).map fun world =>
      { world, running := s.running.map (·.after action) }
  | .execute caller op name leaseId implements =>
      if s.running.any fun e => e.caller == caller then none
      else
        match s.world.shared.execute name leaseId implements op with
        | .error _ => some s
        | .ok (backend, slot) =>
            let started : Running :=
              { caller, name, leaseId, slot, info := backend.info, released := false }
            some { s with running := started :: s.running }
  | .finish caller => some { s with running := s.running.filter fun e => e.caller != caller }

end Service

namespace BackendCoordinator

section Leases

variable {c c' : BackendCoordinator} {name : String} {id : ℤ} {lease : ActiveLease}

/-- The lease goes on, and so does the backend that it rests on. -/
def LeaseGoesOn (c c' : BackendCoordinator) (id : ℤ) (lease : ActiveLease) :
    Prop :=
  c'.activeLeases.lookup id = some lease ∧ BacksOn c c' lease.model lease.backendSlot

theorem LeaseGoesOn.of_same (hlease : c.activeLeases.lookup id = some lease)
    (hleases : c'.activeLeases = c.activeLeases) (hinstances : c'.instances = c.instances) :
    c.LeaseGoesOn c' id lease :=
  ⟨hleases ▸ hlease, .of_lookup_eq (by rw [hinstances])⟩

theorem LeaseGoesOn.of_instanceChange (hlease : c.activeLeases.lookup id = some lease)
    (h : c.Untouched c') (hchange : InstanceChange c.instances c'.instances) :
    c.LeaseGoesOn c' id lease :=
  ⟨(congrArg (AList.lookup id) (congrArg Books.activeLeases h.1)).trans hlease,
    .of_instanceChange hchange⟩

/-- An unload leaves the instance of a leased model alone. -/
theorem LeaseGoesOn.of_unloadChange {frame : Frame} (hledger : c.Ledger)
    (hquiet : ∀ n, frame.quiesces = some n → c.leaseCount n = 0)
    (hlease : c.activeLeases.lookup id = some lease) (h : c.Untouched c')
    (hchange : c.UnloadChange frame name c') : c.LeaseGoesOn c' id lease := by
  have hother : c.leaseCount name = 0 → lease.model ≠ name :=
    fun hzero => leaseCount_eq_zero_iff.1 hzero id lease hlease
  have hleases := congrArg (AList.lookup id) (congrArg Books.activeLeases h.1)
  refine ⟨hleases.trans hlease, .of_lookup_eq ?_⟩
  cases hchange with
  | same hinstances => rw [hinstances]
  | take hidle hinstances =>
      rw [hinstances, AList.lookup_erase_ne (hother (hledger.leaseCount_of_not_hasActive hidle))]
  | restore backend hframe hinstances =>
      rw [hinstances, AList.lookup_insert_ne (hother (hquiet name hframe))]
  | forget hframe hinstances => rw [hinstances]

/-- A request takes a slot that no lease has. -/
theorem LeaseGoesOn.of_takes (hledger : c.Ledger)
    (hlease : c.activeLeases.lookup id = some lease) (h : TakesSlot c c') :
    c.LeaseGoesOn c' id lease := by
  rcases h with rfl | ⟨_, backend, slot, _, _, _, _, _, _, hlookup, hslot⟩
  · exact .of_same hlease rfl rfl
  · rcases leaseSlot_eq hlookup hslot with ⟨_, -, rfl | ⟨busy, hfree, rfl⟩⟩ |
      ⟨new, -, rfl, rfl, -, -, -, hmay, -⟩
    · exact .of_same hlease rfl rfl
    · refine ⟨hlease, .of_set hlookup rfl fun hmodel => ?_⟩
      exact hledger.slot_ne hlease hlookup hfree hmodel
    · refine ⟨?_, .of_set hlookup rfl fun hmodel => ?_⟩
      · exact (AList.lookup_insert_ne (hledger.below id lease hlease).ne).trans hlease
      · exact hledger.slot_ne hlease hlookup hmay.free hmodel

/-- The release of another lease gives back another slot. -/
theorem LeaseGoesOn.of_release (hledger : c.Ledger) {leaseId : ℤ} {failure : Option Error}
    {now : TimePoint} (hlease : c.activeLeases.lookup id = some lease)
    (hother : name ≠ lease.model ∨ leaseId ≠ id) :
    c.LeaseGoesOn (c.releaseSlot name leaseId failure now).2 id lease := by
  have hsame : c.LeaseGoesOn c id lease := .of_same hlease rfl rfl
  unfold releaseSlot
  split
  next => split_ifs <;> exact hsame
  next released hreleased =>
    split_ifs with hname
    · exact hsame
    rw [ne_eq, not_not] at hname
    have hid : id ≠ leaseId := by
      rintro rfl
      obtain rfl := Option.some.inj (hlease.symm.trans hreleased)
      exact hother.elim (fun h => h hname.symm) fun h => h rfl
    subst hname
    split
    next => exact hsame
    next backend hbackend =>
      cases failure with
      | some e => exact hsame
      | none =>
          have hgoes : ∀ after : BackendCoordinator,
              after.activeLeases = c.activeLeases.erase leaseId →
              after.instances = c.instances.insert released.model
                { backend with slots := backend.slots.set released.backendSlot false } →
              c.LeaseGoesOn after id lease := by
            intro after hleases hinstances
            refine ⟨?_, .of_set hbackend hinstances fun hmodel hslot => hid ?_⟩
            · rw [hleases, AList.lookup_erase_ne hid, hlease]
            · exact hledger.distinct id leaseId lease released hlease hreleased hmodel hslot.symm
          dsimp only [Backend.releaseSlot]
          split_ifs <;> exact hgoes _ rfl rfl

end Leases

end BackendCoordinator

open BackendCoordinator

namespace World

variable {w w' : World} {id : ℤ} {lease : ActiveLease}

/-- Nothing but its own release ends a lease, and until then its backend goes on. -/
theorem Sound.leaseGoesOn (h : w.Sound) {action : Action} (hnext : w.next action = some w')
    (hlease : w.shared.activeLeases.lookup id = some lease)
    (hrelease : ∀ name leaseId failure now, action = .releaseSlot name leaseId failure now →
      name ≠ lease.model ∨ leaseId ≠ id) : w.shared.LeaseGoesOn w'.shared id lease := by
  cases action with
  | call tid call =>
      unfold next at hnext
      dsimp only at hnext
      split_ifs at hnext
      obtain rfl := Option.some.inj hnext
      exact .of_same hlease rfl rfl
  | run tid input =>
      obtain ⟨frame, rest, shared, move, owners, hstack, hstep, howners, rfl⟩ :=
        System.run_eq_some hnext
      change w.shared.LeaseGoesOn shared id lease
      cases frame with
      | unload name control held pc =>
          obtain ⟨huntouched, -, -, hchange⟩ := unloadStep_changes
            (fun d hpc => h.locked_notDraining (hpc ▸ hstack)) shared move hstep
          refine .of_unloadChange h.ledger (fun n hn => ?_) hlease huntouched hchange
          exact h.quiet tid n (by rw [hstack]; exact hn)
      | load =>
          obtain ⟨huntouched, -, -, -, hchange⟩ := loadStep_changes shared move hstep
          exact .of_instanceChange hlease huntouched hchange
      | prepareCapacity =>
          obtain ⟨huntouched, -, -, -, hchange⟩ := prepareCapacityStep_changes shared move hstep
          exact .of_instanceChange hlease huntouched hchange
      | swap =>
          obtain ⟨huntouched, -, -, -, hinstances⟩ := swapStep_changes shared move hstep
          exact .of_instanceChange hlease huntouched (hinstances ▸ .same)
      | swapCancellable =>
          obtain ⟨huntouched, -, -, -, hinstances⟩ := swapCancellableStep_changes shared move hstep
          exact .of_instanceChange hlease huntouched (hinstances ▸ .same)
      | prepareRequest =>
          obtain ⟨huntouched, -, -, -, hchange⟩ := prepareRequestStep_changes shared move hstep
          exact .of_instanceChange hlease huntouched hchange
      | acquire =>
          obtain ⟨taken, htakes, waiters, holds, rfl⟩ := acquireStep_takes shared move hstep
          obtain ⟨hleases, hbacks⟩ := LeaseGoesOn.of_takes h.ledger hlease htakes
          exact ⟨hleases, hbacks⟩
  | releaseSlot name leaseId failure now =>
      obtain rfl := Option.some.inj hnext
      exact .of_release h.ledger hlease (hrelease name leaseId failure now rfl)
  | acquireSlotNow name opts slot failure now =>
      obtain rfl := Option.some.inj hnext
      exact .of_takes h.ledger hlease acquireSlotNow_takes
  | setHealth name healthy =>
      obtain rfl := Option.some.inj hnext
      change w.shared.LeaseGoesOn (w.shared.setHealth name healthy) id lease
      unfold BackendCoordinator.setHealth
      split
      next => exact .of_same hlease rfl rfl
      next backend hlookup =>
        refine ⟨hlease, .of_insert rfl fun _ before hbefore => ?_⟩
        obtain rfl := Option.some.inj (hlookup.symm.trans hbefore)
        exact ⟨rfl, fun hloaded hslot => ⟨hloaded, hslot⟩⟩
  | session now call =>
      obtain rfl := Option.some.inj hnext
      have hbook := (perform_keeps w.shared now call).2.1
      exact .of_same hlease (congrArg LeaseBook.activeLeases hbook)
        (congrArg LeaseBook.instances hbook)
  | setVramBudget totalMb safetyMarginMb =>
      obtain rfl := Option.some.inj hnext
      change w.shared.LeaseGoesOn (w.shared.setVramBudget totalMb safetyMarginMb) id lease
      unfold BackendCoordinator.setVramBudget
      dsimp only
      split_ifs <;> exact .of_same hlease rfl rfl
  | updateVramObservation usedMb totalMb now =>
      obtain rfl := Option.some.inj hnext
      change w.shared.LeaseGoesOn (w.shared.updateVramObservation usedMb totalMb now) id lease
      unfold BackendCoordinator.updateVramObservation
      dsimp only
      split_ifs <;> exact .of_same hlease rfl rfl
  | setSwapCancel cancel =>
      obtain rfl := Option.some.inj hnext
      exact .of_same hlease rfl rfl

end World

/-- The call is on a live backend: the slot is the caller's, the instance is the one it was given,
and no thread unloads, shrinks or reclaims it. -/
structure Running.Safe (w : World) (e : Running) : Prop where
  leased : ∃ lease, w.shared.activeLeases.lookup e.leaseId = some lease ∧ lease.model = e.name ∧
    lease.backendSlot = e.slot
  backed : ∃ backend, w.shared.instances.lookup e.name = some backend ∧ backend.info = e.info ∧
    backend.loaded = true ∧ backend.slots[e.slot]? = some true
  undisturbed : ∀ tid, topMark Frame.quiesces (w.stack tid) ≠ some e.name

namespace Service

/-- Calls whose leases are kept are safe, and no two leases call one slot. -/
def CallsLive (s : Service) : Prop :=
  (∀ e ∈ s.running, e.released = false → e.Safe s.world) ∧
    ∀ e ∈ s.running, ∀ e' ∈ s.running, e.released = false → e'.released = false →
      e.name = e'.name → e.slot = e'.slot → e.leaseId = e'.leaseId

structure Sound (s : Service) : Prop where
  world : s.world.Sound
  leased : ∀ e ∈ s.running, e.released = false → ∃ lease backend,
    s.world.shared.activeLeases.lookup e.leaseId = some lease ∧ lease.model = e.name ∧
      lease.backendSlot = e.slot ∧ s.world.shared.instances.lookup e.name = some backend ∧
      backend.info = e.info

variable {s s' : Service}

theorem Sound.callsLive (h : s.Sound) : s.CallsLive := by
  refine ⟨fun e he hkept => ?_, fun e he e' he' hkept hkept' hname hslot => ?_⟩
  · obtain ⟨lease, backend, hlease, hmodel, hslot, hlookup, hinfo⟩ := h.leased e he hkept
    obtain ⟨backend', hlookup', hloaded, hbusy⟩ := h.world.ledger.backed _ _ hlease
    rw [hmodel, hlookup] at hlookup'
    obtain rfl := Option.some.inj hlookup'
    refine ⟨⟨lease, hlease, hmodel, hslot⟩, ⟨backend, hlookup, hinfo, hloaded, hslot ▸ hbusy⟩,
      fun tid hquiesces => ?_⟩
    exact leaseCount_eq_zero_iff.1 (h.world.quiet tid _ hquiesces) _ _ hlease hmodel
  · obtain ⟨lease, -, hlease, hmodel, hslot₁, -⟩ := h.leased e he hkept
    obtain ⟨lease', -, hlease', hmodel', hslot₂, -⟩ := h.leased e' he' hkept'
    exact h.world.ledger.distinct _ _ lease lease' hlease hlease'
      (hmodel.trans (hname.trans hmodel'.symm)) (hslot₁.trans (hslot.trans hslot₂.symm))

/-- What an operation that may begin has found. -/
theorem lookupForCall_eq_ok {c : BackendCoordinator} {capability task name : String} {leaseId : ℤ}
    {implements : Bool} {backend : Backend} {slot : ℕ}
    (h : c.lookupForCall capability task name leaseId implements = .ok (backend, slot)) :
    c.instances.lookup name = some backend ∧ ∃ lease, c.activeLeases.lookup leaseId = some lease ∧
      lease.model = name ∧ lease.backendSlot = slot := by
  unfold lookupForCall at h
  split at h
  next => cases h
  next found hfound =>
    split_ifs at h
    · cases h
    unfold backendSlotForLeaseLocked at h
    split at h
    next => cases h
    next lease hlease =>
      split_ifs at h with hmodel
      · cases h
      · obtain ⟨rfl, rfl⟩ := Prod.mk.inj (Except.ok.inj h)
        exact ⟨hfound, lease, hlease, not_not.1 hmodel, rfl⟩

theorem execute_eq_ok {c : BackendCoordinator} {op : Operation} {name : String} {leaseId : ℤ}
    {implements : Bool} {backend : Backend} {slot : ℕ}
    (h : c.execute name leaseId implements op = .ok (backend, slot)) :
    c.instances.lookup name = some backend ∧ ∃ lease, c.activeLeases.lookup leaseId = some lease ∧
      lease.model = name ∧ lease.backendSlot = slot := by
  cases op <;> exact lookupForCall_eq_ok h

/-- A call outlives a step of the coordinator that does not release its lease. -/
theorem Sound.coordinator (h : s.Sound) {action : Action} {world : World}
    (hnext : s.world.next action = some world) :
    Sound { world, running := s.running.map (·.after action) } := by
  refine ⟨World.sound_next h.world hnext, fun e he hkept => ?_⟩
  obtain ⟨before, hbefore, rfl⟩ := List.mem_map.1 he
  have hsame : before.after action = before ∧ ∀ name leaseId failure now,
      action = .releaseSlot name leaseId failure now →
      name ≠ before.name ∨ leaseId ≠ before.leaseId := by
    cases action with
    | releaseSlot name leaseId failure now =>
        unfold Running.after at hkept ⊢
        dsimp only at hkept ⊢
        split_ifs at hkept ⊢ with hreleases
        refine ⟨rfl, fun _ _ _ _ heq => ?_⟩
        cases heq
        exact not_and_or.1 hreleases
    | _ => exact ⟨rfl, fun _ _ _ _ heq => by cases heq⟩
  obtain ⟨hafter, hrelease⟩ := hsame
  rw [hafter] at hkept ⊢
  obtain ⟨lease, backend, hlease, hmodel, hslot, hlookup, hinfo⟩ := h.leased before hbefore hkept
  obtain ⟨hlease', hbacks⟩ := h.world.leaseGoesOn hnext hlease fun name leaseId failure now heq =>
    hmodel ▸ hrelease name leaseId failure now heq
  obtain ⟨backend', hlookup', hinfo', -⟩ := hbacks backend (hmodel ▸ hlookup)
  exact ⟨lease, backend', hlease', hmodel, hslot, hmodel ▸ hlookup', hinfo'.trans hinfo⟩

theorem Sound.next (h : s.Sound) {action : ServiceAction} (hnext : s.next action = some s') :
    s'.Sound := by
  cases action with
  | coordinator action =>
      obtain ⟨world, hworld, rfl⟩ := Option.map_eq_some_iff.1 hnext
      exact h.coordinator hworld
  | execute caller op name leaseId implements =>
      unfold Service.next at hnext
      dsimp only at hnext
      split_ifs at hnext
      cases hexecute : s.world.shared.execute name leaseId implements op with
      | error e =>
          rw [hexecute] at hnext
          exact Option.some.inj hnext ▸ h
      | ok found =>
          obtain ⟨backend, slot⟩ := found
          rw [hexecute] at hnext
          obtain rfl := Option.some.inj hnext
          obtain ⟨hlookup, lease, hlease, hmodel, hslot⟩ := execute_eq_ok hexecute
          refine ⟨h.world, fun e he hkept => ?_⟩
          rcases List.mem_cons.1 he with rfl | he
          · exact ⟨lease, backend, hlease, hmodel, hslot, hlookup, rfl⟩
          · exact h.leased e he hkept
  | finish caller =>
      obtain rfl := Option.some.inj hnext
      exact ⟨h.world, fun e he hkept => h.leased e (List.mem_filter.1 he).1 hkept⟩

/-- In every state of every run, a call whose caller still has the lease is on a live backend: the
instance that it was given is there and loaded, its slot is busy for this lease alone, and no thread
unloads, shrinks or reclaims the model. -/
theorem calls_on_live_backends (registry : ModelRegistry) (actions : List ServiceAction) :
    Always Service.next CallsLive (.initial registry) actions := by
  have hmeets : Meets Service.next (fun _ _ => True) (.initial registry) actions :=
    .of_forall fun _ _ _ => trivial
  refine hmeets.always (fun _ h => h.callsLive) (fun _ _ _ h _ hnext => Sound.next h hnext) ?_
  exact ⟨World.sound_initial registry, fun e he => by cases he⟩

end Service

end InferDeck.Model
