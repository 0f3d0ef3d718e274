import InferDeck.LifecycleChanges

/-!
# What requests change

A request takes a slot and with it a lease, or the slot in vain; a release gives both back. The queue
and the holds change besides, and nothing else does but the generation.
-/

namespace InferDeck.Model

open InferDeck.Foundation InferDeck.Threads

def ActiveLease.Reserves (lease : ActiveLease) : Prop :=
  0 ≤ lease.contextReservation ∧ 0 ≤ lease.sequenceReservation

structure LeaseBook where
  registry : ModelRegistry
  instances : Map String Backend
  activeRequestsByModel : Map String ℤ
  activeLeases : Map ℤ ActiveLease
  nextLeaseId : ℤ

/-- What the coordinator writes down of its requests, the counts of the models apart. -/
structure RequestBook where
  activeRequests : ℤ
  activeLeases : Map ℤ ActiveLease
  contexts : Map String ℤ
  sequences : Map String ℤ
  nextLeaseId : ℤ

namespace BackendCoordinator

variable (c : BackendCoordinator)

def leaseBook : LeaseBook where
  registry := c.registry
  instances := c.instances
  activeRequestsByModel := c.activeRequestsByModel
  activeLeases := c.activeLeases
  nextLeaseId := c.nextLeaseId

structure MayLease (name : String) (backend : Backend) (slot : ℕ) : Prop where
  lookup : c.instances.lookup name = some backend
  free : backend.slots[slot]? = some false
  loaded : backend.loaded = true
  notDraining : name ∉ c.drainingModels
  notResizing : name ∉ c.resizingModels
  allowed : c.admissionPoolAllowsLocked name = true

inductive LeaseChange (c : BackendCoordinator) : LeaseBook → Prop
  | same : LeaseChange c c.leaseBook
  /-- A slot is taken in vain. -/
  | slot (name : String) (backend : Backend) (slot : ℕ) (busy : Bool) :
      c.instances.lookup name = some backend → backend.slots[slot]? = some false →
      LeaseChange c { c.leaseBook with
        instances := c.instances.insert name
          { backend with slots := backend.slots.set slot busy } }
  | lease (backend : Backend) (lease : ActiveLease) :
      c.MayLease lease.model backend lease.backendSlot →
      LeaseChange c { c.leaseBook with
        instances := c.instances.insert lease.model
          { backend with slots := backend.slots.set lease.backendSlot true }
        activeRequestsByModel := c.activeRequestsByModel.insert lease.model
          (c.activeRequestsByModel.find lease.model 0 + 1)
        activeLeases := c.activeLeases.insert c.nextLeaseId lease
        nextLeaseId := c.nextLeaseId + 1 }
  | release (id : ℤ) (lease : ActiveLease) (backend : Backend) :
      c.activeLeases.lookup id = some lease → c.instances.lookup lease.model = some backend →
      LeaseChange c { c.leaseBook with
        instances := c.instances.insert lease.model
          { backend with slots := backend.slots.set lease.backendSlot false }
        activeRequestsByModel :=
          if c.hasActiveRequests lease.model then
            c.activeRequestsByModel.insert lease.model
              (c.activeRequestsByModel.find lease.model 0 - 1)
          else c.activeRequestsByModel
        activeLeases := c.activeLeases.erase id }

def requestBook : RequestBook where
  activeRequests := c.activeRequests
  activeLeases := c.activeLeases
  contexts := c.activeContextReservationByModel
  sequences := c.activeSequenceReservationByModel
  nextLeaseId := c.nextLeaseId

inductive RequestChange (c : BackendCoordinator) : RequestBook → Prop
  | same : RequestChange c c.requestBook
  | issue (lease : ActiveLease) : lease.Reserves → RequestChange c
      { activeRequests := c.activeRequests + 1
        activeLeases := c.activeLeases.insert c.nextLeaseId lease
        contexts := c.activeContextReservationByModel.insert lease.model
          (c.activeContextReservationByModel.find lease.model 0 + lease.contextReservation)
        sequences := c.activeSequenceReservationByModel.insert lease.model
          (c.activeSequenceReservationByModel.find lease.model 0 + lease.sequenceReservation)
        nextLeaseId := c.nextLeaseId + 1 }
  | release (id : ℤ) (lease : ActiveLease) : c.activeLeases.lookup id = some lease →
      RequestChange c
      { activeRequests :=
          if 0 < c.activeRequests then c.activeRequests - 1 else c.activeRequests
        activeLeases := c.activeLeases.erase id
        contexts := c.activeContextReservationByModel.insert lease.model
          (max 0 (c.activeContextReservationByModel.find lease.model 0 - lease.contextReservation))
        sequences := c.activeSequenceReservationByModel.insert lease.model
          (max 0
            (c.activeSequenceReservationByModel.find lease.model 0 - lease.sequenceReservation))
        nextLeaseId := c.nextLeaseId }

/-- The leases and their books are left alone, or change as requests and releases change them. -/
def LeaseStep (c c' : BackendCoordinator) : Prop :=
  c'.requestBook = c.requestBook ∨ c.LeaseChange c'.leaseBook ∧ c.RequestChange c'.requestBook

end BackendCoordinator

open BackendCoordinator

section Slots

variable {c c' : BackendCoordinator} {name : String} {backend taken : Backend} {slot : ℕ}

theorem acquireSlot_eq_ok {taken : Backend} {backendSlot : ℕ}
    (h : backend.acquireSlot slot = (.ok backendSlot, taken)) :
    backendSlot = slot ∧ backend.slots[slot]? = some false ∧
      taken = { backend with slots := backend.slots.set slot true } := by
  unfold Backend.acquireSlot at h
  split_ifs at h with hfree
  · obtain ⟨hslot, htaken⟩ := Prod.mk.inj h
    exact ⟨(Except.ok.inj hslot).symm, hfree, htaken.symm⟩
  · exact absurd (congrArg Prod.fst h) (by simp [err])

theorem releaseSlot_eq (backend : Backend) (slot : ℕ) (failure : Option Error) :
    ∃ busy, (Backend.releaseSlot { backend with slots := backend.slots.set slot true } slot
      failure).2 = { backend with slots := backend.slots.set slot busy } := by
  cases failure with
  | some e => exact ⟨true, rfl⟩
  | none => exact ⟨false, by simp [Backend.releaseSlot]⟩

theorem readyBackend_eq_some (h : c.readyBackend name = some backend) :
    c.instances.lookup name = some backend ∧ backend.loaded = true := by
  obtain ⟨hlookup, hready⟩ := Option.filter_eq_some_iff.1 h
  exact ⟨hlookup, (Bool.and_eq_true _ _ ▸ hready).1⟩

/-- A backend of the same model: its info, and as many slots. -/
theorem findInfo_setInstance (hlookup : c.instances.lookup name = some backend)
    (hinfo : taken.info = backend.info) (n : String) :
    (c.setInstance name taken).findInfo n = c.findInfo n := by
  unfold findInfo setInstance
  by_cases hn : n = name
  · subst hn
    simp [hlookup, hinfo]
  · simp only [AList.lookup_insert_ne hn]

theorem activeInPool_setInstance (hlookup : c.instances.lookup name = some backend)
    (hinfo : taken.info = backend.info) (pool : String) :
    (c.setInstance name taken).activeInPool pool = c.activeInPool pool := by
  simp only [activeInPool, findInfo_setInstance hlookup hinfo]
  rfl

theorem admissionPoolAllows_setInstance (taken : Backend)
    (hlookup : c.instances.lookup name = some backend) (hinfo : taken.info = backend.info)
    (hloaded : taken.loaded = backend.loaded) (hslots : taken.slots.length = backend.slots.length) (n : String) :
    (c.setInstance name taken).admissionPoolAllowsLocked n = c.admissionPoolAllowsLocked n := by
  have hnSlots : taken.nSlots = backend.nSlots := by simp [Backend.nSlots, hslots]
  unfold admissionPoolAllowsLocked
  simp only [findInfo_setInstance hlookup hinfo, activeInPool_setInstance hlookup hinfo]
  by_cases hn : n = name
  · subst hn
    simp [setInstance, hlookup, Backend.isLoaded, hloaded, hnSlots]
  · simp only [setInstance, AList.lookup_insert_ne hn]
    rfl

/-- The lease that is entered is for the asked model, slot and key. -/
theorem issueLeaseLocked_eq {demand : Option RequestDemand} {key : String} {priority : ℤ}
    {now : TimePoint} {result : Result ℤ}
    (h : c.issueLeaseLocked name slot demand key priority now = (result, c')) :
    (∃ e, result = .error e ∧ c' = c) ∨
      ∃ lease : ActiveLease, result = .ok c.nextLeaseId ∧ c' = c.addLease name lease ∧
        lease.model = name ∧ lease.backendSlot = slot ∧ lease.reservationKey = key ∧
        lease.continuation = c.continues name key now ∧ name ∉ c.drainingModels ∧
        name ∉ c.resizingModels ∧ (c.readyBackend name).isSome ∧
        c.admissionPoolAllowsLocked name = true ∧ lease.Reserves := by
  unfold issueLeaseLocked at h
  split_ifs at h with hready hpool hspace
  · obtain ⟨rfl, rfl⟩ := Prod.mk.inj h
    exact .inl ⟨_, rfl, rfl⟩
  · obtain ⟨rfl, rfl⟩ := Prod.mk.inj h
    exact .inl ⟨_, rfl, rfl⟩
  · obtain ⟨rfl, rfl⟩ := Prod.mk.inj h
    exact .inl ⟨_, rfl, rfl⟩
  · obtain ⟨rfl, rfl⟩ := Prod.mk.inj h
    simp only [Bool.or_eq_true, decide_eq_true_eq, Option.isNone_iff_eq_none, not_or] at hready
    refine .inr ⟨_, rfl, rfl, rfl, rfl, rfl, rfl, hready.1.1, hready.1.2, ?_, by simpa using hpool,
      ?_, ?_⟩
    · exact Option.isSome_iff_ne_none.2 hready.2
    · cases demand with
      | none => exact le_rfl
      | some demand => exact le_max_left _ _
    · cases demand with
      | none => exact le_rfl
      | some demand => exact le_max_left _ _

/-- What a request gets: nothing, a slot in vain, or a slot and a lease on it. -/
theorem leaseSlot_eq {demand : Option RequestDemand} {key : String} {priority : ℤ}
    {failure : Option Error} {now : TimePoint} {result : Result ℤ}
    (hlookup : c.instances.lookup name = some backend)
    (h : c.leaseSlot name backend slot demand key priority failure now = (result, c')) :
    (∃ e, result = .error e ∧ (c' = c ∨ ∃ busy, backend.slots[slot]? = some false ∧
      c' = c.setInstance name { backend with slots := backend.slots.set slot busy })) ∨
    ∃ lease : ActiveLease, result = .ok c.nextLeaseId ∧
      c' = (c.setInstance name { backend with slots := backend.slots.set slot true }).addLease name
        lease ∧
      lease.model = name ∧ lease.backendSlot = slot ∧ lease.reservationKey = key ∧
      lease.continuation =
        (c.setInstance name { backend with slots := backend.slots.set slot true }).continues name
          key now ∧
      c.MayLease name backend slot ∧ lease.Reserves := by
  unfold leaseSlot at h
  rcases hslot : backend.acquireSlot slot with ⟨backendSlot, taken⟩
  cases backendSlot with
  | error e =>
      rw [hslot] at h
      obtain ⟨rfl, rfl⟩ := Prod.mk.inj h
      exact .inl ⟨e, rfl, .inl rfl⟩
  | ok backendSlot =>
      obtain ⟨rfl, hfree, rfl⟩ := acquireSlot_eq_ok hslot
      rw [hslot] at h
      rcases hissue : (c.setInstance name
        { backend with slots := backend.slots.set backendSlot true }).issueLeaseLocked name
        backendSlot demand key priority now with ⟨issued, c₁⟩
      rcases issueLeaseLocked_eq hissue with ⟨e, rfl, rfl⟩ | ⟨lease, rfl, rfl, hmodel, hbackend,
        hkey, hcontinuation, hdraining, hresizing, hready, hallowed, hreserves⟩
      · obtain ⟨busy, hreleased⟩ := releaseSlot_eq backend backendSlot failure
        simp only [hissue, hreleased] at h
        obtain ⟨rfl, rfl⟩ := Prod.mk.inj h
        refine .inl ⟨e, rfl, .inr ⟨busy, hfree, ?_⟩⟩
        simp [setInstance, AList.insert_insert]
      · simp only [hissue] at h
        obtain ⟨rfl, rfl⟩ := Prod.mk.inj h
        refine .inr ⟨lease, rfl, rfl, hmodel, hbackend, hkey, hcontinuation, ?_⟩
        obtain ⟨taken, htaken⟩ := Option.isSome_iff_exists.1 hready
        obtain ⟨hlookup', hloaded⟩ := readyBackend_eq_some htaken
        obtain rfl : _ = taken := Option.some.inj ((AList.lookup_insert _).symm.trans hlookup')
        have hpool := admissionPoolAllows_setInstance
          { backend with slots := backend.slots.set backendSlot true } hlookup rfl rfl
          List.length_set name
        exact ⟨⟨hlookup, hfree, hloaded, hdraining, hresizing, hpool ▸ hallowed⟩, hreserves⟩

def KeepsMarks (c c' : BackendCoordinator) : Prop :=
  c'.registry = c.registry ∧ c'.drainingModels = c.drainingModels ∧
    c'.resizingModels = c.resizingModels ∧ c.resourceGeneration ≤ c'.resourceGeneration

theorem KeepsMarks.trans {c₁ c₂ : BackendCoordinator} (h : KeepsMarks c c₁)
    (h' : KeepsMarks c₁ c₂) : KeepsMarks c c₂ :=
  ⟨h'.1.trans h.1, h'.2.1.trans h.2.1, h'.2.2.1.trans h.2.2.1, h.2.2.2.trans h'.2.2.2⟩

/-- Taking a slot changes the leases as a request does. -/
theorem leaseSlot_changes {demand : Option RequestDemand} {key : String} {priority : ℤ}
    {failure : Option Error} {now : TimePoint} {result : Result ℤ}
    (hlookup : c.instances.lookup name = some backend)
    (h : c.leaseSlot name backend slot demand key priority failure now = (result, c')) :
    c.LeaseChange c'.leaseBook ∧ KeepsMarks c c' := by
  rcases leaseSlot_eq hlookup h with ⟨_, -, rfl | ⟨busy, hfree, rfl⟩⟩ |
    ⟨lease, -, rfl, rfl, rfl, -, -, hmay, -⟩
  · exact ⟨.same, rfl, rfl, rfl, le_rfl⟩
  · exact ⟨.slot name backend slot busy hlookup hfree, rfl, rfl, rfl, le_rfl⟩
  · exact ⟨.lease backend lease hmay, rfl, rfl, rfl, le_rfl⟩

def TakesSlot (c c' : BackendCoordinator) : Prop :=
  c' = c ∨ ∃ name backend slot demand key priority failure now result,
    c.instances.lookup name = some backend ∧
      c.leaseSlot name backend slot demand key priority failure now = (result, c')

/-- The queue and the holds may differ. -/
def SameBesides (c c' : BackendCoordinator) : Prop :=
  ∃ waiters holds, c' = { c with waiters, continuationHolds := holds }

theorem TakesSlot.changes (h : TakesSlot c c') : c.LeaseChange c'.leaseBook ∧ KeepsMarks c c' := by
  rcases h with rfl | ⟨_, _, _, _, _, _, _, _, _, hlookup, hlease⟩
  · exact ⟨.same, rfl, rfl, rfl, le_rfl⟩
  · exact leaseSlot_changes hlookup hlease

theorem TakesSlot.requests (h : TakesSlot c c') : c.RequestChange c'.requestBook := by
  rcases h with rfl | ⟨_, _, _, _, _, _, _, _, _, hlookup, hlease⟩
  · exact .same
  · rcases leaseSlot_eq hlookup hlease with ⟨_, -, rfl | ⟨busy, -, rfl⟩⟩ |
      ⟨lease, -, rfl, rfl, -, -, -, -, hreserves⟩
    · exact .same
    · exact .same
    · exact .issue lease hreserves

theorem eraseWaiterLocked_besides (c : BackendCoordinator) (id : ℕ) :
    SameBesides c (c.eraseWaiterLocked id) := by
  unfold eraseWaiterLocked
  split
  · exact ⟨_, _, rfl⟩
  · exact ⟨_, _, rfl⟩

theorem acquireSlotNow_takes {opts : AcquireSlotOptions} {failure : Option Error}
    {now : TimePoint} : TakesSlot c (c.acquireSlotNow name opts slot failure now).2 := by
  unfold acquireSlotNow
  cases hresident : c.residentBackend name with
  | none => split_ifs <;> exact .inl rfl
  | some backend =>
      dsimp only
      split_ifs
      · exact .inl rfl
      · exact .inl rfl
      · exact .inl rfl
      · exact .inl rfl
      · exact .inr ⟨name, backend, slot, none, opts.reservationKey, opts.priority, failure, now, _,
          (Option.filter_eq_some_iff.1 hresident).1, rfl⟩

theorem releaseSlot_changes {leaseId : ℤ} {failure : Option Error} {now : TimePoint} :
    c.LeaseChange (c.releaseSlot name leaseId failure now).2.leaseBook ∧
      KeepsMarks c (c.releaseSlot name leaseId failure now).2 := by
  have hsame : c.LeaseChange c.leaseBook ∧ KeepsMarks c c := ⟨.same, rfl, rfl, rfl, le_rfl⟩
  unfold releaseSlot
  split
  · split_ifs <;> exact hsame
  next lease hlease =>
    split_ifs with hname
    · exact hsame
    · rw [ne_eq, not_not] at hname
      subst hname
      split
      next => exact hsame
      next backend hbackend =>
        cases failure with
        | some e => exact hsame
        | none =>
            dsimp only [Backend.releaseSlot]
            split_ifs
            all_goals
              exact ⟨.release leaseId lease backend hlease hbackend, rfl, rfl, rfl, by
                simp [leaveHold, advanceGeneration, removeLease, setInstance]⟩

theorem releaseSlot_requests {leaseId : ℤ} {failure : Option Error} {now : TimePoint} :
    c.RequestChange (c.releaseSlot name leaseId failure now).2.requestBook := by
  unfold releaseSlot
  split
  · split_ifs <;> exact .same
  next lease hlease =>
    split_ifs with hname
    · exact .same
    · split
      next => exact .same
      next backend hbackend =>
        cases failure with
        | some e => exact .same
        | none =>
            dsimp only [Backend.releaseSlot]
            split_ifs <;> exact .release leaseId lease hlease

end Slots

section Acquire

variable {c : BackendCoordinator} {input : Reading} {name : String} {opts : AcquireSlotOptions}
  {deadline : TimePoint} {result : Result Unit}

theorem enqueue_besides {now : TimePoint} : SameBesides c (c.enqueue name opts now).2 := by
  unfold enqueue
  split_ifs <;> exact ⟨_, _, rfl⟩

/-- A step of a request takes a slot at most, and changes the queue and the holds besides. -/
def RequestStep (c c' : BackendCoordinator) : Prop :=
  ∃ taken, TakesSlot c taken ∧ SameBesides taken c'

theorem RequestStep.besides {c' : BackendCoordinator} (h : SameBesides c c') : RequestStep c c' :=
  ⟨c, .inl rfl, h⟩

theorem RequestStep.changes {c' : BackendCoordinator} (h : RequestStep c c') :
    c.LeaseChange c'.leaseBook ∧ KeepsMarks c c' := by
  obtain ⟨taken, htakes, waiters, holds, rfl⟩ := h
  exact htakes.changes

theorem RequestStep.requests (h : RequestStep c c') : c.RequestChange c'.requestBook := by
  obtain ⟨taken, htakes, waiters, holds, rfl⟩ := h
  exact htakes.requests

theorem acquireLoop_takes {id : ℕ} :
    Ensures (c.acquireLoop input name opts deadline id) fun c' _ => RequestStep c c' := by
  have hleave : RequestStep c (c.eraseWaiterLocked id) := .besides (eraseWaiterLocked_besides c id)
  have hmodify : ∀ f, RequestStep c (c.modifyWaiter id f) := fun _ => .besides ⟨_, _, rfl⟩
  unfold acquireLoop
  cases hfind : c.waiters.find id
  case some waiter =>
    cases hturn : c.acquireTurn opts waiter input.now
    case takeSlot =>
      simp only [*, leaves, ensures_returns, ensures_ite, implies_true, true_and]
      intro _ _ c' move hmove
      obtain ⟨backend, slot, taken, result, leased, hready, -, hlease, hc'⟩ :=
        takeSlotTurn_eq_some hmove
      have htakes : TakesSlot c leased :=
        .inr ⟨_, _, _, _, _, _, _, _, _, (readyBackend_eq_some hready).1, hlease⟩
      rcases hc' with ⟨rfl, -⟩ | ⟨rfl, -, -⟩
      · exact ⟨leased, htakes, eraseWaiterLocked_besides leased id⟩
      · exact ⟨c', htakes, _, _, rfl⟩
    all_goals simp only [*, leaves, ensures_returns, ensures_goes, ensures_calls, ensures_ite,
      ensures_none, implies_true, and_self]
  all_goals simp only [*, leaves, ensures_returns, ensures_ite, ensures_none, implies_true, and_self]

theorem acquireStep_takes {pc : AcquirePc} :
    Ensures (c.acquireStep input name opts deadline result pc) fun c' _ => RequestStep c c' := by
  have hleave : ∀ id, RequestStep c (c.eraseWaiterLocked id) :=
    fun id => .besides (eraseWaiterLocked_besides c id)
  have hmodify : ∀ id f, RequestStep c (c.modifyWaiter id f) := fun _ _ => .besides ⟨_, _, rfl⟩
  cases pc with
  | loop id => exact acquireLoop_takes
  | start =>
      have hbesides : SameBesides c (c.enqueue name opts input.now).2 := enqueue_besides
      rcases henqueue : c.enqueue name opts input.now with ⟨_ | _, c'⟩
      all_goals
        rw [henqueue] at hbesides
        simp only [acquireStep, henqueue, ensures_returns, ensures_goes]
        exact .besides hbesides
  | demanding id =>
      cases hdemand : input.demand
      all_goals simp only [acquireStep, hdemand, leaves, ensures_returns, ensures_goes, hleave,
        hmodify]
  | capacityPrepared id generationBefore =>
      cases result
      all_goals simp only [acquireStep, afterCallback, leaves, ensures_returns, ensures_goes,
        ensures_ite, hleave, hmodify, and_self, implies_true]
  | prepared id generationBefore =>
      cases result
      all_goals simp only [acquireStep, afterCallback, leaves, ensures_returns, ensures_goes,
        ensures_ite, hleave, hmodify, and_self, implies_true]

end Acquire

end InferDeck.Model
