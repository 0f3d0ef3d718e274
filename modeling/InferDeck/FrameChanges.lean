import InferDeck.LeaseLedger

/-!
# What a step of a thread does

The step of a frame calls only what holds no lock yet, marks one name at most, keeps the ledger of
the leases, and leaves a model without leases alone that is marked.
-/

namespace InferDeck.Model

open Function InferDeck.Execution InferDeck.Foundation InferDeck.Threads

def CallsUnlocked : CoordinatorMove → Prop
  | .call _ callee => callee.holds = none
  | _ => True

open BackendCoordinator

section Callees

variable {c : BackendCoordinator} {canLock : LifecycleLock → Bool} {input : Reading}
  {name : String} {control : Control} {held : Option LifecycleLock} {result : Result Unit}

theorem unloadStep_callsUnlocked {pc : UnloadPc} :
    Ensures (c.unloadStep canLock input name control held pc) fun _ move => CallsUnlocked move := by
  cases pc
  case' unloading taken _ _ => cases taken <;> cases hdone : input.done
  all_goals simp only [*, unloadStep, drainTurn, ensures_returns, ensures_goes, ensures_ite,
    ensures_none, CallsUnlocked, implies_true, and_self]

theorem loadStep_callsUnlocked {pc : LoadPc} :
    Ensures (c.loadStep canLock input name control held result pc) fun _ move =>
      CallsUnlocked move := by
  cases pc
  case' start => cases hinfo : c.registry.getInfoResult name
  case' locked => cases hresident : c.residentBackend name
  case' recovered => cases result
  case' create recovery =>
    cases recovery <;> cases hinstance : c.instances.lookup name <;> cases hcreated : input.created
  case' resize => cases hdone : input.done
  case' loaded => cases result
  all_goals simp only [*, loadStep, ensures_returns, ensures_goes, ensures_some, ensures_ite,
    ensures_bind, ensures_none, CallsUnlocked, Frame.callUnload, Frame.holds, implies_true, and_self]

theorem swapStep_callsUnlocked {pc : SwapPc} :
    Ensures (c.swapStep canLock input name control held result pc) fun _ move =>
      CallsUnlocked move := by
  cases pc
  case' start => cases hinfo : c.registry.getInfoResult name
  case' plan => cases hinfo : c.registry.entries.lookup name
  case' unbudgeted => cases hcurrent : c.currentLoaded
  case' unbudgetedUnloaded => cases result
  case' unbudgetedLoaded current => cases result <;> cases current
  case' unbudgetedRestored => cases result
  case' prepared => cases result
  case' loaded => cases result
  case' retryPrepared => cases result
  case' retryLoaded => cases result
  case' restore snapshot _ _ => rcases hbefore : snapshot.before with _ | ⟨⟨_, _⟩, _⟩
  case' restored primary _ =>
    cases hprimary : primary.filter fun primary => (c.residentBackend primary).isSome
  all_goals simp only [*, swapStep, ensures_returns, ensures_goes, ensures_calls, ensures_ite,
    ensures_none, ensures_gate, CallsUnlocked, Frame.callUnload, Frame.callLoad,
    Frame.callPrepareCapacity, Frame.holds, implies_true, and_self]

theorem prepareRequestStep_callsUnlocked {demand : RequestDemand} {pc : PrepareRequestPc} :
    Ensures (c.prepareRequestStep canLock input name demand control held pc) fun _ move =>
      CallsUnlocked move := by
  cases pc
  case' ensured result => cases result
  all_goals simp only [*, prepareRequestStep, ensures_returns, ensures_goes, ensures_ite,
    ensures_bind, ensures_none, CallsUnlocked, implies_true, and_self]

/-- The first frame of a call holds no lock. -/
theorem Frame.Enters.holds_eq_none {frame : Frame} (h : frame.Enters) : frame.holds = none := by
  cases h <;> rfl

theorem callsUnlocked_of_proceeds {lifecycleLock : String → LifecycleLock} {frame : Frame}
    {move : CoordinatorMove} (h : frame.Proceeds lifecycleLock move) : CallsUnlocked move := by
  cases move with
  | call next callee => exact (proceeds_call.1 h).2.2.2.2.1.holds_eq_none
  | goto next => trivial
  | ret result => trivial

theorem frameStep_callsUnlocked (frame : Frame) :
    Ensures (frameStep canLock input c frame) fun _ move => CallsUnlocked move := by
  cases frame with
  | unload name control held pc => exact unloadStep_callsUnlocked
  | load name control held pc result => exact loadStep_callsUnlocked
  | prepareCapacity name control force required pc result =>
      exact (prepareCapacityStep_proceeds c.lifecycleLock).mono fun _ _ h =>
        callsUnlocked_of_proceeds h.1
  | swap name control held pc result => exact swapStep_callsUnlocked
  | swapCancellable name control pc result =>
      exact (swapCancellableStep_proceeds c.lifecycleLock).mono fun _ _ h =>
        callsUnlocked_of_proceeds h.1
  | prepareRequest name demand control held pc => exact prepareRequestStep_callsUnlocked
  | acquire name opts deadline pc result =>
      exact (acquireStep_proceeds c.lifecycleLock).mono fun _ _ h =>
        callsUnlocked_of_proceeds h.1

end Callees

theorem calls_lawful : calls.Lawful where
  callee canLock input c frame c' frame' callee h :=
    frameStep_callsUnlocked frame c' (.call frame' callee) h
  resume frame result := by cases frame <;> rfl
  owner_setOwner c owners := by
    funext lock
    cases lock <;> rfl

/-- A frame marks one name at most, and gives it up before it marks another. -/
def Remarks (old new : Option String) : Prop := old = none ∨ new = none ∨ old = new

section Marks

variable {c : BackendCoordinator} {canLock : LifecycleLock → Bool} {input : Reading}
  {name : String} {control : Control} {held : Option LifecycleLock} {result : Result Unit}

theorem drainTurn_remarks {drainDeadline : TimePoint} {first : Bool} {old : Option String}
    (hold : old = none ∨ old = some name) :
    Ensures (c.drainTurn input name control held drainDeadline first) fun _ move =>
      Remarks old (drainsAfter move) := by
  rcases hold with rfl | rfl
  all_goals simp only [drainTurn, ensures_returns, ensures_goes, ensures_ite, ensures_none,
    drainsAfter, Frame.drains, Remarks, true_or, or_true, implies_true, and_self]

theorem unloadStep_remarks {pc : UnloadPc} :
    Ensures (c.unloadStep canLock input name control held pc) fun _ move =>
      Remarks (Frame.unload name control held pc).drains (drainsAfter move) := by
  cases pc
  case locked drainDeadline => exact drainTurn_remarks (.inl rfl)
  case draining drainDeadline => exact drainTurn_remarks (.inr rfl)
  case' unloading taken _ _ => cases taken <;> cases hdone : input.done
  all_goals simp only [*, unloadStep, ensures_returns, ensures_goes, ensures_ite, ensures_none,
    drainsAfter, Frame.drains, Remarks, true_or, or_true, implies_true, and_self]

theorem prepareCapacityStep_remarks {force : Bool} {required : ℤ} {pc : PrepareCapacityPc} :
    Ensures (c.prepareCapacityStep input name control force required result pc) fun _ move =>
      Remarks pc.candidate (resizesAfter move) := by
  cases pc
  case' start => cases hinfo : c.registry.getInfoResult name
  case' reclaim => cases hchoice : input.choice
  case' reclaimed _ _ observed outcome => rcases outcome with _ | (_ | _) <;> cases observed
  case' shrink => cases hchoice : input.choice
  case' shrunk _ _ outcome => cases outcome
  case' evict => cases hchoice : input.choice
  case' evicted => cases result
  all_goals simp only [*, prepareCapacityStep, capacityVerdict, ensures_returns, ensures_goes,
    ensures_ite, ensures_bind, ensures_none, ensures_gate, resizesAfter, Frame.resizes,
    PrepareCapacityPc.candidate, Frame.callUnload, Remarks, true_or, or_true, implies_true,
    and_self]

theorem prepareRequestStep_remarks {demand : RequestDemand} {pc : PrepareRequestPc} :
    Ensures (c.prepareRequestStep canLock input name demand control held pc) fun _ move =>
      Remarks (Frame.prepareRequest name demand control held pc).resizes (resizesAfter move) := by
  cases pc
  case' ensured result => cases result
  all_goals simp only [*, prepareRequestStep, ensures_returns, ensures_goes, ensures_ite,
    ensures_bind, ensures_none, resizesAfter, Frame.resizes, Remarks, true_or, or_true,
    implies_true, and_self]

/-- An unload takes the instance out only when the model has no requests. -/
theorem unloadStep_quiesces {pc : UnloadPc} {n : String} :
    Ensures (c.unloadStep canLock input name control held pc) fun _ move =>
      quiescesAfter move = some n → c.hasActiveRequests n = false := by
  cases pc
  case locked drainDeadline => exact drainTurn_quiesces (c := c.drain name)
  case draining drainDeadline => exact drainTurn_quiesces
  case' unloading taken _ _ => cases taken <;> cases hdone : input.done
  all_goals simp only [*, unloadStep, ensures_returns, ensures_goes, ensures_ite, ensures_none,
    quiescesAfter, Frame.quiesces, reduceCtorEq, false_implies, implies_true, and_self]

theorem prepareRequestStep_quiesces {demand : RequestDemand} {pc : PrepareRequestPc} :
    Ensures (c.prepareRequestStep canLock input name demand control held pc) fun _ move =>
      quiescesAfter move = none := by
  cases pc
  case' ensured result => cases result
  all_goals simp only [*, prepareRequestStep, ensures_returns, ensures_goes, ensures_ite,
    ensures_bind, ensures_none, quiescesAfter, Frame.quiesces, implies_true, and_self]

end Marks

/-- Who works on a model without requests has marked it. -/
theorem Frame.marks_of_quiesces {frame : Frame} {n : String} (h : frame.quiesces = some n) :
    frame.drains = some n ∨ frame.resizes = some n := by
  cases frame with
  | unload name control held pc =>
      cases pc
      case unloading => exact .inl h
      all_goals cases h
  | prepareCapacity name control force required pc result => exact .inr h
  | _ => cases h

theorem marks_of_quiescesAfter {move : CoordinatorMove} {n : String}
    (h : quiescesAfter move = some n) :
    drainsAfter move = some n ∨ resizesAfter move = some n := by
  cases move with
  | goto next => exact Frame.marks_of_quiesces h
  | call next callee => exact Frame.marks_of_quiesces h
  | ret result => cases h

structure FrameChange (c : BackendCoordinator) (frame : Frame) (c' : BackendCoordinator)
    (move : CoordinatorMove) : Prop where
  registry : c'.registry = c.registry
  draining : c'.drainingModels = remark frame.drains (drainsAfter move) c.drainingModels
  resizing : c'.resizingModels = remark frame.resizes (resizesAfter move) c.resizingModels
  leases : LeaseStep c c'
  drains : Remarks frame.drains (drainsAfter move)
  resizes : Remarks frame.resizes (resizesAfter move)
  ledger : c.Ledger → (∀ n, frame.quiesces = some n → c.leaseCount n = 0) → c'.Ledger
  quiesces : c.Ledger → ∀ n, (frame.quiesces = some n → c.leaseCount n = 0) →
    quiescesAfter move = some n → c'.leaseCount n = 0
  quiet : ∀ n, n ∈ c.drainingModels ∨ n ∈ c.resizingModels → c.leaseCount n = 0 →
    c'.leaseCount n = 0

section FrameChange

variable {c c' : BackendCoordinator} {name : String}

theorem BackendCoordinator.Untouched.requestBook (h : c.Untouched c') :
    c'.requestBook = c.requestBook :=
  congrArg (fun books : Books => RequestBook.mk books.activeRequests books.activeLeases
    books.activeContextReservationByModel books.activeSequenceReservationByModel
    books.nextLeaseId) h.1

theorem BackendCoordinator.Untouched.leaseCount (h : c.Untouched c') (n : String) :
    c'.leaseCount n = c.leaseCount n := by
  rw [BackendCoordinator.leaseCount, BackendCoordinator.leaseCount,
    show c'.activeLeases = c.activeLeases from congrArg Books.activeLeases h.1]

/-- A step that operates on a backend keeps the ledger. -/
theorem BackendCoordinator.Ledger.of_instanceChange (hledger : c.Ledger) (h : c.Untouched c')
    (hcounts : c'.activeRequestsByModel = c.activeRequestsByModel)
    (hinstances : InstanceChange c.instances c'.instances) : c'.Ledger := by
  apply hledger.of_backsOn (congrArg Books.activeLeases h.1) (congrArg Books.nextLeaseId h.1)
  · intro n
    rw [hcounts]
  · exact fun _ _ _ => .of_instanceChange hinstances

/-- An unload works on an instance that no lease rests on. -/
theorem BackendCoordinator.Ledger.of_unloadChange {frame : Frame} (hledger : c.Ledger)
    (hquiet : ∀ n, frame.quiesces = some n → c.leaseCount n = 0) (h : c.Untouched c')
    (hchange : c.UnloadChange frame name c') : c'.Ledger := by
  have hleases : c'.activeLeases = c.activeLeases := congrArg Books.activeLeases h.1
  have hnext : c'.nextLeaseId = c.nextLeaseId := congrArg Books.nextLeaseId h.1
  have hother : c.leaseCount name = 0 → ∀ id lease, c.activeLeases.lookup id = some lease →
      lease.model ≠ name := leaseCount_eq_zero_iff.1
  cases hchange with
  | same hinstances hcounts =>
      exact hledger.of_backsOn hleases hnext (fun n => by rw [hcounts])
        fun _ _ _ => .of_lookup_eq (by rw [hinstances])
  | take hidle hinstances hcounts =>
      apply hledger.of_backsOn hleases hnext (fun n => by rw [hcounts])
      intro id lease hlease
      have hne := hother (hledger.leaseCount_of_not_hasActive hidle) id lease hlease
      exact .of_lookup_eq (by rw [hinstances, AList.lookup_erase_ne hne])
  | restore backend hframe hinstances hcounts =>
      apply hledger.of_backsOn hleases hnext (fun n => by rw [hcounts])
      intro id lease hlease
      have hne := hother (hquiet name hframe) id lease hlease
      exact .of_lookup_eq (by rw [hinstances, AList.lookup_insert_ne hne])
  | forget hframe hinstances hcounts =>
      apply hledger.of_backsOn hleases hnext
      · intro n
        rw [hcounts]
        by_cases hn : n = name
        · subst hn
          rw [Map.find_erase_self, hledger.counted, hquiet n hframe]
          rfl
        · rw [Map.find_erase_of_ne hn]
      · exact fun _ _ _ => .of_lookup_eq (by rw [hinstances])

/-- A model that is marked gets no lease. -/
theorem BackendCoordinator.LeaseChange.quiet (h : c.LeaseChange c'.leaseBook) {n : String}
    (hmarked : n ∈ c.drainingModels ∨ n ∈ c.resizingModels) (hquiet : c.leaseCount n = 0) :
    c'.leaseCount n = 0 := by
  rw [leaseCount_eq_zero_iff] at hquiet ⊢
  intro id lease' hlease'
  generalize hbook : c'.leaseBook = book at h
  have hleases : c'.activeLeases = book.activeLeases := congrArg LeaseBook.activeLeases hbook
  rw [hleases] at hlease'
  cases h with
  | same => exact hquiet id lease' hlease'
  | slot => exact hquiet id lease' hlease'
  | lease backend lease hmay =>
      by_cases hid : id = c.nextLeaseId
      · rw [hid, AList.lookup_insert] at hlease'
        obtain rfl := Option.some.inj hlease'
        rintro rfl
        exact hmarked.elim hmay.notDraining hmay.notResizing
      · rw [AList.lookup_insert_ne hid] at hlease'
        exact hquiet id lease' hlease'
  | release id' lease backend hlease =>
      by_cases hid : id = id'
      · rw [hid, AList.lookup_erase] at hlease'
        cases hlease'
      · rw [AList.lookup_erase_ne hid] at hlease'
        exact hquiet id lease' hlease'

variable {canLock : LifecycleLock → Bool} {input : Reading} {frame : Frame}

/-- A step that touches no lease and marks nothing. -/
theorem FrameChange.of_unmarked {move : CoordinatorMove} (hdrains : frame.drains = none)
    (hresizes : frame.resizes = none) (hdrainsAfter : drainsAfter move = none)
    (hresizesAfter : resizesAfter move = none) (h : c.Untouched c')
    (hcounts : c'.activeRequestsByModel = c.activeRequestsByModel)
    (hdraining : c'.drainingModels = c.drainingModels)
    (hresizing : c'.resizingModels = c.resizingModels)
    (hinstances : InstanceChange c.instances c'.instances) : FrameChange c frame c' move where
  registry := congrArg Books.registry h.1
  draining := by rw [hdrains, hdrainsAfter, remark_same, hdraining]
  resizing := by rw [hresizes, hresizesAfter, remark_same, hresizing]
  leases := .inl h.requestBook
  drains := .inl hdrains
  resizes := .inl hresizes
  ledger hledger _ := hledger.of_instanceChange h hcounts hinstances
  quiesces _ n _ hn := by
    rcases marks_of_quiescesAfter hn with hmark | hmark
    · rw [hdrainsAfter] at hmark
      cases hmark
    · rw [hresizesAfter] at hmark
      cases hmark
  quiet n _ hquiet := (h.leaseCount n).trans hquiet

theorem frameStep_change (hframe : frame.Guarded c.lifecycleLock)
    (hlocked : ∀ name control held d, frame = .unload name control held (.locked d) →
      name ∉ c.drainingModels) :
    Ensures (frameStep canLock input c frame) fun c' move => FrameChange c frame c' move := by
  intro c' move hstep
  cases frame with
  | unload name control held pc =>
      obtain ⟨huntouched, hdraining, hresizing, hchange⟩ :=
        unloadStep_changes (fun d hpc => hlocked name control held d (hpc ▸ rfl)) c' move hstep
      have hresizesAfter := ((unloadStep_proceeds hframe) c' move hstep).2
      refine ⟨congrArg Books.registry huntouched.1, hdraining, ?_,
        .inl huntouched.requestBook, unloadStep_remarks c' move hstep,
        .inl rfl, fun hledger hquiet => hledger.of_unloadChange hquiet huntouched hchange, ?_,
        fun n _ hquiet => (huntouched.leaseCount n).trans hquiet⟩
      · rw [hresizesAfter, hresizing]
        exact remark_same.symm
      · intro hledger n _ hn
        rw [huntouched.leaseCount]
        exact hledger.leaseCount_of_not_hasActive (unloadStep_quiesces c' move hstep hn)
  | load name control held pc result =>
      obtain ⟨huntouched, hcounts, hdraining, hresizing, hinstances⟩ :=
        loadStep_changes c' move hstep
      obtain ⟨_, hdrainsAfter, hresizesAfter⟩ := (loadStep_proceeds hframe) c' move hstep
      exact .of_unmarked rfl rfl hdrainsAfter hresizesAfter huntouched hcounts hdraining hresizing
        hinstances
  | prepareCapacity name control force required pc result =>
      obtain ⟨huntouched, hcounts, hdraining, hresizing, hinstances⟩ :=
        prepareCapacityStep_changes c' move hstep
      have hdrainsAfter :=
        ((prepareCapacityStep_proceeds c.lifecycleLock) c' move hstep).2
      refine ⟨congrArg Books.registry huntouched.1, ?_, hresizing,
        .inl huntouched.requestBook, .inl rfl,
        prepareCapacityStep_remarks c' move hstep,
        fun hledger _ => hledger.of_instanceChange huntouched hcounts hinstances, ?_,
        fun n _ hquiet => (huntouched.leaseCount n).trans hquiet⟩
      · rw [hdrainsAfter, hdraining]
        exact remark_same.symm
      · intro hledger n hquiet hn
        rw [huntouched.leaseCount]
        rcases prepareCapacityStep_quiesces c' move hstep hn with hmarked | hidle
        · exact hquiet hmarked
        · exact hledger.leaseCount_of_not_hasActive hidle
  | swap name control held pc result =>
      obtain ⟨huntouched, hcounts, hdraining, hresizing, hinstances⟩ :=
        swapStep_changes c' move hstep
      obtain ⟨_, hdrainsAfter, hresizesAfter⟩ :=
        (swapStep_proceeds hframe) c' move hstep
      exact .of_unmarked rfl rfl hdrainsAfter hresizesAfter huntouched hcounts hdraining hresizing
        (hinstances ▸ .same)
  | swapCancellable name control pc result =>
      obtain ⟨huntouched, hcounts, hdraining, hresizing, hinstances⟩ :=
        swapCancellableStep_changes c' move hstep
      obtain ⟨_, hdrainsAfter, hresizesAfter⟩ :=
        (swapCancellableStep_proceeds c.lifecycleLock) c' move hstep
      exact .of_unmarked rfl rfl hdrainsAfter hresizesAfter huntouched hcounts hdraining hresizing
        (hinstances ▸ .same)
  | prepareRequest name demand control held pc =>
      obtain ⟨huntouched, hcounts, hdraining, hresizing, hinstances⟩ :=
        prepareRequestStep_changes c' move hstep
      have hdrainsAfter :=
        ((prepareRequestStep_proceeds hframe) c' move hstep).2
      refine ⟨congrArg Books.registry huntouched.1, ?_, hresizing,
        .inl huntouched.requestBook, .inl rfl,
        prepareRequestStep_remarks c' move hstep,
        fun hledger _ => hledger.of_instanceChange huntouched hcounts hinstances, ?_,
        fun n _ hquiet => (huntouched.leaseCount n).trans hquiet⟩
      · rw [hdrainsAfter, hdraining]
        exact remark_same.symm
      · intro _ n _ hn
        rw [prepareRequestStep_quiesces c' move hstep] at hn
        cases hn
  | acquire name opts deadline pc result =>
      have hrequest : RequestStep c c' := acquireStep_takes c' move hstep
      obtain ⟨hchange, hregistry, hdraining, hresizing, _⟩ := hrequest.changes
      obtain ⟨_, hdrainsAfter, hresizesAfter⟩ :=
        (acquireStep_proceeds c.lifecycleLock) c' move hstep
      refine ⟨hregistry, ?_, ?_, .inr ⟨hchange, hrequest.requests⟩, .inl rfl, .inl rfl,
        fun hledger _ => hledger.of_leaseChange hchange, ?_,
        fun n hmarked hquiet => hchange.quiet hmarked hquiet⟩
      · rw [hdrainsAfter, hdraining]
        exact remark_same.symm
      · rw [hresizesAfter, hresizing]
        exact remark_same.symm
      · intro _ n _ hn
        rcases marks_of_quiescesAfter hn with hmark | hmark
        · rw [hdrainsAfter] at hmark
          cases hmark
        · rw [hresizesAfter] at hmark
          cases hmark

end FrameChange

end InferDeck.Model
