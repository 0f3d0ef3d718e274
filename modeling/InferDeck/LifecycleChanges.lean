import InferDeck.LifecycleRules

/-!
# What the calls change

For each function which fields a step changes: the lifecycle calls leave the leases, the queue and
the sessions alone, mark and unmark the draining and the resizing models, and operate on one backend
at a time. Only an unload takes an instance out or forgets the requests of a model.
-/

namespace InferDeck.Model

open InferDeck.Foundation InferDeck.Threads

/-- The fields that only requests change: the leases, the queue, the sessions and the registry. -/
structure Books where
  registry : ModelRegistry
  activeRequests : ℤ
  activeLeases : Map ℤ ActiveLease
  activeContextReservationByModel : Map String ℤ
  activeSequenceReservationByModel : Map String ℤ
  nextLeaseId : ℤ
  waiters : WaiterQueue
  maxQueueSize : ℕ
  prioritySessions : Map String PrioritySession

/-- The name that the frame on top after the move works on because it has no requests. -/
def quiescesAfter : CoordinatorMove → Option String
  | .goto next => next.quiesces
  | .call _ callee => callee.quiesces
  | .ret _ => none

/-- The marked names when the top frame of a thread has marked `new` instead of `old`. -/
def remark (old new : Option String) (names : Finset String) : Finset String :=
  if old = new then names
  else
    match old, new with
    | _, some name => insert name names
    | some name, none => names.erase name
    | none, none => names

theorem remark_same {mark : Option String} {names : Finset String} :
    remark mark mark names = names := by
  simp [remark]

theorem remark_enter {name : String} {names : Finset String} :
    remark none (some name) names = insert name names := by
  simp [remark]

theorem remark_leave {name : String} {names : Finset String} :
    remark (some name) none names = names.erase name := by
  simp [remark]

/-- The instances after a step: one backend may have done an operation, or be new and unused. -/
inductive InstanceChange (instances : Map String Backend) : Map String Backend → Prop
  | same : InstanceChange instances instances
  | operate (name : String) (backend after : Backend) : instances.lookup name = some backend →
      backend.keeps after → InstanceChange instances (instances.insert name after)
  | create (name : String) (backend : Backend) : instances.lookup name = none →
      (backend.loaded || backend.slots.any id) = false →
      InstanceChange instances (instances.insert name backend)

namespace BackendCoordinator

variable (c : BackendCoordinator)

def books : Books where
  registry := c.registry
  activeRequests := c.activeRequests
  activeLeases := c.activeLeases
  activeContextReservationByModel := c.activeContextReservationByModel
  activeSequenceReservationByModel := c.activeSequenceReservationByModel
  nextLeaseId := c.nextLeaseId
  waiters := c.waiters
  maxQueueSize := c.maxQueueSize
  prioritySessions := c.prioritySessions

/-- For whom the next turn of a model is held. -/
def holdKey (name : String) : Option String :=
  (c.continuationHolds.lookup name).map ContinuationHold.key

/-- The leases, the queue and the holds are as before, and the generation has not gone back. -/
def Untouched (c' : BackendCoordinator) : Prop :=
  c'.books = c.books ∧ (∀ name, c'.holdKey name = c.holdKey name) ∧
    c.resourceGeneration ≤ c'.resourceGeneration

/-- How an unload changes the instances and the counts of requests. It puts the instance back or
forgets the requests only when it has taken the instance out. -/
inductive UnloadChange (c : BackendCoordinator) (frame : Frame) (name : String)
    (c' : BackendCoordinator) : Prop
  | same : c'.instances = c.instances → c'.activeRequestsByModel = c.activeRequestsByModel →
      UnloadChange c frame name c'
  | take : c.hasActiveRequests name = false → c'.instances = c.instances.erase name →
      c'.activeRequestsByModel = c.activeRequestsByModel → UnloadChange c frame name c'
  | restore (backend : Backend) : frame.quiesces = some name →
      c'.instances = c.instances.insert name backend →
      c'.activeRequestsByModel = c.activeRequestsByModel → UnloadChange c frame name c'
  | forget : frame.quiesces = some name → c'.instances = c.instances →
      c'.activeRequestsByModel = c.activeRequestsByModel.erase name →
      UnloadChange c frame name c'

end BackendCoordinator

open BackendCoordinator

section Updates

variable {c c' : BackendCoordinator} {name : String} {input : Reading}

theorem BackendCoordinator.Untouched.refl : c.Untouched c := ⟨rfl, fun _ => rfl, le_rfl⟩

theorem BackendCoordinator.Untouched.trans {c₁ c₂ : BackendCoordinator} (h : c.Untouched c₁)
    (h' : c₁.Untouched c₂) : c.Untouched c₂ :=
  ⟨h'.1.trans h.1, fun name => (h'.2.1 name).trans (h.2.1 name), h.2.2.trans h'.2.2⟩

theorem undrain_fields :
    c.Untouched (c.undrain name) ∧
      (c.undrain name).drainingModels = c.drainingModels.erase name ∧
      (c.undrain name).resizingModels = c.resizingModels ∧
      (c.undrain name).activeRequestsByModel = c.activeRequestsByModel ∧
      (c.undrain name).instances = c.instances :=
  ⟨Untouched.refl, rfl, rfl, rfl, rfl⟩

theorem resize_fields :
    c.Untouched (c.resize name) ∧
      (c.resize name).drainingModels = c.drainingModels ∧
      (c.resize name).resizingModels = insert name c.resizingModels ∧
      (c.resize name).activeRequestsByModel = c.activeRequestsByModel ∧
      (c.resize name).instances = c.instances :=
  ⟨Untouched.refl, rfl, rfl, rfl, rfl⟩

theorem unresize_fields :
    c.Untouched (c.unresize name) ∧
      (c.unresize name).drainingModels = c.drainingModels ∧
      (c.unresize name).resizingModels = c.resizingModels.erase name ∧
      (c.unresize name).activeRequestsByModel = c.activeRequestsByModel ∧
      (c.unresize name).instances = c.instances :=
  ⟨Untouched.refl, rfl, rfl, rfl, rfl⟩

theorem setInstance_fields {backend : Backend} :
    c.Untouched (c.setInstance name backend) ∧
      (c.setInstance name backend).drainingModels = c.drainingModels ∧
      (c.setInstance name backend).resizingModels = c.resizingModels ∧
      (c.setInstance name backend).activeRequestsByModel = c.activeRequestsByModel ∧
      (c.setInstance name backend).instances = c.instances.insert name backend :=
  ⟨Untouched.refl, rfl, rfl, rfl, rfl⟩

theorem takeInstance_fields :
    c.Untouched (c.takeInstance name) ∧
      (c.takeInstance name).drainingModels = c.drainingModels ∧
      (c.takeInstance name).resizingModels = c.resizingModels ∧
      (c.takeInstance name).activeRequestsByModel = c.activeRequestsByModel ∧
      (c.takeInstance name).instances = c.instances.erase name := by
  unfold takeInstance
  split_ifs <;> exact ⟨Untouched.refl, rfl, rfl, rfl, rfl⟩

theorem selectIfPrimary_fields :
    c.Untouched (c.selectIfPrimary name) ∧
      (c.selectIfPrimary name).drainingModels = c.drainingModels ∧
      (c.selectIfPrimary name).resizingModels = c.resizingModels ∧
      (c.selectIfPrimary name).activeRequestsByModel = c.activeRequestsByModel ∧
      (c.selectIfPrimary name).instances = c.instances := by
  unfold selectIfPrimary
  split_ifs <;> exact ⟨Untouched.refl, rfl, rfl, rfl, rfl⟩

theorem memoryChangedBy_fields :
    c.Untouched (c.memoryChangedBy name) ∧
      (c.memoryChangedBy name).drainingModels = c.drainingModels ∧
      (c.memoryChangedBy name).resizingModels = c.resizingModels ∧
      (c.memoryChangedBy name).activeRequestsByModel = c.activeRequestsByModel ∧
      (c.memoryChangedBy name).instances = c.instances := by
  unfold memoryChangedBy
  split_ifs
  · exact ⟨⟨rfl, fun _ => rfl, Nat.le_succ _⟩, rfl, rfl, rfl, rfl⟩
  · exact ⟨Untouched.refl, rfl, rfl, rfl, rfl⟩

theorem finishUnload_fields {releasedVram : ℤ} :
    c.Untouched (c.finishUnload name releasedVram) ∧
      (c.finishUnload name releasedVram).drainingModels = c.drainingModels.erase name ∧
      (c.finishUnload name releasedVram).resizingModels = c.resizingModels ∧
      (c.finishUnload name releasedVram).activeRequestsByModel =
        c.activeRequestsByModel.erase name ∧
      (c.finishUnload name releasedVram).instances = c.instances := by
  unfold finishUnload
  split_ifs
  · exact ⟨⟨rfl, fun _ => rfl, Nat.le_succ _⟩, rfl, rfl, rfl, rfl⟩
  · exact ⟨Untouched.refl, rfl, rfl, rfl, rfl⟩

theorem advanceWithHold_fields :
    c.Untouched (c.advanceWithHold name) ∧
      (c.advanceWithHold name).drainingModels = c.drainingModels ∧
      (c.advanceWithHold name).resizingModels = c.resizingModels ∧
      (c.advanceWithHold name).activeRequestsByModel = c.activeRequestsByModel ∧
      (c.advanceWithHold name).instances = c.instances := by
  unfold advanceWithHold
  split_ifs
  · split
    next => exact ⟨⟨rfl, fun _ => rfl, Nat.le_succ _⟩, rfl, rfl, rfl, rfl⟩
    next hold hlookup =>
      refine ⟨⟨rfl, fun n => ?_, Nat.le_succ _⟩, rfl, rfl, rfl, rfl⟩
      unfold holdKey
      by_cases hn : n = name
      · subst hn
        simp [hlookup]
      · simp [AList.lookup_insert_ne hn]
  · exact ⟨⟨rfl, fun _ => rfl, Nat.le_succ _⟩, rfl, rfl, rfl, rfl⟩

theorem operate_eq_some {after : Option Backend} (h : c.operate name after = some c') :
    c.Untouched c' ∧ c'.activeRequestsByModel = c.activeRequestsByModel ∧
      c'.drainingModels = c.drainingModels ∧ c'.resizingModels = c.resizingModels ∧
      InstanceChange c.instances c'.instances := by
  unfold operate at h
  split at h
  next => cases h
  next => exact Option.some.inj h ▸ ⟨Untouched.refl, rfl, rfl, rfl, .same⟩
  next backend after hlookup =>
    split_ifs at h with hkeeps
    have hchange := InstanceChange.operate name backend after hlookup hkeeps
    exact Option.some.inj h ▸ ⟨Untouched.refl, rfl, rfl, rfl, hchange⟩

theorem resizeSlots_eq_some {slots : ℤ} (h : c.resizeSlots input name slots = some c') :
    c.Untouched c' ∧ c'.activeRequestsByModel = c.activeRequestsByModel ∧
      c'.drainingModels = c.drainingModels ∧ c'.resizingModels = c.resizingModels ∧
      InstanceChange c.instances c'.instances :=
  operate_eq_some (Option.filter_eq_some_iff.1 h).1

end Updates

section Steps

variable {c : BackendCoordinator} {canLock : LifecycleLock → Bool} {input : Reading}
  {name : String} {control : Control} {held : Option LifecycleLock} {result : Result Unit}

/-- The model is marked as draining from here on until the call returns. -/
theorem drainTurn_changes {frame : Frame} {drainDeadline : TimePoint} {first : Bool} :
    Ensures (c.drainTurn input name control held drainDeadline first) fun c' move =>
      c.Untouched c' ∧ (drainsAfter move = none ∨ drainsAfter move = some name) ∧
        c'.drainingModels = remark (some name) (drainsAfter move) c.drainingModels ∧
        c'.resizingModels = c.resizingModels ∧ c.UnloadChange frame name c' := by
  simp +contextual only [drainTurn, ensures_returns, ensures_goes, ensures_ite, ensures_none,
    drainsAfter, Frame.drains, remark_same, remark_leave, Untouched.refl,
    takeInstance_fields, undrain_fields, UnloadChange.same, UnloadChange.take,
    Bool.not_eq_true, true_or, or_true, implies_true, and_self]

/-- The instance is taken out only when the model has no requests. -/
theorem drainTurn_quiesces {drainDeadline : TimePoint} {first : Bool} {n : String} :
    Ensures (c.drainTurn input name control held drainDeadline first) fun _ move =>
      quiescesAfter move = some n → c.hasActiveRequests n = false := by
  simp +contextual only [drainTurn, ensures_returns, ensures_goes, ensures_ite, ensures_none,
    quiescesAfter, Frame.quiesces, reduceCtorEq, Option.some.injEq, Bool.not_eq_true,
    false_implies, implies_true, and_self, true_and]
  exact fun _ _ hidle hn => hn ▸ hidle

/-- An unload marks the model until it returns. -/
theorem unloadStep_changes {pc : UnloadPc} (h : ∀ d, pc = .locked d → name ∉ c.drainingModels) :
    Ensures (c.unloadStep canLock input name control held pc) fun c' move =>
      c.Untouched c' ∧ c'.drainingModels =
        remark (Frame.unload name control held pc).drains (drainsAfter move) c.drainingModels ∧
      c'.resizingModels = c.resizingModels ∧
      c.UnloadChange (Frame.unload name control held pc) name c' := by
  cases pc with
  | start =>
      simp only [unloadStep, ensures_returns, ensures_goes, ensures_ite, ensures_none, drainsAfter,
        Frame.drains, remark_same, Untouched.refl, UnloadChange.same, implies_true, and_self]
  | locked drainDeadline =>
      intro c' move hstep
      obtain ⟨huntouched, hmark, hdraining, hresizing, hchange⟩ :=
        drainTurn_changes (c := c.drain name) c' move hstep
      refine ⟨huntouched, ?_, hresizing, ?_⟩
      · rw [hdraining]
        rcases hmark with hmark | hmark
        · rw [hmark, remark_leave]
          exact Finset.erase_insert (h drainDeadline rfl)
        · rw [hmark, remark_same]
          exact remark_enter.symm
      · cases hchange with
        | same hinstances hrequests => exact .same hinstances hrequests
        | take hidle hinstances hrequests => exact .take hidle hinstances hrequests
        | restore backend hframe hinstances hrequests =>
            exact .restore backend hframe hinstances hrequests
        | forget hframe hinstances hrequests => exact .forget hframe hinstances hrequests
  | draining drainDeadline =>
      exact drainTurn_changes.mono fun _ _ h => ⟨h.1, h.2.2⟩
  | unloading taken wasPrimary releasedVram =>
      have hforget : c.UnloadChange
          (Frame.unload name control held (.unloading taken wasPrimary releasedVram)) name
          (c.finishUnload name releasedVram) :=
        .forget rfl finishUnload_fields.2.2.2.2 finishUnload_fields.2.2.2.1
      cases taken with
      | none =>
          simp only [unloadStep, ensures_returns, drainsAfter, Frame.drains, remark_leave,
            finishUnload_fields, hforget, and_self]
      | some backend =>
          cases hdone : input.done with
          | ok _ =>
              simp only [unloadStep, hdone, ensures_returns, drainsAfter, Frame.drains,
                remark_leave, finishUnload_fields, hforget, and_self]
          | error e =>
              simp only [unloadStep, hdone, ensures_returns, ensures_ite, ensures_none,
                drainsAfter, Frame.drains, remark_leave, implies_true, and_true]
              exact fun _ => ⟨Untouched.refl, rfl, rfl,
                .restore (input.after.getD backend) rfl rfl rfl⟩

theorem loadStep_changes {pc : LoadPc} :
    Ensures (c.loadStep canLock input name control held result pc) fun c' _ =>
      c.Untouched c' ∧ c'.activeRequestsByModel = c.activeRequestsByModel ∧
        c'.drainingModels = c.drainingModels ∧ c'.resizingModels = c.resizingModels ∧
        InstanceChange c.instances c'.instances := by
  cases pc
  case load =>
    simp only [loadStep, ensures_bind, ensures_goes]
    exact fun _ => operate_eq_some
  case resize slots =>
    cases hdone : input.done
    all_goals simp only [loadStep, hdone, ensures_bind, ensures_goes, ensures_returns]
    all_goals exact fun _ => resizeSlots_eq_some
  case' start => cases hinfo : c.registry.getInfoResult name
  case' locked => cases hresident : c.residentBackend name
  case' recovered => cases result
  case' create recovery =>
    cases recovery <;> cases hinstance : c.instances.lookup name <;> cases hcreated : input.created
  case loaded =>
    have hselect : c.Untouched (c.selectIfPrimary name) := selectIfPrimary_fields.1
    have hmemory : (c.selectIfPrimary name).Untouched
        ((c.selectIfPrimary name).memoryChangedBy name) := memoryChangedBy_fields.1
    cases result
    all_goals simp only [loadStep, ensures_returns, hselect.trans hmemory, selectIfPrimary_fields,
      memoryChangedBy_fields, InstanceChange.same, and_self]
  all_goals simp +contextual only [*, loadStep, ensures_returns, ensures_goes, ensures_some,
    ensures_ite, ensures_none, Untouched.refl, selectIfPrimary_fields, setInstance_fields,
    InstanceChange.same, InstanceChange.create, Bool.not_eq_true, implies_true, and_self]

theorem prepareCapacityStep_changes {force : Bool} {required : ℤ} {pc : PrepareCapacityPc} :
    Ensures (c.prepareCapacityStep input name control force required result pc) fun c' move =>
      c.Untouched c' ∧ c'.activeRequestsByModel = c.activeRequestsByModel ∧
        c'.drainingModels = c.drainingModels ∧
        c'.resizingModels = remark pc.candidate (resizesAfter move) c.resizingModels ∧
        InstanceChange c.instances c'.instances := by
  cases pc
  case reclaiming =>
    simp only [prepareCapacityStep, ensures_bind, ensures_goes, resizesAfter, Frame.resizes,
      PrepareCapacityPc.candidate, remark_same]
    exact fun _ => operate_eq_some
  case shrinking =>
    simp only [prepareCapacityStep, ensures_bind, ensures_goes, resizesAfter, Frame.resizes,
      PrepareCapacityPc.candidate, remark_same]
    exact fun _ => resizeSlots_eq_some
  case' start => cases hinfo : c.registry.getInfoResult name
  case' reclaim => cases hchoice : input.choice
  case' reclaimed _ _ observed outcome => rcases outcome with _ | (_ | _) <;> cases observed
  case' shrink => cases hchoice : input.choice
  case' shrunk _ _ outcome => cases outcome
  case' evict => cases hchoice : input.choice
  case' evicted => cases result
  all_goals simp +contextual only [*, prepareCapacityStep, capacityVerdict, ensures_returns,
    ensures_goes, ensures_ite, ensures_none, ensures_gate, resizesAfter,
    Frame.resizes, PrepareCapacityPc.candidate, Frame.callUnload, remark_same, remark_enter,
    remark_leave, Untouched, books, holdKey, noteDecision, memoryChanged, resize, unresize, advanceGeneration,
    le_refl, Nat.le_succ, InstanceChange.same, implies_true, and_self]

theorem idle_of_chooses {eligible : String → Backend → Bool} {candidate : String}
    (hidle : ∀ n backend, eligible n backend = true → c.hasActiveRequests n = false)
    (h : c.chooses eligible (some candidate) = true) : c.hasActiveRequests candidate = false := by
  obtain ⟨backend, -, heligible⟩ := (Option.any_eq_true _ _).1 h
  exact hidle candidate backend heligible

theorem idle_of_reclaimable {attempts : List String} {n : String} {backend : Backend}
    (h : c.reclaimable name attempts n backend = true) : c.hasActiveRequests n = false := by
  simp only [reclaimable, Bool.and_eq_true, Bool.not_eq_true'] at h
  exact h.1.1.2

theorem idle_of_shrinkable {n : String} {backend : Backend}
    (h : c.shrinkable name n backend = true) : c.hasActiveRequests n = false := by
  simp only [shrinkable, Bool.and_eq_true, Bool.not_eq_true'] at h
  exact h.1.1.1.1.2

/-- A model is marked only when it has no requests. -/
theorem prepareCapacityStep_quiesces {force : Bool} {required : ℤ} {pc : PrepareCapacityPc}
    {n : String} :
    Ensures (c.prepareCapacityStep input name control force required result pc) fun _ move =>
      quiescesAfter move = some n → pc.candidate = some n ∨ c.hasActiveRequests n = false := by
  cases pc
  case reclaim attempts =>
    cases hchoice : input.choice with
    | none =>
        simp only [prepareCapacityStep, hchoice, ensures_returns, ensures_goes, ensures_ite,
          ensures_none, quiescesAfter, Frame.quiesces, PrepareCapacityPc.candidate, reduceCtorEq,
          false_implies, implies_true, and_self]
    | some candidate =>
        simp only [prepareCapacityStep, hchoice, ensures_returns, ensures_goes, ensures_ite,
          ensures_none, quiescesAfter, Frame.quiesces, PrepareCapacityPc.candidate, reduceCtorEq,
          Option.some.injEq, false_implies, implies_true, and_self, and_true, true_and, false_or]
        intro _ _ hchooses hn
        exact hn ▸ idle_of_chooses (fun _ _ => idle_of_reclaimable) hchooses
  case shrink =>
    cases hchoice : input.choice with
    | none =>
        simp only [prepareCapacityStep, hchoice, ensures_returns, ensures_goes, ensures_ite,
          ensures_none, quiescesAfter, Frame.quiesces, PrepareCapacityPc.candidate, reduceCtorEq,
          false_implies, implies_true, and_self]
    | some candidate =>
        simp only [prepareCapacityStep, hchoice, ensures_returns, ensures_goes, ensures_ite,
          ensures_none, quiescesAfter, Frame.quiesces, PrepareCapacityPc.candidate, reduceCtorEq,
          Option.some.injEq, false_implies, implies_true, and_true, true_and, false_or]
        intro _ _ _ hchooses hn
        exact hn ▸ idle_of_chooses (fun _ _ => idle_of_shrinkable) hchooses
  case' start => cases hinfo : c.registry.getInfoResult name
  case' reclaimed _ _ observed outcome => rcases outcome with _ | (_ | _) <;> cases observed
  case' shrunk _ _ outcome => cases outcome
  case' evict => cases hchoice : input.choice
  case' evicted => cases result
  all_goals simp +contextual only [*, prepareCapacityStep, capacityVerdict, ensures_returns,
    ensures_goes, ensures_ite, ensures_bind, ensures_none, ensures_gate, quiescesAfter,
    Frame.quiesces, PrepareCapacityPc.candidate, Frame.callUnload, reduceCtorEq,
    Option.some.injEq, true_or, false_implies, implies_true, and_self]

theorem swapStep_changes {pc : SwapPc} :
    Ensures (c.swapStep canLock input name control held result pc) fun c' _ =>
      c.Untouched c' ∧ c'.activeRequestsByModel = c.activeRequestsByModel ∧
        c'.drainingModels = c.drainingModels ∧ c'.resizingModels = c.resizingModels ∧
        c'.instances = c.instances := by
  cases pc
  case' start => cases hinfo : c.registry.getInfoResult name
  case' plan => cases hinfo : c.registry.entries.lookup name
  case' unbudgeted => cases hcurrent : c.currentLoaded
  case' unbudgetedUnloaded => cases result
  case' unbudgetedLoaded current => cases result <;> cases current
  case' unbudgetedRestored => cases result
  case' prepared => cases result
  case' loaded => cases result
  case' retryPrepared => cases result
  case' retryLoaded => cases result
  case' restore snapshot _ _ => rcases hbefore : snapshot.before with _ | ⟨⟨_, _⟩, _⟩
  case' restored primary _ =>
    cases hprimary : primary.filter fun primary => (c.residentBackend primary).isSome
  all_goals simp +contextual only [*, swapStep, ensures_returns, ensures_goes, ensures_calls,
    ensures_ite, ensures_none, ensures_gate, Untouched, books, holdKey, noteDecision, advanceGeneration, selectRestored,
    le_refl, Nat.le_succ, implies_true, and_self]

theorem swapCancellableStep_changes {pc : SwapCancellablePc} :
    Ensures (c.swapCancellableStep name control result pc) fun c' _ =>
      c.Untouched c' ∧ c'.activeRequestsByModel = c.activeRequestsByModel ∧
        c'.drainingModels = c.drainingModels ∧ c'.resizingModels = c.resizingModels ∧
        c'.instances = c.instances := by
  cases pc
  case' start => cases hinfo : c.registry.getInfoResult name
  all_goals simp +contextual only [*, swapCancellableStep, ensures_returns, ensures_goes,
    ensures_calls, ensures_ite, Untouched, books, holdKey, resetSwapCancel, setSwapInProgress,
    le_refl, implies_true, and_self]

theorem prepareRequestStep_changes {demand : RequestDemand} {pc : PrepareRequestPc} :
    Ensures (c.prepareRequestStep canLock input name demand control held pc) fun c' move =>
      c.Untouched c' ∧ c'.activeRequestsByModel = c.activeRequestsByModel ∧
        c'.drainingModels = c.drainingModels ∧
        c'.resizingModels = remark (Frame.prepareRequest name demand control held pc).resizes
          (resizesAfter move) c.resizingModels ∧
        InstanceChange c.instances c'.instances := by
  cases pc
  case ensuring =>
    simp only [prepareRequestStep, ensures_bind, ensures_goes, resizesAfter, Frame.resizes,
      remark_same]
    exact fun _ => operate_eq_some
  case' ensured result =>
    have hunresize : c.Untouched (c.unresize name) := unresize_fields.1
    have hadvance : (c.unresize name).Untouched ((c.unresize name).advanceWithHold name) :=
      advanceWithHold_fields.1
    have huntouched := hunresize.trans hadvance
    cases result
  all_goals simp only [*, prepareRequestStep, ensures_returns, ensures_goes, ensures_ite,
    ensures_none, resizesAfter, Frame.resizes, remark_same, remark_enter, remark_leave,
    Untouched.refl, advanceWithHold_fields, resize_fields, unresize_fields, InstanceChange.same,
    implies_true, and_self]

end Steps

end InferDeck.Model
