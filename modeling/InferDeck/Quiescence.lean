import InferDeck.LifecycleInvariant

/-!
# What the calls leave behind

A call puts its request into the queue, marks models, locks, and says that a swap is going on. It
takes all of this back before it returns: what the coordinator holds belongs at any time to the
calls that have not returned.
-/

namespace InferDeck.Threads

open Function

/-- Each of the things belongs to one thread. -/
structure OwnedBy {κ : Type*} (things : κ → Prop) (owner : ℕ → Option κ) : Prop where
  owned : ∀ k, things k ↔ ∃ tid, owner tid = some k
  unique : ∀ tid tid' k, owner tid = some k → owner tid' = some k → tid = tid'

variable {κ : Type*} {things things' : κ → Prop} {owner : ℕ → Option κ} {tid : ℕ}
  {old new : Option κ}

/-- A thread gives back what it had and takes what nobody has. -/
theorem OwnedBy.exchange (h : OwnedBy things owner) (hold : owner tid = old)
    (hthings : ∀ k, things' k ↔ (things k ∧ old ≠ some k) ∨ new = some k)
    (hfresh : ∀ k, new = some k → old = some k ∨ ¬things k) :
    OwnedBy things' (update owner tid new) := by
  have hothers : ∀ t k, t ≠ tid → owner t = some k → things k ∧ old ≠ some k := by
    intro t k ht howner
    refine ⟨(h.owned k).2 ⟨t, howner⟩, fun hk => ht ?_⟩
    exact h.unique t tid k howner (hold.trans hk)
  have hnew : ∀ t k, t ≠ tid → owner t = some k → new ≠ some k := by
    intro t k ht howner hk
    obtain ⟨hthing, hne⟩ := hothers t k ht howner
    exact (hfresh k hk).elim hne fun hnot => hnot hthing
  constructor
  · intro k
    rw [hthings]
    constructor
    · rintro (⟨hthing, hne⟩ | hk)
      · obtain ⟨t, ht⟩ := (h.owned k).1 hthing
        refine ⟨t, ?_⟩
        rwa [update_of_ne]
        rintro rfl
        exact hne (hold.symm.trans ht)
      · exact ⟨tid, by rw [update_self, hk]⟩
    · rintro ⟨t, ht⟩
      by_cases htid : t = tid
      · rw [htid, update_self] at ht
        exact .inr ht
      · rw [update_of_ne htid] at ht
        exact .inl (hothers t k htid ht)
  · intro t t' k ht ht'
    by_cases htid : t = tid <;> by_cases htid' : t' = tid
    · exact htid.trans htid'.symm
    · rw [htid, update_self] at ht
      rw [update_of_ne htid'] at ht'
      exact absurd ht (hnew t' k htid' ht')
    · rw [htid', update_self] at ht'
      rw [update_of_ne htid] at ht
      exact absurd ht' (hnew t k htid ht)
    · rw [update_of_ne htid] at ht
      rw [update_of_ne htid'] at ht'
      exact h.unique t t' k ht ht'

end InferDeck.Threads

namespace InferDeck.Model

open Function InferDeck.Execution InferDeck.Foundation InferDeck.Threads

def AcquirePc.waiter : AcquirePc → Option ℕ
  | .start => none
  | .loop id => some id
  | .demanding id => some id
  | .capacityPrepared id _ => some id
  | .prepared id _ => some id

namespace Frame

def isAcquire : Frame → Bool
  | .acquire _ _ _ _ _ => true
  | _ => false

/-- The id and the model of the frame's request in the queue. -/
def waiting : Frame → Option (ℕ × String)
  | .acquire name _ _ pc _ => pc.waiter.map fun id => (id, name)
  | _ => none

def swaps : Frame → Bool
  | .swapCancellable _ _ .begun _ => true
  | .swapCancellable _ _ .swapped _ => true
  | _ => false

/-- The frame is neither in the queue nor in an announced swap. -/
def Plain (frame : Frame) : Prop := frame.isAcquire = false ∧ frame.swaps = false

section Plain

variable {name : String} {control : Control} {held : Option LifecycleLock} {result : Result Unit}

@[simp] theorem plain_unload {pc : UnloadPc} : (Frame.unload name control held pc).Plain :=
  ⟨rfl, rfl⟩

@[simp] theorem plain_load {pc : LoadPc} : (Frame.load name control held pc result).Plain :=
  ⟨rfl, rfl⟩

@[simp] theorem plain_prepareCapacity {force : Bool} {required : ℤ} {pc : PrepareCapacityPc} :
    (Frame.prepareCapacity name control force required pc result).Plain := ⟨rfl, rfl⟩

@[simp] theorem plain_swap {pc : SwapPc} : (Frame.swap name control held pc result).Plain :=
  ⟨rfl, rfl⟩

@[simp] theorem plain_prepareRequest {demand : RequestDemand} {pc : PrepareRequestPc} :
    (Frame.prepareRequest name demand control held pc).Plain := ⟨rfl, rfl⟩

@[simp] theorem plain_callUnload : (Frame.callUnload name control).Plain := ⟨rfl, rfl⟩

@[simp] theorem plain_callLoad : (Frame.callLoad name control).Plain := ⟨rfl, rfl⟩

@[simp] theorem plain_callPrepareCapacity {force : Bool} :
    (Frame.callPrepareCapacity name control force).Plain := ⟨rfl, rfl⟩

@[simp] theorem plain_callSwap : (Frame.callSwap name control).Plain := ⟨rfl, rfl⟩

@[simp] theorem plain_callSwapCancellable {deadline : Deadline} :
    (Frame.callSwapCancellable name deadline).Plain := ⟨rfl, rfl⟩

@[simp] theorem plain_callPrepareRequest {demand : RequestDemand} :
    (Frame.callPrepareRequest name demand control).Plain := ⟨rfl, rfl⟩

@[simp] theorem swaps_acquire {opts : AcquireSlotOptions} {deadline : TimePoint} {pc : AcquirePc} :
    (Frame.acquire name opts deadline pc result).swaps = false := rfl

end Plain

end Frame

def MoveAll (P : Frame → Prop) : CoordinatorMove → Prop
  | .goto next => P next
  | .call next callee => P next ∧ P callee
  | .ret _ => True

@[simp] theorem moveAll_goto {P : Frame → Prop} {next : Frame} : MoveAll P (.goto next) ↔ P next :=
  Iff.rfl

@[simp] theorem moveAll_call {P : Frame → Prop} {next callee : Frame} :
    MoveAll P (.call next callee) ↔ P next ∧ P callee := Iff.rfl

@[simp] theorem moveAll_ret {P : Frame → Prop} {result : Result Unit} : MoveAll P (.ret result) :=
  trivial

namespace BackendCoordinator

/-- What only requests and announced swaps change. -/
def queueBook (c : BackendCoordinator) : WaiterQueue × ℕ × Bool :=
  (c.waiters, c.maxQueueSize, c.swapInProgress)

section QueueBook

variable {c : BackendCoordinator} {name : String}

@[simp] theorem drain_queueBook : (c.drain name).queueBook = c.queueBook := rfl

@[simp] theorem undrain_queueBook : (c.undrain name).queueBook = c.queueBook := rfl

@[simp] theorem resize_queueBook : (c.resize name).queueBook = c.queueBook := rfl

@[simp] theorem unresize_queueBook : (c.unresize name).queueBook = c.queueBook := rfl

@[simp] theorem noteDecision_queueBook {decision : String} :
    (c.noteDecision decision).queueBook = c.queueBook := rfl

@[simp] theorem memoryChanged_queueBook : c.memoryChanged.queueBook = c.queueBook := rfl

@[simp] theorem advanceGeneration_queueBook : c.advanceGeneration.queueBook = c.queueBook := rfl

@[simp] theorem setInstance_queueBook {backend : Backend} :
    (c.setInstance name backend).queueBook = c.queueBook := rfl

@[simp] theorem restoreInstance_queueBook {backend : Backend} {wasPrimary : Bool} :
    (c.restoreInstance name backend wasPrimary).queueBook = c.queueBook := rfl

@[simp] theorem selectRestored_queueBook {primary : String} :
    (c.selectRestored primary name).queueBook = c.queueBook := rfl

@[simp] theorem takeInstance_queueBook : (c.takeInstance name).queueBook = c.queueBook := by
  unfold takeInstance
  split_ifs <;> rfl

@[simp] theorem finishUnload_queueBook {releasedVram : ℤ} :
    (c.finishUnload name releasedVram).queueBook = c.queueBook := by
  unfold finishUnload
  split_ifs <;> rfl

@[simp] theorem selectIfPrimary_queueBook :
    (c.selectIfPrimary name).queueBook = c.queueBook := by
  unfold selectIfPrimary
  split_ifs <;> rfl

@[simp] theorem memoryChangedBy_queueBook :
    (c.memoryChangedBy name).queueBook = c.queueBook := by
  unfold memoryChangedBy
  split_ifs <;> rfl

@[simp] theorem advanceWithHold_queueBook :
    (c.advanceWithHold name).queueBook = c.queueBook := by
  unfold advanceWithHold
  split_ifs
  · split <;> rfl
  · rfl

end QueueBook

section Steps

variable {c : BackendCoordinator} {canLock : LifecycleLock → Bool} {input : Reading}
  {name : String} {control : Control} {held : Option LifecycleLock} {result : Result Unit}

theorem drainTurn_plain {drainDeadline : TimePoint} {first : Bool} :
    Ensures (c.drainTurn input name control held drainDeadline first) fun c' move =>
      c'.queueBook = c.queueBook ∧ MoveAll Frame.Plain move := by
  simp +contextual [drainTurn, ensures_returns, ensures_goes, ensures_ite]

theorem unloadStep_plain {pc : UnloadPc} :
    Ensures (c.unloadStep canLock input name control held pc) fun c' move =>
      c'.queueBook = c.queueBook ∧ MoveAll Frame.Plain move := by
  cases pc with
  | start => simp [unloadStep, ensures_returns, ensures_goes, ensures_ite]
  | locked drainDeadline => exact drainTurn_plain (c := c.drain name)
  | draining drainDeadline => exact drainTurn_plain
  | unloading taken wasPrimary releasedVram =>
      cases taken with
      | none => simp [unloadStep, ensures_returns]
      | some backend =>
          cases hdone : input.done
          all_goals simp [unloadStep, hdone, ensures_returns, ensures_ite]

theorem operate_plain {after : Option Backend} {c' : BackendCoordinator}
    (h : c.operate name after = some c') : c'.queueBook = c.queueBook := by
  unfold operate at h
  split at h
  next => cases h
  next => exact congrArg queueBook (Option.some.inj h).symm
  next =>
    split_ifs at h
    obtain rfl := Option.some.inj h
    rfl

theorem resizeSlots_plain {slots : ℤ} {c' : BackendCoordinator}
    (h : c.resizeSlots input name slots = some c') : c'.queueBook = c.queueBook :=
  operate_plain (Option.filter_eq_some_iff.1 h).1

theorem loadStep_plain {pc : LoadPc} :
    Ensures (c.loadStep canLock input name control held result pc) fun c' move =>
      c'.queueBook = c.queueBook ∧ MoveAll Frame.Plain move := by
  cases pc
  case load =>
    simp only [loadStep, ensures_bind, ensures_goes, moveAll_goto, Frame.plain_load, and_true]
    exact fun _ => operate_plain
  case resize slots =>
    cases hdone : input.done
    all_goals simp only [loadStep, hdone, ensures_bind, ensures_goes, ensures_returns, moveAll_goto,
      moveAll_ret, Frame.plain_load, and_true]
    all_goals exact fun _ => resizeSlots_plain
  case' start => cases hinfo : c.registry.getInfoResult name
  case' locked => cases hresident : c.residentBackend name
  case' recovered => cases result
  case' create recovery =>
    cases recovery <;> cases hinstance : c.instances.lookup name <;> cases hcreated : input.created
  case' loaded => cases result
  all_goals simp [*, loadStep, ensures_returns, ensures_goes, ensures_some, ensures_ite]

theorem prepareCapacityStep_plain {force : Bool} {required : ℤ} {pc : PrepareCapacityPc} :
    Ensures (c.prepareCapacityStep input name control force required result pc) fun c' move =>
      c'.queueBook = c.queueBook ∧ MoveAll Frame.Plain move := by
  cases pc
  case reclaiming =>
    simp only [prepareCapacityStep, ensures_bind, ensures_goes, moveAll_goto,
      Frame.plain_prepareCapacity, and_true]
    exact fun _ => operate_plain
  case shrinking =>
    simp only [prepareCapacityStep, ensures_bind, ensures_goes, moveAll_goto,
      Frame.plain_prepareCapacity, and_true]
    exact fun _ => resizeSlots_plain
  case' start => cases hinfo : c.registry.getInfoResult name
  case' reclaim => cases hchoice : input.choice
  case' reclaimed _ _ observed outcome => rcases outcome with _ | (_ | _) <;> cases observed
  case' shrink => cases hchoice : input.choice
  case' shrunk _ _ outcome => cases outcome
  case' evict => cases hchoice : input.choice
  case' evicted => cases result
  all_goals simp [*, prepareCapacityStep, capacityVerdict, ensures_returns, ensures_goes,
    ensures_ite, ensures_gate]

theorem swapStep_plain {pc : SwapPc} :
    Ensures (c.swapStep canLock input name control held result pc) fun c' move =>
      c'.queueBook = c.queueBook ∧ MoveAll Frame.Plain move := by
  cases pc
  case' start => cases hinfo : c.registry.getInfoResult name
  case' plan => cases hinfo : c.registry.entries.lookup name
  case' unbudgeted => cases hcurrent : c.currentLoaded
  case' unbudgetedUnloaded => cases result
  case' unbudgetedLoaded current => cases result <;> cases current
  case' unbudgetedRestored => cases result
  case' prepared => cases result
  case' loaded => cases result
  case' retryPrepared => cases result
  case' retryLoaded => cases result
  case' restore snapshot _ _ => rcases hbefore : snapshot.before with _ | ⟨⟨_, _⟩, _⟩
  case' restored primary _ =>
    cases hprimary : primary.filter fun primary => (c.residentBackend primary).isSome
  all_goals simp [*, swapStep, ensures_returns, ensures_goes, ensures_calls, ensures_ite,
    ensures_gate]

theorem prepareRequestStep_plain {demand : RequestDemand} {pc : PrepareRequestPc} :
    Ensures (c.prepareRequestStep canLock input name demand control held pc) fun c' move =>
      c'.queueBook = c.queueBook ∧ MoveAll Frame.Plain move := by
  cases pc
  case ensuring =>
    simp only [prepareRequestStep, ensures_bind, ensures_goes, moveAll_goto,
      Frame.plain_prepareRequest, and_true]
    exact fun _ => operate_plain
  case' ensured result => cases result
  all_goals simp [*, prepareRequestStep, ensures_returns, ensures_goes, ensures_ite]

def swapsAfter : CoordinatorMove → Bool
  | .goto next => next.swaps
  | .call next _ => next.swaps
  | .ret _ => false

/-- A swap is announced when it begins, and is over before the call returns. -/
theorem swapCancellableStep_swaps {pc : SwapCancellablePc} :
    Ensures (c.swapCancellableStep name control result pc) fun c' move =>
      MoveAll (fun frame => frame.isAcquire = false) move ∧
        (c'.swapInProgress = true → swapsAfter move = true ∨
          c.swapInProgress = true ∧ (Frame.swapCancellable name control pc result).swaps = false) ∧
        (∀ next callee, move = .call next callee → callee.swaps = false) ∧
        c'.waiters = c.waiters ∧ c'.maxQueueSize = c.maxQueueSize := by
  cases pc
  case' start => cases hinfo : c.registry.getInfoResult name
  all_goals simp [*, swapCancellableStep, ensures_returns, ensures_goes, ensures_calls, ensures_ite,
    resetSwapCancel, setSwapInProgress, swapsAfter, Frame.swaps, Frame.isAcquire, Frame.callLoad,
    Frame.callSwap]

end Steps

def Queued (c : BackendCoordinator) (entry : ℕ × String) : Prop :=
  ∃ waiter ∈ c.waiters.waiters, waiter.id = entry.1 ∧ waiter.model = entry.2

/-- What a step of a request does to the queue, where its thread has waited for `old` and now waits
for `new`. -/
structure QueueChange (c c' : BackendCoordinator) (old new : Option (ℕ × String)) : Prop where
  queued : ∀ entry, c'.Queued entry ↔ (c.Queued entry ∧ old ≠ some entry) ∨ new = some entry
  fresh : ∀ entry, new = some entry → old = some entry ∨ ¬c.Queued entry
  bounded : c'.waiters.waiters.length ≤ c'.maxQueueSize

/-- A step of a request announces no swap. -/
structure QueueStep (c c' : BackendCoordinator) (old new : Option (ℕ × String)) : Prop
    extends QueueChange c c' old new where
  swapping : c'.swapInProgress = c.swapInProgress

section Queue

variable {c c' : BackendCoordinator} {id : ℕ} {name : String} {entry : ℕ × String}

theorem Queued.model_eq (h : c.Queued (id, name)) {other : String} (h' : c.Queued (id, other)) :
    name = other := by
  obtain ⟨waiter, hwaiter, hid, rfl⟩ := h
  obtain ⟨waiter', hwaiter', hid', rfl⟩ := h'
  rw [c.waiters.eq_of_id_eq hwaiter hwaiter' (hid.trans hid'.symm)]

theorem queueBook_eq_iff : c'.queueBook = c.queueBook ↔
    c'.waiters = c.waiters ∧ c'.maxQueueSize = c.maxQueueSize ∧
      c'.swapInProgress = c.swapInProgress := by
  simp [queueBook]

theorem queued_congr (h : c'.queueBook = c.queueBook) : c'.Queued entry ↔ c.Queued entry := by
  rw [Queued, Queued, (queueBook_eq_iff.1 h).1]

theorem leaseSlot_queueBook {backend : Backend} {slot : ℕ} {demand : Option RequestDemand}
    {key : String} {priority : ℤ} {failure : Option Error} {now : TimePoint} {result : Result ℤ}
    (hlookup : c.instances.lookup name = some backend)
    (h : c.leaseSlot name backend slot demand key priority failure now = (result, c')) :
    c'.queueBook = c.queueBook := by
  rcases leaseSlot_eq hlookup h with ⟨_, -, rfl | ⟨busy, -, rfl⟩⟩ | ⟨lease, -, rfl, -⟩ <;> rfl

theorem releaseSlot_queueBook {leaseId : ℤ} {failure : Option Error} {now : TimePoint} :
    (c.releaseSlot name leaseId failure now).2.queueBook = c.queueBook := by
  unfold releaseSlot
  split
  · split_ifs <;> rfl
  next lease hlease =>
    split_ifs
    · rfl
    · split
      · rfl
      · cases failure with
        | some e => rfl
        | none =>
            dsimp only [Backend.releaseSlot]
            split_ifs <;> rfl

theorem TakesSlot.queueBook_eq (h : TakesSlot c c') : c'.queueBook = c.queueBook := by
  rcases h with rfl | ⟨_, _, _, _, _, _, _, _, _, hlookup, hlease⟩
  · rfl
  · exact leaseSlot_queueBook hlookup hlease

theorem perform_queueBook {now : TimePoint} {call : SessionCall} :
    (c.perform now call).queueBook = c.queueBook := by
  cases call with
  | reserve =>
      unfold perform reservePrioritySession
      dsimp only
      split_ifs <;> rfl
  | refresh =>
      unfold perform refreshPrioritySession
      dsimp only
      split
      · rfl
      · split_ifs <;> rfl
  | hold =>
      unfold perform holdPrioritySession
      dsimp only
      split
      · rfl
      · split_ifs <;> rfl
  | complete =>
      unfold perform completePrioritySessionHold
      dsimp only
      split
      · rfl
      · split_ifs <;> rfl
  | release =>
      unfold perform releasePrioritySession
      dsimp only
      split
      · rfl
      · split_ifs <;> rfl

variable (hbound : c.waiters.waiters.length ≤ c.maxQueueSize)

include hbound

/-- The request stays in the queue, and its fields may change. -/
theorem QueueStep.modify {f : SlotWaiter → SlotWaiter} (hqueued : c.Queued (id, name))
    (hmodel : ∀ waiter ∈ c.waiters.waiters, waiter.id = id → (f waiter).model = waiter.model) :
    QueueStep c (c.modifyWaiter id f) (some (id, name)) (some (id, name)) where
  queued entry := by
    have hsame : (c.modifyWaiter id f).Queued entry ↔ c.Queued entry := by
      constructor
      · rintro ⟨waiter, hwaiter, hid, hname⟩
        obtain ⟨before, hbefore, rfl⟩ := List.mem_map.1 hwaiter
        refine ⟨before, hbefore, ?_⟩
        split_ifs at hid hname with h
        · exact ⟨hid, (hmodel before hbefore h).symm.trans hname⟩
        · exact ⟨hid, hname⟩
      · rintro ⟨waiter, hwaiter, hid, hname⟩
        refine ⟨_, List.mem_map_of_mem hwaiter, ?_⟩
        split_ifs with h
        · exact ⟨hid, (hmodel waiter hwaiter h).trans hname⟩
        · exact ⟨hid, hname⟩
    rw [hsame]
    by_cases hentry : (id, name) = entry
    · simp [← hentry, hqueued]
    · simp [hentry]
  fresh entry h := .inl h
  bounded := by
    change (List.map _ _).length ≤ _
    rw [List.length_map]
    exact hbound
  swapping := rfl

theorem QueueStep.stay (hqueued : c.Queued (id, name)) (h : c'.queueBook = c.queueBook) :
    QueueStep c c' (some (id, name)) (some (id, name)) where
  queued entry := by
    rw [queued_congr h]
    by_cases hentry : (id, name) = entry
    · simp [← hentry, hqueued]
    · simp [hentry]
  fresh entry h := .inl h
  bounded := by
    rw [(queueBook_eq_iff.1 h).1, (queueBook_eq_iff.1 h).2.1]
    exact hbound
  swapping := (queueBook_eq_iff.1 h).2.2

theorem QueueStep.leave (hqueued : c.Queued (id, name)) (h : c'.queueBook = c.queueBook) :
    QueueStep c (c'.eraseWaiterLocked id) (some (id, name)) none := by
  obtain ⟨waiter, hwaiter, hid, hname⟩ := (queued_congr h).2 hqueued
  have hfind : c'.waiters.find id = some waiter :=
    c'.waiters.find_eq_some_iff.2 ⟨hwaiter, hid⟩
  have herase : (c'.eraseWaiterLocked id).waiters = c'.waiters.erase id ∧
      (c'.eraseWaiterLocked id).maxQueueSize = c'.maxQueueSize ∧
      (c'.eraseWaiterLocked id).swapInProgress = c'.swapInProgress := by
    unfold eraseWaiterLocked
    rw [hfind]
    exact ⟨rfl, rfl, rfl⟩
  obtain ⟨hwaiters, hsize, hswapping⟩ := herase
  obtain ⟨hsameWaiters, hsameSize, hsameSwapping⟩ := queueBook_eq_iff.1 h
  refine ⟨⟨fun entry => ?_, fun _ h => (by cases h), ?_⟩, hswapping.trans hsameSwapping⟩
  · have hkeeps : (c'.eraseWaiterLocked id).Queued entry ↔ c'.Queued entry ∧ entry.1 ≠ id := by
      rw [Queued, hwaiters]
      constructor
      · rintro ⟨other, hother, hother', hmodel⟩
        obtain ⟨hmem, hne⟩ := List.mem_filter.1 hother
        exact ⟨⟨other, hmem, hother', hmodel⟩, hother' ▸ by simpa using hne⟩
      · rintro ⟨⟨other, hother, hother', hmodel⟩, hne⟩
        exact ⟨other, List.mem_filter.2 ⟨hother, by simpa [hother'] using hne⟩, hother', hmodel⟩
    rw [hkeeps, queued_congr h]
    obtain ⟨entryId, entryName⟩ := entry
    simp only [ne_eq, Option.some.injEq, Prod.mk.injEq, not_and, reduceCtorEq, or_false]
    refine and_congr_right fun hentry => ⟨fun hne heq => absurd heq.symm hne, fun hne heq => ?_⟩
    exact hne heq.symm (hqueued.model_eq (heq ▸ hentry))
  · rw [hwaiters, hsize, hsameSize]
    refine (List.length_filter_le _ _).trans ?_
    rw [hsameWaiters]
    exact hbound

omit hbound in
theorem QueueStep.enter {opts : AcquireSlotOptions} {now : TimePoint} {c' : BackendCoordinator}
    (h : c.enqueue name opts now = (.ok id, c')) : QueueStep c c' none (some (id, name)) := by
  unfold enqueue at h
  split_ifs at h with hfull
  · cases (Prod.mk.inj h).1
  obtain ⟨hid, rfl⟩ := Prod.mk.inj h
  obtain rfl := Except.ok.inj hid
  refine ⟨⟨fun entry => ?_, fun entry hentry => .inr ?_, ?_⟩, rfl⟩
  · simp only [ne_eq, reduceCtorEq, not_false_eq_true, and_true, Option.some.injEq]
    constructor
    · rintro ⟨waiter, hwaiter, hid, hname⟩
      rcases List.mem_append.1 hwaiter with hwaiter | hwaiter
      · exact .inl ⟨waiter, hwaiter, hid, hname⟩
      · obtain rfl := List.mem_singleton.1 hwaiter
        exact .inr (Prod.ext hid hname)
    · rintro (⟨waiter, hwaiter, hid, hname⟩ | rfl)
      · exact ⟨waiter, List.mem_append_left _ hwaiter, hid, hname⟩
      · exact ⟨_, List.mem_append_right _ (List.mem_singleton_self _), rfl, rfl⟩
  · obtain rfl := Option.some.inj hentry
    rintro ⟨waiter, hwaiter, hid, -⟩
    exact (c.waiters.below waiter hwaiter).ne hid
  · change (c.waiters.waiters ++ [_]).length ≤ c.maxQueueSize
    rw [List.length_append, List.length_singleton]
    omega

end Queue

section Acquire

variable {c : BackendCoordinator} {input : Reading} {name : String} {opts : AcquireSlotOptions}
  {deadline : TimePoint} {result : Result Unit}

def waitingAfter : CoordinatorMove → Option (ℕ × String)
  | .goto next => next.waiting
  | .call next _ => next.waiting
  | .ret _ => none

/-- A call of a request is about no other request, and announces no swap itself. -/
def CallsPlain : CoordinatorMove → Prop
  | .goto next => next.swaps = false
  | .call next callee => next.swaps = false ∧ callee.Plain
  | .ret _ => True

theorem loadTurn_ne {waiter after : SlotWaiter} {now : TimePoint} :
    c.loadTurn opts waiter now ≠ .prepareCapacity after := by
  intro h
  unfold loadTurn at h
  split_ifs at h

theorem slotTurn_ne {waiter after : SlotWaiter} {now : TimePoint} :
    c.slotTurn opts waiter now ≠ .prepareCapacity after := by
  intro h
  unfold slotTurn at h
  split_ifs at h

theorem acquireTurn_prepareCapacity {waiter after : SlotWaiter} {now : TimePoint}
    (h : c.acquireTurn opts waiter now = .prepareCapacity after) : after.model = waiter.model := by
  unfold acquireTurn at h
  cases hresident : c.residentBackend waiter.model with
  | none =>
      simp only [hresident] at h
      split_ifs at h
      exact absurd h loadTurn_ne
  | some backend =>
      simp only [hresident] at h
      split_ifs at h
      · obtain rfl := AcquireTurn.prepareCapacity.inj h
        rfl
      · exact absurd h loadTurn_ne
      · exact absurd h slotTurn_ne

theorem acquireLoop_queue {id : ℕ} (hqueued : c.Queued (id, name))
    (hbound : c.waiters.waiters.length ≤ c.maxQueueSize) :
    Ensures (c.acquireLoop input name opts deadline id) fun c' move =>
      QueueStep c c' (some (id, name)) (waitingAfter move) ∧ CallsPlain move := by
  have hleave := QueueStep.leave hbound hqueued rfl
  have hstay : ∀ f : SlotWaiter → SlotWaiter, (∀ waiter, (f waiter).model = waiter.model) →
      QueueStep c (c.modifyWaiter id f) (some (id, name)) (some (id, name)) :=
    fun f hf => .modify hbound hqueued fun waiter _ _ => hf waiter
  unfold acquireLoop
  cases hfind : c.waiters.find id
  case none => simp [ensures_ite, leaves, ensures_returns, waitingAfter, CallsPlain, hleave]
  case some waiter =>
    cases hturn : c.acquireTurn opts waiter input.now
    case takeSlot =>
      simp only [*, leaves, ensures_returns, ensures_ite, implies_true, true_and, waitingAfter,
        CallsPlain, and_true]
      intro _ _ c' move hmove
      obtain ⟨backend, slot, taken, result, leased, hready, -, hlease, hc'⟩ :=
        takeSlotTurn_eq_some hmove
      have hsame : leased.queueBook = c.queueBook :=
        leaseSlot_queueBook (readyBackend_eq_some hready).1 hlease
      rcases hc' with ⟨rfl, rfl⟩ | ⟨rfl, rfl, -⟩
      · exact ⟨.leave hbound hqueued hsame, trivial⟩
      · exact ⟨.stay hbound hqueued hsame, rfl⟩
    case prepareCapacity after =>
      have hmodify : QueueStep c (c.modifyWaiter id fun _ => after) (some (id, name))
          (some (id, name)) := by
        refine .modify hbound hqueued fun other hother hid => ?_
        obtain ⟨hwaiter, hid'⟩ := c.waiters.find_eq_some_iff.1 hfind
        rw [acquireTurn_prepareCapacity hturn, c.waiters.eq_of_id_eq hother hwaiter
          (hid.trans hid'.symm)]
      simp only [*, leaves, ensures_returns, ensures_calls, ensures_ite, implies_true, waitingAfter,
        CallsPlain, Frame.waiting, AcquirePc.waiter, Option.map_some, Frame.swaps_acquire,
        Frame.plain_callPrepareRequest, and_self]
    case load =>
      have hmodify := hstay beginLoad fun _ => rfl
      simp only [*, leaves, ensures_returns, ensures_calls, ensures_ite, implies_true, waitingAfter,
        CallsPlain, Frame.waiting, AcquirePc.waiter, Option.map_some, Frame.swaps_acquire,
        Frame.plain_callSwapCancellable, and_self]
    all_goals
      simp only [*, leaves, ensures_returns, ensures_goes, ensures_ite, ensures_none, implies_true,
        waitingAfter, CallsPlain, Frame.waiting, AcquirePc.waiter, Option.map_some,
        Frame.swaps_acquire, and_self]

theorem afterCallback_queue {id generationBefore : ℕ} {grant : SlotWaiter → SlotWaiter}
    (hqueued : c.Queued (id, name)) (hbound : c.waiters.waiters.length ≤ c.maxQueueSize)
    (hgrant : ∀ waiter, (grant waiter).model = waiter.model) :
    Ensures (c.afterCallback id generationBefore grant
        (.acquire name opts deadline (.loop id) (.ok ())) result) fun c' move =>
      QueueStep c c' (some (id, name)) (waitingAfter move) ∧ CallsPlain move := by
  cases result with
  | error e =>
      simp only [afterCallback, leaves, ensures_ite, ensures_goes, ensures_returns]
      refine ⟨fun _ => ⟨.modify hbound hqueued fun _ _ _ => rfl, rfl⟩, fun _ => ⟨?_, trivial⟩⟩
      exact .leave hbound hqueued rfl
  | ok _ =>
      simp only [afterCallback, ensures_goes]
      exact ⟨.modify hbound hqueued fun waiter _ _ => hgrant waiter, rfl⟩

theorem acquireStep_queue {pc : AcquirePc}
    (hqueued : ∀ id, pc.waiter = some id → c.Queued (id, name))
    (hbound : c.waiters.waiters.length ≤ c.maxQueueSize) :
    Ensures (c.acquireStep input name opts deadline result pc) fun c' move =>
      QueueStep c c' (Frame.acquire name opts deadline pc result).waiting (waitingAfter move) ∧
        CallsPlain move := by
  cases pc with
  | start =>
      rcases henqueue : c.enqueue name opts input.now with ⟨e | id, c'⟩
      · have hsame : c' = c := by
          unfold enqueue at henqueue
          split_ifs at henqueue
          · exact (Prod.mk.inj henqueue).2.symm
          · cases (Prod.mk.inj henqueue).1
        subst hsame
        simp only [acquireStep, henqueue, ensures_returns]
        refine ⟨⟨⟨fun entry => ?_, fun _ h => (by cases h), hbound⟩, rfl⟩, trivial⟩
        simp [Frame.waiting, AcquirePc.waiter, waitingAfter]
      · simp only [acquireStep, henqueue, ensures_goes]
        exact ⟨.enter henqueue, rfl⟩
  | loop id => exact acquireLoop_queue (hqueued id rfl) hbound
  | demanding id =>
      have hleave := QueueStep.leave hbound (hqueued id rfl) rfl
      cases hdemand : input.demand with
      | error e =>
          simp only [acquireStep, hdemand, leaves, ensures_returns]
          exact ⟨hleave, trivial⟩
      | ok demand =>
          simp only [acquireStep, hdemand, ensures_goes]
          exact ⟨.modify hbound (hqueued id rfl) fun _ _ _ => rfl, rfl⟩
  | capacityPrepared id generationBefore =>
      exact afterCallback_queue (hqueued id rfl) hbound fun _ => rfl
  | prepared id generationBefore =>
      exact afterCallback_queue (hqueued id rfl) hbound fun _ => rfl

end Acquire

/-- A step of a call that is neither a request nor an announced swap. -/
theorem QueueChange.of_queueBook {c c' : BackendCoordinator}
    (hbound : c.waiters.waiters.length ≤ c.maxQueueSize) (h : c'.queueBook = c.queueBook) :
    QueueChange c c' none none where
  queued entry := by simp [queued_congr h]
  fresh _ h := by cases h
  bounded := by
    rw [(queueBook_eq_iff.1 h).1, (queueBook_eq_iff.1 h).2.1]
    exact hbound

end BackendCoordinator

open BackendCoordinator

/-- The call stays what it is, calls no request, and takes back a swap that it has announced. -/
structure Frame.Keeps (frame : Frame) (c c' : BackendCoordinator) (move : CoordinatorMove) :
    Prop where
  next : ∀ next callee, move = .goto next ∨ move = .call next callee → next.isAcquire = true →
    frame.isAcquire = true
  callee : ∀ next callee, move = .call next callee → callee.Plain
  swapping : c'.swapInProgress = true →
    swapsAfter move = true ∨ c.swapInProgress = true ∧ frame.swaps = false

section FrameStep

variable {c : BackendCoordinator} {canLock : LifecycleLock → Bool} {input : Reading}
  {frame : Frame}

theorem Frame.waiting_of_notAcquire (h : frame.isAcquire = false) : frame.waiting = none := by
  cases frame
  case acquire => cases h
  all_goals rfl

theorem waitingAfter_of_notAcquire {move : CoordinatorMove}
    (h : MoveAll (fun next => next.isAcquire = false) move) : waitingAfter move = none := by
  cases move with
  | goto next => exact next.waiting_of_notAcquire h
  | call next callee => exact next.waiting_of_notAcquire h.1
  | ret result => rfl

theorem MoveAll.mono {P Q : Frame → Prop} (hPQ : ∀ frame, P frame → Q frame)
    {move : CoordinatorMove} (h : MoveAll P move) : MoveAll Q move := by
  cases move with
  | goto next => exact hPQ next h
  | call next callee => exact ⟨hPQ next h.1, hPQ callee h.2⟩
  | ret result => trivial

theorem Frame.Keeps.of_plain {c' : BackendCoordinator} {move : CoordinatorMove}
    (hswaps : frame.swaps = false) (h : c'.queueBook = c.queueBook)
    (hmove : MoveAll Frame.Plain move) : frame.Keeps c c' move where
  next next callee hmoved hacquire := by
    have hplain : next.Plain := by
      rcases hmoved with rfl | rfl
      · exact hmove
      · exact hmove.1
    rw [hplain.1] at hacquire
    cases hacquire
  callee next callee hcall := by
    subst hcall
    exact hmove.2
  swapping hflag := .inr ⟨(queueBook_eq_iff.1 h).2.2 ▸ hflag, hswaps⟩

/-- What a step of a thread's top frame does to the queue and to the announced swaps. -/
theorem frameStep_queue (hqueued : ∀ entry, frame.waiting = some entry → c.Queued entry)
    (hbound : c.waiters.waiters.length ≤ c.maxQueueSize) :
    Ensures (frameStep canLock input c frame) fun c' move =>
      QueueChange c c' frame.waiting (waitingAfter move) ∧ frame.Keeps c c' move := by
  have hplain : frame.swaps = false → frame.waiting = none → ∀ c' move,
      c'.queueBook = c.queueBook ∧ MoveAll Frame.Plain move →
      QueueChange c c' frame.waiting (waitingAfter move) ∧ frame.Keeps c c' move := by
    rintro hswaps hwaiting c' move ⟨hbook, hmove⟩
    rw [hwaiting, waitingAfter_of_notAcquire (hmove.mono fun _ h => h.1)]
    exact ⟨.of_queueBook hbound hbook, .of_plain hswaps hbook hmove⟩
  cases frame with
  | unload => exact unloadStep_plain.mono (hplain rfl rfl)
  | load => exact loadStep_plain.mono (hplain rfl rfl)
  | prepareCapacity => exact prepareCapacityStep_plain.mono (hplain rfl rfl)
  | swap => exact swapStep_plain.mono (hplain rfl rfl)
  | prepareRequest => exact prepareRequestStep_plain.mono (hplain rfl rfl)
  | swapCancellable name control pc result =>
      refine swapCancellableStep_swaps.mono ?_
      rintro c' move ⟨hplain, hflag, hcallee, hwaiters, hsize⟩
      have hchange : QueueChange c c' none none := by
        refine ⟨fun entry => ?_, fun _ h => (by cases h), ?_⟩
        · simp [Queued, hwaiters]
        · rw [hwaiters, hsize]
          exact hbound
      refine ⟨?_, fun next callee hmoved hacquire => ?_, fun next callee hcall => ?_, hflag⟩
      · rw [waitingAfter_of_notAcquire hplain]
        exact hchange
      · have hnot : next.isAcquire = false := by
          rcases hmoved with rfl | rfl
          · exact hplain
          · exact hplain.1
        rw [hnot] at hacquire
        cases hacquire
      · subst hcall
        exact ⟨hplain.2, hcallee next callee rfl⟩
  | acquire name opts deadline pc result =>
      refine (acquireStep_queue (fun id hid => hqueued _ ?_) hbound).mono ?_
      · rw [Frame.waiting, hid]
        rfl
      · rintro c' move ⟨hstep, hmove⟩
        refine ⟨hstep.toQueueChange, fun _ _ _ _ => rfl, ?_, fun hflag => .inr ⟨?_, rfl⟩⟩
        · rintro next callee rfl
          exact hmove.2
        · rwa [hstep.swapping] at hflag

end FrameStep

/-- What the thread's request waits for: no call makes a request. -/
def waits (stack : List Frame) : Option (ℕ × String) := stack.findSome? Frame.waiting

section Stacks

variable {frame : Frame} {rest : List Frame} {move : CoordinatorMove} {c c' : BackendCoordinator}

def Frame.Outermost (frame : Frame) (rest : List Frame) : Prop :=
  frame.isAcquire = true → rest = []

theorem Frame.resume_queue (frame : Frame) (result : Result Unit) :
    (frame.resume result).isAcquire = frame.isAcquire ∧
      (frame.resume result).waiting = frame.waiting ∧
      (frame.resume result).swaps = frame.swaps := by
  cases frame with
  | swapCancellable name control pc => cases pc <;> exact ⟨rfl, rfl, rfl⟩
  | _ => exact ⟨rfl, rfl, rfl⟩

theorem Frame.Keeps.settles (h : frame.Keeps c c' move) (houter : frame.Outermost rest) :
    System.Settles Frame.Outermost rest move := by
  cases move with
  | goto next => exact fun hnext => houter (h.next next next (.inl rfl) hnext)
  | call next callee =>
      refine ⟨fun hnext => houter (h.next next callee (.inr rfl) hnext), fun hcallee => ?_⟩
      rw [(h.callee next callee rfl).1] at hcallee
      cases hcallee
  | ret result => trivial

theorem waits_cons (frame : Frame) (rest : List Frame) :
    waits (frame :: rest) = frame.waiting.or (waits rest) := by
  unfold waits
  rw [List.findSome?_cons]
  cases frame.waiting <;> rfl

/-- The thread waits for what its top frame waits for, or else for what it has waited for. -/
theorem waits_push (h : frame.Keeps c c' move) :
    waits (calls.push rest move) = (waitingAfter move).or (waits rest) := by
  cases move with
  | goto next => exact waits_cons next rest
  | call next callee =>
      rw [System.push, waits_cons, waits_cons,
        callee.waiting_of_notAcquire (h.callee next callee rfl).1]
      rfl
  | ret result =>
      cases rest with
      | nil => rfl
      | cons caller rest =>
          change waits (caller.resume result :: rest) = waits (caller :: rest)
          rw [waits_cons, waits_cons, (caller.resume_queue result).2.1]

theorem Frame.Keeps.waitingAfter (h : frame.Keeps c c' move) (hframe : frame.isAcquire = false) :
    waitingAfter move = none := by
  have hnext : ∀ next callee, move = .goto next ∨ move = .call next callee →
      next.waiting = none := by
    intro next callee hmoved
    refine next.waiting_of_notAcquire (Bool.eq_false_iff.2 fun hacquire => ?_)
    rw [h.next next callee hmoved hacquire] at hframe
    cases hframe
  cases move with
  | goto next => exact hnext next next (.inl rfl)
  | call next callee => exact hnext next callee (.inr rfl)
  | ret result => rfl

/-- A thread gives up its request or goes on with it, or waits for a new one. -/
theorem waits_exchange (entry : ℕ × String)
    (h : frame.Keeps c c' move) (houter : frame.Outermost rest)
    (hchange : QueueChange c c' frame.waiting (waitingAfter move))
    (howned : ∀ entry, waits (frame :: rest) = some entry → c.Queued entry) :
    (c'.Queued entry ↔ (c.Queued entry ∧ waits (frame :: rest) ≠ some entry) ∨
        waits (calls.push rest move) = some entry) ∧
      (waits (calls.push rest move) = some entry →
        waits (frame :: rest) = some entry ∨ ¬c.Queued entry) := by
  have hqueued := hchange.queued entry
  have hfresh := hchange.fresh entry
  rw [waits_push h, waits_cons]
  cases hframe : frame.isAcquire with
  | true =>
      obtain rfl := houter hframe
      have hnone : waits [] = none := rfl
      rw [hnone, Option.or_none, Option.or_none]
      exact ⟨hqueued, hfresh⟩
  | false =>
      have howned := howned entry
      rw [waits_cons] at howned
      rw [frame.waiting_of_notAcquire hframe] at hqueued howned ⊢
      rw [h.waitingAfter hframe] at hqueued ⊢
      simp only [Option.none_or, ne_eq, reduceCtorEq, not_false_eq_true, and_true,
        or_false] at hqueued howned ⊢
      rw [hqueued]
      by_cases hentry : waits rest = some entry
      · simp [hentry, howned hentry]
      · simp [hentry]

theorem exists_swaps_push (h : swapsAfter move = true ∨ ∃ other ∈ rest, other.swaps = true) :
    ∃ other ∈ calls.push rest move, other.swaps = true := by
  rcases h with h | ⟨other, hother, hswaps⟩
  · cases move with
    | goto next => exact ⟨next, List.mem_cons_self, h⟩
    | call next callee => exact ⟨next, List.mem_cons_of_mem _ List.mem_cons_self, h⟩
    | ret result => cases h
  · cases move with
    | goto next => exact ⟨other, List.mem_cons_of_mem _ hother, hswaps⟩
    | call next callee =>
        exact ⟨other, List.mem_cons_of_mem _ (List.mem_cons_of_mem _ hother), hswaps⟩
    | ret result =>
        cases rest with
        | nil => cases hother
        | cons caller rest =>
            rcases List.mem_cons.1 hother with rfl | hother
            · refine ⟨other.resume result, List.mem_cons_self, ?_⟩
              exact (other.resume_queue result).2.2.trans hswaps
            · exact ⟨other, List.mem_cons_of_mem _ hother, hswaps⟩

theorem waits_update (stack : ℕ → List Frame) (tid : ℕ) (new : List Frame) :
    (fun t => waits (update stack tid new t)) =
      update (fun t => waits (stack t)) tid (waits new) := by
  funext t
  by_cases ht : t = tid
  · rw [ht, update_self, update_self]
  · rw [update_of_ne ht, update_of_ne ht]

end Stacks

namespace World

variable {w w' : World}

/-- What the coordinator holds belongs to the calls that have not returned. -/
structure Accounted (w : World) : Prop where
  queue : OwnedBy w.shared.Queued fun tid => waits (w.stack tid)
  bounded : w.shared.waiters.waiters.length ≤ w.shared.maxQueueSize
  outermost : ∀ tid, System.Nested Frame.Outermost (w.stack tid)
  swapping : w.shared.swapInProgress = true → ∃ tid, ∃ frame ∈ w.stack tid, frame.swaps = true

theorem accounted_initial (registry : ModelRegistry) : (initial registry).Accounted where
  queue := by
    refine ⟨fun entry => ⟨?_, ?_⟩, fun tid tid' entry h => ?_⟩
    · rintro ⟨waiter, hwaiter, -⟩
      cases hwaiter
    · rintro ⟨tid, h⟩
      cases h
    · cases h
  bounded := Nat.zero_le _
  outermost tid := trivial
  swapping h := by cases h

/-- A change of the coordinator that leaves the queue and the announced swaps alone. -/
theorem Accounted.withShared (h : w.Accounted) {c : BackendCoordinator}
    (hbook : c.queueBook = w.shared.queueBook) : (w.withShared c).Accounted where
  queue := by
    refine ⟨fun entry => ?_, h.queue.unique⟩
    change c.Queued entry ↔ _
    rw [queued_congr hbook]
    exact h.queue.owned entry
  bounded := (QueueChange.of_queueBook h.bounded hbook).bounded
  outermost := h.outermost
  swapping hflag := h.swapping ((queueBook_eq_iff.1 hbook).2.2 ▸ hflag)

theorem Accounted.call (h : w.Accounted) {tid : ℕ} (hidle : w.stack tid = []) (call : Call) :
    Accounted { w with stack := update w.stack tid [call.frame] } where
  queue := by
    have hold : waits (w.stack tid) = none := by
      rw [hidle]
      rfl
    have hnew : waits [call.frame] = none := by cases call <;> rfl
    change OwnedBy w.shared.Queued fun t => waits (update w.stack tid [call.frame] t)
    rw [waits_update, hnew]
    refine h.queue.exchange hold (fun entry => ?_) fun entry hentry => ?_
    · simp
    · cases hentry
  bounded := h.bounded
  outermost t := by
    change System.Nested Frame.Outermost (update w.stack tid [call.frame] t)
    by_cases ht : t = tid
    · rw [ht, update_self]
      exact ⟨fun _ => rfl, trivial⟩
    · rw [update_of_ne ht]
      exact h.outermost t
  swapping hflag := by
    obtain ⟨t, frame, hframe, hswaps⟩ := h.swapping hflag
    have ht : t ≠ tid := by
      rintro rfl
      rw [hidle] at hframe
      cases hframe
    refine ⟨t, frame, ?_, hswaps⟩
    change frame ∈ update w.stack tid [call.frame] t
    rwa [update_of_ne ht]

theorem Accounted.run (h : w.Accounted) {tid : ℕ} {input : Reading}
    (hrun : calls.run w tid input = some w') : w'.Accounted := by
  obtain ⟨frame, rest, shared, move, owners, hstack, hstep, -, rfl⟩ := System.run_eq_some hrun
  have houter := h.outermost tid
  rw [hstack] at houter
  have hqueued : ∀ entry, frame.waiting = some entry → w.shared.Queued entry := by
    intro entry hentry
    refine (h.queue.owned entry).2 ⟨tid, ?_⟩
    rw [hstack, waits_cons, hentry]
    rfl
  obtain ⟨hchange, hkeeps⟩ := frameStep_queue hqueued h.bounded shared move hstep
  refine ⟨?_, hchange.bounded, fun t => ?_, fun hflag => ?_⟩
  · change OwnedBy shared.Queued fun t => waits (update w.stack tid (calls.push rest move) t)
    rw [waits_update]
    have howned : ∀ entry, waits (frame :: rest) = some entry → w.shared.Queued entry :=
      fun entry hentry => (h.queue.owned entry).2 ⟨tid, by rw [hstack, hentry]⟩
    have hexchange := fun entry => waits_exchange entry hkeeps houter.1 hchange howned
    exact h.queue.exchange (congrArg waits hstack) (fun entry => (hexchange entry).1)
      fun entry => (hexchange entry).2
  · change System.Nested Frame.Outermost (update w.stack tid (calls.push rest move) t)
    by_cases ht : t = tid
    · rw [ht, update_self]
      refine System.Nested.push (fun frame result rest hframe hacquire => ?_) houter
        (hkeeps.settles houter.1)
      exact hframe ((frame.resume_queue result).1 ▸ hacquire)
    · rw [update_of_ne ht]
      exact h.outermost t
  · change ∃ t, ∃ other ∈ update w.stack tid (calls.push rest move) t, other.swaps = true
    rcases hkeeps.swapping hflag with hswaps | ⟨hbefore, hframe⟩
    · exact ⟨tid, by rw [update_self]; exact exists_swaps_push (.inl hswaps)⟩
    · obtain ⟨t, other, hother, hswaps⟩ := h.swapping hbefore
      by_cases ht : t = tid
      · subst ht
        rw [hstack] at hother
        refine ⟨t, ?_⟩
        rw [update_self]
        rcases List.mem_cons.1 hother with rfl | hother
        · rw [hframe] at hswaps
          cases hswaps
        · exact exists_swaps_push (.inr ⟨other, hother, hswaps⟩)
      · exact ⟨t, other, by rwa [update_of_ne ht], hswaps⟩

theorem accounted_next (h : w.Accounted) {action : Action} (hnext : w.next action = some w') :
    w'.Accounted := by
  cases action with
  | call tid call =>
      unfold next at hnext
      dsimp only at hnext
      split_ifs at hnext with hidle
      obtain rfl := Option.some.inj hnext
      exact h.call hidle call
  | run tid input => exact h.run hnext
  | releaseSlot name leaseId failure now =>
      obtain rfl := Option.some.inj hnext
      exact h.withShared releaseSlot_queueBook
  | acquireSlotNow name opts slot failure now =>
      obtain rfl := Option.some.inj hnext
      exact h.withShared (TakesSlot.queueBook_eq acquireSlotNow_takes)
  | setHealth name healthy =>
      obtain rfl := Option.some.inj hnext
      refine h.withShared ?_
      unfold BackendCoordinator.setHealth
      split <;> rfl
  | session now call =>
      obtain rfl := Option.some.inj hnext
      exact h.withShared perform_queueBook
  | setVramBudget totalMb safetyMarginMb =>
      obtain rfl := Option.some.inj hnext
      refine h.withShared ?_
      unfold BackendCoordinator.setVramBudget
      dsimp only
      split_ifs <;> rfl
  | updateVramObservation usedMb totalMb now =>
      obtain rfl := Option.some.inj hnext
      refine h.withShared ?_
      unfold BackendCoordinator.updateVramObservation
      dsimp only
      split_ifs <;> rfl
  | setSwapCancel cancel =>
      obtain rfl := Option.some.inj hnext
      exact h.withShared rfl

/-- What the coordinator holds in a state, and to whom it belongs. -/
structure Tidy (w : World) : Prop where
  /-- Every queued request is that of a call that has not returned, which waits for it. -/
  queue : OwnedBy w.shared.Queued fun tid => waits (w.stack tid)
  bounded : w.shared.waiters.waiters.length ≤ w.shared.maxQueueSize
  draining : OwnedBy (· ∈ w.shared.drainingModels) fun tid => topMark Frame.drains (w.stack tid)
  resizing : OwnedBy (· ∈ w.shared.resizingModels) fun tid => topMark Frame.resizes (w.stack tid)
  swapping : w.shared.swapInProgress = true → ∃ tid, ∃ frame ∈ w.stack tid, frame.swaps = true
  /-- When all calls have returned there is nothing left of them. -/
  idle : (∀ tid, w.stack tid = []) → w.shared.waiters.waiters = [] ∧
    w.shared.drainingModels = ∅ ∧ w.shared.resizingModels = ∅ ∧
    w.shared.swapInProgress = false ∧ ∀ tid lock, Owners.depth w.shared.owner tid lock = 0

theorem Accounted.tidy (h : w.Accounted) (hsound : w.Sound) : w.Tidy where
  queue := h.queue
  bounded := h.bounded
  draining := ⟨hsound.draining, fun _ _ _ => hsound.drains_unique⟩
  resizing := ⟨hsound.resizing, fun _ _ _ => hsound.resizes_unique⟩
  swapping := h.swapping
  idle hidle := by
    refine ⟨List.eq_nil_iff_forall_not_mem.2 fun waiter hwaiter => ?_, ?_, ?_, ?_, ?_⟩
    · obtain ⟨tid, htid⟩ := (h.queue.owned (waiter.id, waiter.model)).1 ⟨waiter, hwaiter, rfl, rfl⟩
      rw [hidle] at htid
      cases htid
    · refine Finset.eq_empty_of_forall_notMem fun name hname => ?_
      obtain ⟨tid, htid⟩ := (hsound.draining name).1 hname
      rw [hidle] at htid
      cases htid
    · refine Finset.eq_empty_of_forall_notMem fun name hname => ?_
      obtain ⟨tid, htid⟩ := (hsound.resizing name).1 hname
      rw [hidle] at htid
      cases htid
    · refine Bool.eq_false_iff.2 fun hflag => ?_
      obtain ⟨tid, frame, hframe, -⟩ := h.swapping hflag
      rw [hidle] at hframe
      cases hframe
    · intro tid lock
      have hlocked := hsound.locked tid lock
      rw [hidle] at hlocked
      exact hlocked

/-- In every state of every run each queued request and each mark on a model belongs to one call
that has not returned, and an announced swap to a call that is in it. When all calls have returned,
however they did, the queue is empty, no model is marked, no swap is announced and no lock is
held. -/
theorem calls_leave_nothing (registry : ModelRegistry) (actions : List Action) :
    Always next Tidy (initial registry) actions := by
  have hmeets : Meets next (fun _ _ => True) (initial registry) actions :=
    .of_forall fun _ _ _ => trivial
  refine hmeets.always (I := fun w => w.Sound ∧ w.Accounted) (fun _ h => h.2.tidy h.1) ?_ ?_
  · rintro w action w' ⟨hsound, haccounted⟩ - hnext
    exact ⟨sound_next hsound hnext, accounted_next haccounted hnext⟩
  · exact ⟨sound_initial registry, accounted_initial registry⟩

end World

end InferDeck.Model
