import InferDeck.LifecycleInvariant
import InferDeck.StepCounts

/-!
# Continuation holds

A hold is left by a release and keeps the next turn of its model for one key. The first lease of the
model uses it up, and a lease that is admitted by a hold leaves none, so that a key has at most one
turn for each hold. A hold counts until its deadline, for requests of no higher priority, and only
where the queue's order comes upon a request of its own model.
-/

namespace InferDeck.Model

open Function InferDeck.Execution InferDeck.Foundation InferDeck.Threads BackendCoordinator

namespace BackendCoordinator

variable (c : BackendCoordinator)

def DropsHolds (c' : BackendCoordinator) : Prop :=
  c'.activeLeases = c.activeLeases ∧
    ∀ name, c'.holdKey name = c.holdKey name ∨ c'.holdKey name = none

structure HoldStep (c' : BackendCoordinator) : Prop where
  /-- A hold that is new was left by the release of a lease that no hold had admitted. -/
  created : ∀ name key, c'.holdKey name = some key → c.holdKey name = some key ∨
    ∃ id lease, c.activeLeases.lookup id = some lease ∧ c'.activeLeases.lookup id = none ∧
      lease.model = name ∧ lease.reservationKey = key ∧ lease.continuation = false
  /-- A lease that a hold admits uses it up. -/
  consumed : ∀ id lease, c.activeLeases.lookup id = none →
    c'.activeLeases.lookup id = some lease → lease.continuation = true →
    c.holdKey lease.model = some lease.reservationKey ∧ c'.holdKey lease.model = none

def admitsByHold (name key : String) (c c' : BackendCoordinator) : Bool :=
  c'.activeLeases.entries.any fun e => (c.activeLeases.lookup e.1).isNone &&
    e.2.model == name && e.2.reservationKey == key && e.2.continuation

def leavesNewHold (name key : String) (c c' : BackendCoordinator) : Bool :=
  c.holdKey name != some key && c'.holdKey name == some key

structure HoldsLocal : Prop where
  released : ∀ name id lease failure now, c.activeLeases.lookup id = some lease →
    lease.continuation = true →
    (c.releaseSlot name id failure now).2.continuationHolds = c.continuationHolds
  expired : ∀ name hold opts now, c.continuationHolds.lookup name = some hold →
    hold.deadline ≤ now → c.heldBack name opts now = false ∧
      ∀ winner, c.selected now = some winner → winner.model = name →
        c.nextWaiter now = some winner
  outranked : ∀ name hold opts now, c.continuationHolds.lookup name = some hold →
    hold.priority < opts.priority → c.heldBack name opts now = false
  overtaken : ∀ name hold now, c.continuationHolds.lookup name = some hold →
    (∃ waiter ∈ c.waiters.waiters, hold.priority < waiter.priority ∧
      c.waiterIsActionableLocked waiter now = true) →
    ∀ winner, c.selected now = some winner → winner.model = name → c.nextWaiter now = some winner
  /-- The winner of the order goes next, unless a valid hold of its own model gives the turn to its
  continuation or to nobody. -/
  own : ∀ now winner, c.selected now = some winner → c.nextWaiter now = some winner ∨
    c.continuationHoldValidLocked winner.model now = true ∧
      ∀ next, c.nextWaiter now = some next → next.model = winner.model ∧
        c.holdKey winner.model = some next.reservationKey

variable {c} {c' c₁ : BackendCoordinator} {name key : String}

/-! ### When a hold counts -/

theorem heldBack_eq_false {opts : AcquireSlotOptions} {now : TimePoint} {hold : ContinuationHold}
    (hlookup : c.continuationHolds.lookup name = some hold)
    (h : hold.deadline ≤ now ∨ hold.priority < opts.priority) :
    c.heldBack name opts now = false := by
  rcases h with hexpired | hpriority
  · have hinvalid : c.continuationHoldValidLocked name now = false := by
      simp [continuationHoldValidLocked, hlookup, hexpired]
    simp [heldBack, hinvalid]
  · simp [heldBack, hlookup, hpriority]

theorem nextWaiter_of_governs {now : TimePoint} {winner : SlotWaiter}
    (hselected : c.selected now = some winner) (hnone : c.governingHold winner now = none) :
    c.nextWaiter now = some winner := by
  simp [nextWaiter, hselected, hnone]

theorem governingHold_eq_none {now : TimePoint} {winner : SlotWaiter} {hold : ContinuationHold}
    (hlookup : c.continuationHolds.lookup winner.model = some hold)
    (h : hold.deadline ≤ now ∨ ∃ waiter ∈ c.waiters.waiters, hold.priority < waiter.priority ∧
      c.waiterIsActionableLocked waiter now = true) : c.governingHold winner now = none := by
  rcases h with hexpired | ⟨waiter, hwaiter, hpriority, hactionable⟩
  · have hinvalid : c.continuationHoldValidLocked winner.model now = false := by
      simp [continuationHoldValidLocked, hlookup, hexpired]
    simp [governingHold, hinvalid]
  · have hany : (c.waiters.waiters.any fun waiter =>
        decide (hold.priority < waiter.priority) && c.waiterIsActionableLocked waiter now) =
        true :=
      List.any_eq_true.2 ⟨waiter, hwaiter, by simp [hpriority, hactionable]⟩
    unfold governingHold
    split_ifs
    · rw [hlookup, Option.filter_some, hany]
      rfl
    · rfl

theorem continuation_spec {now : TimePoint} {hold : ContinuationHold} {next : SlotWaiter}
    (h : c.continuation name hold now = some next) :
    next.model = name ∧ next.reservationKey = hold.key := by
  have holder : ∀ w best : SlotWaiter,
      decide (w.id < best.id) = decide (OrderDual.toDual best.id < OrderDual.toDual w.id) :=
    fun _ _ => rfl
  have hmem := Selection.mem_of_selectBest holder h
  obtain ⟨-, hspec⟩ := List.mem_filter.1 hmem
  simp only [Bool.and_eq_true, beq_iff_eq] at hspec
  exact hspec.1

theorem releaseSlot_continuation {id : ℤ} {lease : ActiveLease} {failure : Option Error}
    {now : TimePoint} (hlease : c.activeLeases.lookup id = some lease)
    (hcontinuation : lease.continuation = true) :
    (c.releaseSlot name id failure now).2.continuationHolds = c.continuationHolds := by
  unfold releaseSlot
  rw [hlease]
  dsimp only
  split_ifs
  · rfl
  · split
    next => rfl
    next backend _ =>
      cases failure with
      | some e => rfl
      | none =>
          simp only [Backend.releaseSlot, leavesHold, hcontinuation, Bool.not_true,
            Bool.false_and, Bool.false_eq_true, if_false]
          split_ifs <;> rfl

theorem holdsLocal (c : BackendCoordinator) : c.HoldsLocal where
  released _ _ _ _ _ hlease hcontinuation := releaseSlot_continuation hlease hcontinuation
  expired name hold opts now hlookup hexpired := by
    refine ⟨heldBack_eq_false hlookup (.inl hexpired), fun winner hselected hmodel => ?_⟩
    subst hmodel
    exact nextWaiter_of_governs hselected (governingHold_eq_none hlookup (.inl hexpired))
  outranked name hold opts now hlookup hpriority := heldBack_eq_false hlookup (.inr hpriority)
  overtaken name hold now hlookup hwaiter winner hselected hmodel := by
    subst hmodel
    exact nextWaiter_of_governs hselected (governingHold_eq_none hlookup (.inr hwaiter))
  own now winner hselected := by
    cases hgoverns : c.governingHold winner now with
    | none => exact .inl (nextWaiter_of_governs hselected hgoverns)
    | some hold =>
        right
        unfold governingHold at hgoverns
        split_ifs at hgoverns with hvalid
        simp only [Bool.and_eq_true] at hvalid
        refine ⟨hvalid.2, fun next hnext => ?_⟩
        obtain ⟨hlookup, -⟩ := Option.filter_eq_some_iff.1 hgoverns
        have hgoverns : c.governingHold winner now = some hold := by
          rw [governingHold, if_pos (by simpa only [Bool.and_eq_true] using hvalid), hgoverns]
        rw [nextWaiter, hselected] at hnext
        simp only [hgoverns] at hnext
        obtain ⟨hmodel, hkey⟩ := continuation_spec hnext
        exact ⟨hmodel, by rw [holdKey, hlookup, Option.map_some, hkey]⟩

/-! ### What a step does to the holds -/

theorem HoldStep.of_drops (h : c.DropsHolds c') : c.HoldStep c' where
  created name key hkey := by
    rcases h.2 name with hsame | hnone
    · exact .inl (hsame ▸ hkey)
    · rw [hnone] at hkey
      cases hkey
  consumed id lease hnone hlease := by
    rw [h.1, hnone] at hlease
    cases hlease

theorem DropsHolds.of_untouched (h : c.Untouched c') : c.DropsHolds c' :=
  ⟨congrArg Books.activeLeases h.1, fun name => .inl (h.2.1 name)⟩

theorem DropsHolds.of_same (hleases : c'.activeLeases = c.activeLeases)
    (hholds : c'.continuationHolds = c.continuationHolds) : c.DropsHolds c' :=
  ⟨hleases, fun name => .inl (by rw [holdKey, holdKey, hholds])⟩

/-- Holds that are dropped after the step. -/
theorem HoldStep.drop (h : c.HoldStep c₁) (hdrops : c₁.DropsHolds c') : c.HoldStep c' where
  created name key hkey := by
    have hbefore : c₁.holdKey name = some key := by
      rcases hdrops.2 name with hsame | hnone
      · exact hsame ▸ hkey
      · rw [hnone] at hkey
        cases hkey
    rw [hdrops.1]
    exact h.created name key hbefore
  consumed id lease hnone hlease hcontinuation := by
    rw [hdrops.1] at hlease
    obtain ⟨hbefore, hafter⟩ := h.consumed id lease hnone hlease hcontinuation
    refine ⟨hbefore, ?_⟩
    rcases hdrops.2 lease.model with hsame | hdropped
    · rw [hsame, hafter]
    · exact hdropped

theorem holdKey_eraseHold (c : BackendCoordinator) (name other : String) :
    { c with continuationHolds := c.continuationHolds.erase name }.holdKey other = c.holdKey other ∨
      { c with continuationHolds := c.continuationHolds.erase name }.holdKey other = none := by
  unfold holdKey
  by_cases hother : other = name
  · subst hother
    simp
  · simp [AList.lookup_erase_ne hother]

theorem eraseWaiterLocked_drops (c : BackendCoordinator) (id : ℕ) :
    c.DropsHolds (c.eraseWaiterLocked id) := by
  unfold eraseWaiterLocked
  split
  next => exact .of_same rfl rfl
  next waiter _ =>
    refine ⟨rfl, fun name => ?_⟩
    dsimp only
    split_ifs
    · exact holdKey_eraseHold c waiter.model name
    · exact .inl rfl

theorem holdKey_of_continues {now : TimePoint} (h : c.continues name key now = true) :
    c.holdKey name = some key := by
  unfold continues at h
  obtain ⟨-, hany⟩ := Bool.and_eq_true_iff.1 h
  obtain ⟨hold, hlookup, hkey⟩ := (Option.any_eq_true _ _).1 hany
  rw [holdKey, hlookup, Option.map_some, beq_iff_eq.1 hkey]

theorem holdStep_of_takes (h : TakesSlot c c')
    (hnew : c.activeLeases.lookup c.nextLeaseId = none) :
    c.HoldStep c' := by
  rcases h with rfl | ⟨_, _, _, _, _, _, _, now, _, hlookup, hlease⟩
  · exact .of_drops (.of_same rfl rfl)
  · rcases leaseSlot_eq hlookup hlease with ⟨_, -, rfl | ⟨busy, -, rfl⟩⟩ |
      ⟨lease, -, rfl, hmodel, -, hkey, hcontinues, -, -⟩
    · exact .of_drops (.of_same rfl rfl)
    · exact .of_drops (.of_same rfl rfl)
    · subst hmodel
      constructor
      · intro name key hname
        left
        rcases holdKey_eraseHold c lease.model name with hsame | hnone
        · exact hsame ▸ hname
        · exact absurd (hname.symm.trans hnone) (by simp)
      · intro id issued hnone hissued hcontinuation
        rcases Map.lookup_insert_eq_some_iff.1 hissued with ⟨-, rfl⟩ | ⟨-, hold⟩
        · refine ⟨?_, ?_⟩
          · rw [hcontinuation] at hcontinues
            have hheld := holdKey_of_continues hcontinues.symm
            rw [hkey]
            exact hheld
          · simp [holdKey, addLease]
        · exact absurd (hnone.symm.trans hold) (by simp)

theorem releaseSlot_holdStep {leaseId : ℤ} {failure : Option Error} {now : TimePoint} :
    c.HoldStep (c.releaseSlot name leaseId failure now).2 := by
  have hsame : c.HoldStep c := .of_drops (.of_same rfl rfl)
  unfold releaseSlot
  split
  next => split_ifs <;> exact hsame
  next lease hlease =>
    split_ifs with hname
    · exact hsame
    rw [ne_eq, not_not] at hname
    split
    next => exact hsame
    next backend _ =>
      cases failure with
      | some e => exact hsame
      | none =>
          have herased : ∀ id lease', (c.activeLeases.erase leaseId).lookup id = some lease' →
              c.activeLeases.lookup id = some lease' := fun id lease' hlease' =>
            (Map.lookup_erase_eq_some_iff.1 hlease').2
          have hkept : ∀ after : BackendCoordinator,
              after.activeLeases = c.activeLeases.erase leaseId →
              after.continuationHolds = c.continuationHolds → c.HoldStep after := by
            intro after hleases hholds
            refine ⟨fun n key hkey => .inl ?_, fun id lease' hnone hlease' => ?_⟩
            · rwa [holdKey, hholds] at hkey
            · rw [hleases] at hlease'
              exact absurd (hnone.symm.trans (herased id lease' hlease')) (by simp)
          have hleft : ∀ (after : BackendCoordinator) (hold : ContinuationHold),
              after.activeLeases = c.activeLeases.erase leaseId →
              after.continuationHolds = c.continuationHolds.insert lease.model hold →
              hold.key = lease.reservationKey → lease.continuation = false →
              c.HoldStep after := by
            intro after hold hleases hholds hkey hcontinuation
            refine ⟨fun n key hkey' => ?_, fun id lease' hnone hlease' => ?_⟩
            · rw [holdKey, hholds] at hkey'
              by_cases hn : n = lease.model
              · subst hn
                rw [AList.lookup_insert, Option.map_some, hkey, Option.some.injEq] at hkey'
                exact .inr ⟨leaseId, lease, hlease, by rw [hleases, AList.lookup_erase], rfl,
                  hkey', hcontinuation⟩
              · rw [AList.lookup_insert_ne hn] at hkey'
                exact .inl hkey'
            · rw [hleases] at hlease'
              exact absurd (hnone.symm.trans (herased id lease' hlease')) (by simp)
          dsimp only [Backend.releaseSlot]
          split_ifs with hmemory hleaves hleaves
          · refine hleft _ _ rfl rfl rfl ?_
            simp only [leavesHold, Bool.and_eq_true, Bool.not_eq_true'] at hleaves
            exact hleaves.1.1.1.1.1.1
          · exact hkept _ rfl rfl
          · refine hleft _ _ rfl rfl rfl ?_
            simp only [leavesHold, Bool.and_eq_true, Bool.not_eq_true'] at hleaves
            exact hleaves.1.1.1.1.1.1
          · exact hkept _ rfl rfl

/-- The sessions leave the holds alone. -/
theorem perform_holds (c : BackendCoordinator) (now : TimePoint) (call : SessionCall) :
    (c.perform now call).continuationHolds = c.continuationHolds := by
  cases call with
  | reserve =>
      unfold perform reservePrioritySession
      dsimp only
      split_ifs <;> rfl
  | refresh =>
      unfold perform refreshPrioritySession
      dsimp only
      split
      · rfl
      · split_ifs <;> rfl
  | hold =>
      unfold perform holdPrioritySession
      dsimp only
      split
      · rfl
      · split_ifs <;> rfl
  | complete =>
      unfold perform completePrioritySessionHold
      dsimp only
      split
      · rfl
      · split_ifs <;> rfl
  | release =>
      unfold perform releasePrioritySession
      dsimp only
      split
      · rfl
      · split_ifs <;> rfl

def RequestTurn (c c' : BackendCoordinator) : Prop :=
  ∃ taken, TakesSlot c taken ∧ taken.DropsHolds c'

theorem RequestTurn.of_drops (h : c.DropsHolds c') : RequestTurn c c' := ⟨c, .inl rfl, h⟩

variable {input : Reading} {opts : AcquireSlotOptions} {deadline : TimePoint} {result : Result Unit}

theorem acquireLoop_turns {id : ℕ} :
    Ensures (c.acquireLoop input name opts deadline id) fun c' _ => RequestTurn c c' := by
  have hleave : RequestTurn c (c.eraseWaiterLocked id) := .of_drops (eraseWaiterLocked_drops c id)
  have hmodify : ∀ f, RequestTurn c (c.modifyWaiter id f) := fun _ => .of_drops (.of_same rfl rfl)
  unfold acquireLoop
  cases hfind : c.waiters.find id
  case some waiter =>
    cases hturn : c.acquireTurn opts waiter input.now
    case takeSlot =>
      simp only [*, leaves, ensures_returns, ensures_ite, implies_true, true_and]
      intro _ _ c' move hmove
      obtain ⟨backend, slot, taken, result, leased, hready, -, hlease, hc'⟩ :=
        takeSlotTurn_eq_some hmove
      have htakes : TakesSlot c leased :=
        .inr ⟨_, _, _, _, _, _, _, _, _, (readyBackend_eq_some hready).1, hlease⟩
      rcases hc' with ⟨rfl, -⟩ | ⟨rfl, -, -⟩
      · exact ⟨leased, htakes, eraseWaiterLocked_drops leased id⟩
      · exact ⟨c', htakes, .of_same rfl rfl⟩
    all_goals simp only [*, leaves, ensures_returns, ensures_goes, ensures_calls, ensures_ite,
      ensures_none, implies_true, and_self]
  all_goals
    simp only [*, leaves, ensures_returns, ensures_ite, ensures_none, implies_true, and_self]

theorem acquireStep_turns {pc : AcquirePc} :
    Ensures (c.acquireStep input name opts deadline result pc) fun c' _ => RequestTurn c c' := by
  have hleave : ∀ id, RequestTurn c (c.eraseWaiterLocked id) :=
    fun id => .of_drops (eraseWaiterLocked_drops c id)
  have hmodify : ∀ id f, RequestTurn c (c.modifyWaiter id f) :=
    fun _ _ => .of_drops (.of_same rfl rfl)
  cases pc with
  | loop id => exact acquireLoop_turns
  | start =>
      have hdrops : c.DropsHolds (c.enqueue name opts input.now).2 := by
        unfold enqueue
        split_ifs <;> exact .of_same rfl rfl
      rcases henqueue : c.enqueue name opts input.now with ⟨_ | _, c'⟩
      all_goals
        rw [henqueue] at hdrops
        simp only [acquireStep, henqueue, ensures_returns, ensures_goes]
        exact .of_drops hdrops
  | demanding id =>
      cases hdemand : input.demand
      all_goals simp only [acquireStep, hdemand, leaves, ensures_returns, ensures_goes, hleave,
        hmodify]
  | capacityPrepared id generationBefore =>
      cases result
      all_goals simp only [acquireStep, afterCallback, leaves, ensures_returns, ensures_goes,
        ensures_ite, hleave, hmodify, and_self, implies_true]
  | prepared id generationBefore =>
      cases result
      all_goals simp only [acquireStep, afterCallback, leaves, ensures_returns, ensures_goes,
        ensures_ite, hleave, hmodify, and_self, implies_true]

end BackendCoordinator

namespace World

variable {w w' : World} {name key : String}

/-- Every step of a run treats the holds as such. -/
theorem Sound.holdStep (h : w.Sound) {action : Action} (hnext : w.next action = some w') :
    w.shared.HoldStep w'.shared := by
  have hnew : w.shared.activeLeases.lookup w.shared.nextLeaseId = none := by
    cases hold : w.shared.activeLeases.lookup w.shared.nextLeaseId with
    | none => rfl
    | some lease => exact absurd (h.ledger.below _ lease hold) (lt_irrefl _)
  cases action with
  | call tid call =>
      unfold next at hnext
      dsimp only at hnext
      split_ifs at hnext
      obtain rfl := Option.some.inj hnext
      exact .of_drops (.of_same rfl rfl)
  | run tid input =>
      obtain ⟨frame, rest, shared, move, owners, hstack, hstep, howners, rfl⟩ :=
        System.run_eq_some hnext
      have hplaced := h.placed tid
      rw [hstack] at hplaced
      have hguarded := hplaced.1.guarded
      have howned : shared.DropsHolds (calls.setOwner shared owners) := .of_same rfl rfl
      refine HoldStep.drop ?_ howned
      cases frame with
      | unload name control held pc =>
          have hchange := unloadStep_changes
            (fun d hpc => h.locked_notDraining (hpc ▸ hstack)) shared move hstep
          exact .of_drops (.of_untouched hchange.1)
      | load => exact .of_drops (.of_untouched (loadStep_changes shared move hstep).1)
      | prepareCapacity =>
          exact .of_drops (.of_untouched (prepareCapacityStep_changes shared move hstep).1)
      | swap => exact .of_drops (.of_untouched (swapStep_changes shared move hstep).1)
      | swapCancellable =>
          exact .of_drops (.of_untouched (swapCancellableStep_changes shared move hstep).1)
      | prepareRequest =>
          exact .of_drops (.of_untouched (prepareRequestStep_changes shared move hstep).1)
      | acquire =>
          obtain ⟨taken, htakes, hdrops⟩ := acquireStep_turns shared move hstep
          exact (holdStep_of_takes htakes hnew).drop hdrops
  | releaseSlot name leaseId failure now =>
      obtain rfl := Option.some.inj hnext
      exact releaseSlot_holdStep
  | acquireSlotNow name opts slot failure now =>
      obtain rfl := Option.some.inj hnext
      exact holdStep_of_takes acquireSlotNow_takes hnew
  | setHealth name healthy =>
      obtain rfl := Option.some.inj hnext
      refine .of_drops ?_
      change w.shared.DropsHolds (w.shared.setHealth name healthy)
      unfold BackendCoordinator.setHealth
      split <;> exact .of_same rfl rfl
  | session now call =>
      obtain rfl := Option.some.inj hnext
      refine .of_drops (.of_same ?_ ?_)
      · exact congrArg RequestBook.activeLeases (perform_keeps w.shared now call).2.2.2.2
      · exact perform_holds w.shared now call
  | setVramBudget totalMb safetyMarginMb =>
      obtain rfl := Option.some.inj hnext
      refine .of_drops ?_
      change w.shared.DropsHolds (w.shared.setVramBudget totalMb safetyMarginMb)
      unfold BackendCoordinator.setVramBudget
      dsimp only
      split_ifs <;> exact .of_same rfl rfl
  | updateVramObservation usedMb totalMb now =>
      obtain rfl := Option.some.inj hnext
      refine .of_drops ?_
      change w.shared.DropsHolds (w.shared.updateVramObservation usedMb totalMb now)
      unfold BackendCoordinator.updateVramObservation
      dsimp only
      split_ifs <;> exact .of_same rfl rfl
  | setSwapCancel cancel =>
      obtain rfl := Option.some.inj hnext
      exact .of_drops (.of_same rfl rfl)

end World

/-- The turns that holds have given to a key are paid for by the holds that were left for it. -/
theorem turns_le_holds (registry : ModelRegistry) (actions : List Action) (name key : String) :
    countSteps World.next (fun w w' => admitsByHold name key w.shared w'.shared)
        (.initial registry) actions ≤
      countSteps World.next (fun w w' => leavesNewHold name key w.shared w'.shared)
        (.initial registry) actions := by
  have hstep : ∀ w action w', World.Sound w → World.next w action = some w' → World.Sound w' ∧
      (admitsByHold name key w.shared w'.shared).toNat +
          (w'.shared.holdKey name == some key).toNat ≤
        (w.shared.holdKey name == some key).toNat +
          (leavesNewHold name key w.shared w'.shared).toNat := by
    intro w action w' hw hnext
    refine ⟨World.sound_next hw hnext, ?_⟩
    have hchange := hw.holdStep hnext
    cases hadmits : admitsByHold name key w.shared w'.shared with
    | true =>
        obtain ⟨⟨id, lease⟩, hentry, hspec⟩ := List.any_eq_true.1 hadmits
        simp only [Bool.and_eq_true, Option.isNone_iff_eq_none, beq_iff_eq] at hspec
        obtain ⟨⟨⟨hnone, rfl⟩, rfl⟩, hcontinuation⟩ := hspec
        obtain ⟨hbefore, hafter⟩ :=
          hchange.consumed id lease hnone (Map.mem_entries_iff.1 hentry) hcontinuation
        simp [hbefore, hafter]
    | false =>
        cases hafter : w'.shared.holdKey name == some key
        all_goals
          cases hbefore : w.shared.holdKey name == some key
          all_goals simp [leavesNewHold, bne, hafter, hbefore]
  have hle := countSteps_le hstep (World.sound_initial registry) actions
  simpa [World.initial, holdKey] using hle

/-- The holds are fair and local: a lease that a hold admits uses the hold up and leaves none, no
key has more turns than holds, and a hold changes the order's choice only before its deadline, for no
actionable waiter of a higher priority, and where the choice is a waiter of its own model. -/
theorem continuation_holds_fair (registry : ModelRegistry) (actions : List Action) :
    Always World.next (fun w => w.shared.HoldsLocal ∧
        ∀ action w', w.next action = some w' → w.shared.HoldStep w'.shared)
      (.initial registry) actions ∧
    ∀ name key,
      countSteps World.next (fun w w' => admitsByHold name key w.shared w'.shared)
          (.initial registry) actions ≤
        countSteps World.next (fun w w' => leavesNewHold name key w.shared w'.shared)
          (.initial registry) actions := by
  refine ⟨?_, turns_le_holds registry actions⟩
  have hmeets : Meets World.next (fun _ _ => True) (.initial registry) actions :=
    .of_forall fun _ _ _ => trivial
  exact hmeets.always (fun w h => ⟨holdsLocal w.shared, fun _ _ hnext => h.holdStep hnext⟩)
    (fun _ _ _ h _ hnext => World.sound_next h hnext) (World.sound_initial registry)

end InferDeck.Model
