import InferDeck.FrameChanges

/-!
# The invariant of the coordinator's runs

In every state that a run leads to, the locks belong to the threads whose frames hold them, the
draining and the resizing models are exactly those that a thread is about to unload, to resize or to
prepare, a model that a thread unloads, shrinks or reclaims has no lease, and the ledger of the
leases is right.
-/

namespace InferDeck.Model

open Function InferDeck.Execution InferDeck.Foundation InferDeck.Threads BackendCoordinator

/-- A frame above its callers, which have given their names up. -/
structure Frame.Placed (lifecycleLock : String → LifecycleLock) (frame : Frame)
    (rest : List Frame) : Prop where
  guarded : frame.Guarded lifecycleLock
  sheltered : frame.isPrepareCapacity = true → 0 < calls.holders .swap rest
  callers : ∀ caller ∈ rest, caller.drains = none ∧ caller.resizes = none

def topMark (mark : Frame → Option String) (stack : List Frame) : Option String :=
  stack.head?.bind mark

/-- A name is marked by the thread that works on it. -/
def MarkedBy (mark : Frame → Option String) (names : Finset String) (stack : ℕ → List Frame) :
    Prop :=
  ∀ name, name ∈ names ↔ ∃ tid, topMark mark (stack tid) = some name

namespace World

structure Sound (w : World) : Prop where
  locked : calls.Locked w
  placed : ∀ tid, System.Nested (Frame.Placed w.shared.lifecycleLock) (w.stack tid)
  draining : MarkedBy Frame.drains w.shared.drainingModels w.stack
  resizing : MarkedBy Frame.resizes w.shared.resizingModels w.stack
  ledger : w.shared.Ledger
  quiet : ∀ tid name, topMark Frame.quiesces (w.stack tid) = some name →
    w.shared.leaseCount name = 0

end World

section Placed

variable {lifecycleLock : String → LifecycleLock} {frame : Frame} {rest : List Frame}

theorem Frame.guarded_resume {result : Result Unit} (h : frame.Guarded lifecycleLock) :
    (frame.resume result).Guarded lifecycleLock := by
  cases frame <;> exact h

theorem Frame.marks_resume (frame : Frame) (result : Result Unit) :
    (frame.resume result).drains = frame.drains ∧ (frame.resume result).resizes = frame.resizes ∧
      (frame.resume result).isPrepareCapacity = frame.isPrepareCapacity := by
  cases frame <;> exact ⟨rfl, rfl, rfl⟩

theorem Frame.Enters.guarded (h : frame.Enters) : frame.Guarded lifecycleLock := by
  cases h
  case swapCancellable => trivial
  case prepareCapacity => trivial
  case acquire => trivial
  all_goals exact .inl rfl

theorem Frame.Enters.marks (h : frame.Enters) : frame.drains = none ∧ frame.resizes = none := by
  cases h <;> exact ⟨rfl, rfl⟩

theorem Frame.Placed.resume {result : Result Unit} (h : frame.Placed lifecycleLock rest) :
    (frame.resume result).Placed lifecycleLock rest where
  guarded := frame.guarded_resume h.guarded
  sheltered hprepare := h.sheltered ((frame.marks_resume result).2.2 ▸ hprepare)
  callers := h.callers

/-- The frames on top after a move are in their places. -/
theorem Frame.Placed.settles {move : CoordinatorMove} (h : frame.Placed lifecycleLock rest)
    (hmove : frame.Proceeds lifecycleLock move) :
    System.Settles (Frame.Placed lifecycleLock) rest move := by
  cases move with
  | ret result => trivial
  | goto next =>
      obtain ⟨hguarded, hsame⟩ := proceeds_goto.1 hmove
      exact ⟨hguarded, fun hprepare => h.sheltered (hsame ▸ hprepare), h.callers⟩
  | call next callee =>
      obtain ⟨hguarded, hsame, hdrains, hresizes, henters, hswap⟩ := proceeds_call.1 hmove
      refine ⟨⟨hguarded, fun hprepare => h.sheltered (hsame ▸ hprepare), h.callers⟩,
        henters.guarded, fun hprepare => ?_, ?_⟩
      · rw [System.holders_cons]
        have hheld : Owners.held (calls.holds next) LifecycleLock.swap = 1 :=
          if_pos (hswap hprepare)
        omega
      · rintro caller hcaller
        obtain rfl | hcaller := List.mem_cons.1 hcaller
        · exact ⟨hdrains, hresizes⟩
        · exact h.callers caller hcaller

end Placed

section Tops

variable {w : World} {frame : Frame} {rest : List Frame} {lifecycleLock : String → LifecycleLock}

theorem topMark_drains_push {move : CoordinatorMove} (h : frame.Placed lifecycleLock rest) :
    topMark Frame.drains (calls.push rest move) = drainsAfter move := by
  cases move with
  | goto next => rfl
  | call next callee => rfl
  | ret result =>
      cases rest with
      | nil => rfl
      | cons caller rest =>
          exact (caller.marks_resume result).1.trans (h.callers caller List.mem_cons_self).1

theorem topMark_resizes_push {move : CoordinatorMove} (h : frame.Placed lifecycleLock rest) :
    topMark Frame.resizes (calls.push rest move) = resizesAfter move := by
  cases move with
  | goto next => rfl
  | call next callee => rfl
  | ret result =>
      cases rest with
      | nil => rfl
      | cons caller rest =>
          exact (caller.marks_resume result).2.1.trans (h.callers caller List.mem_cons_self).2

theorem topMark_quiesces_push {move : CoordinatorMove} (h : frame.Placed lifecycleLock rest) :
    topMark Frame.quiesces (calls.push rest move) = quiescesAfter move := by
  cases move with
  | goto next => rfl
  | call next callee => rfl
  | ret result =>
      cases rest with
      | nil => rfl
      | cons caller rest =>
          have hnone : (caller.resume result).quiesces = none := by
            cases hq : (caller.resume result).quiesces with
            | none => rfl
            | some n =>
                rcases Frame.marks_of_quiesces hq with hmark | hmark
                · rw [(caller.marks_resume result).1, (h.callers caller List.mem_cons_self).1] at hmark
                  cases hmark
                · rw [(caller.marks_resume result).2.1,
                    (h.callers caller List.mem_cons_self).2] at hmark
                  cases hmark
          exact hnone

/-- The thread holds the lock of the model that it drains. -/
theorem World.Sound.holds_of_drains (h : w.Sound) {tid : ℕ} {name : String}
    (hmark : topMark Frame.drains (w.stack tid) = some name) :
    0 < calls.holders (w.shared.lifecycleLock name) (w.stack tid) := by
  have hplaced := h.placed tid
  cases hstack : w.stack tid with
  | nil =>
      rw [hstack] at hmark
      cases hmark
  | cons frame rest =>
      rw [hstack] at hmark hplaced
      change frame.drains = some name at hmark
      have hguarded := hplaced.1.guarded
      have hheld : frame.holds = some (w.shared.lifecycleLock name) := by
        cases frame with
        | unload n control held pc =>
            cases pc
            case draining =>
              obtain rfl := Option.some.inj hmark
              exact (guarded_unload.1 hguarded).resolve_left (by simp)
            case unloading =>
              obtain rfl := Option.some.inj hmark
              exact (guarded_unload.1 hguarded).resolve_left (by simp)
            all_goals cases hmark
        | _ => cases hmark
      rw [System.holders_cons]
      have hone : Owners.held (calls.holds frame) (w.shared.lifecycleLock name) = 1 := if_pos hheld
      omega

/-- The thread holds the swap lock while it resizes a model. -/
theorem World.Sound.holds_of_resizes (h : w.Sound) {tid : ℕ} {name : String}
    (hmark : topMark Frame.resizes (w.stack tid) = some name) :
    0 < calls.holders .swap (w.stack tid) := by
  have hplaced := h.placed tid
  cases hstack : w.stack tid with
  | nil =>
      rw [hstack] at hmark
      cases hmark
  | cons frame rest =>
      rw [hstack] at hmark hplaced
      change frame.resizes = some name at hmark
      rw [System.holders_cons]
      cases frame with
      | prepareCapacity n control force required pc result =>
          exact Nat.add_pos_left (hplaced.1.sheltered rfl) _
      | prepareRequest n demand control held pc =>
          have hheld : held = some .swap := by
            apply (guarded_prepareRequest.1 hplaced.1.guarded).resolve_left
            rintro rfl
            cases hmark
          have hone : Owners.held (calls.holds
            (.prepareRequest n demand control held pc)) LifecycleLock.swap = 1 := if_pos hheld
          omega
      | _ => cases hmark

theorem World.Sound.drains_unique (h : w.Sound) {t t' : ℕ} {name : String}
    (ht : topMark Frame.drains (w.stack t) = some name)
    (ht' : topMark Frame.drains (w.stack t') = some name) : t = t' :=
  h.locked.exclusive (h.holds_of_drains ht) (h.holds_of_drains ht')

theorem World.Sound.resizes_unique (h : w.Sound) {t t' : ℕ} {name name' : String}
    (ht : topMark Frame.resizes (w.stack t) = some name)
    (ht' : topMark Frame.resizes (w.stack t') = some name') : t = t' :=
  h.locked.exclusive (h.holds_of_resizes ht) (h.holds_of_resizes ht')

/-- The marked names after a step of a thread. -/
theorem MarkedBy.remark {mark : Frame → Option String} {names : Finset String}
    {stack : ℕ → List Frame} (h : MarkedBy mark names stack) {tid : ℕ} {new : List Frame}
    {old after : Option String} (hold : topMark mark (stack tid) = old)
    (hafter : topMark mark new = after) (hremarks : Remarks old after)
    (hunique : ∀ t name, topMark mark (stack tid) = some name →
      topMark mark (stack t) = some name → t = tid) :
    MarkedBy mark (Model.remark old after names) (update stack tid new) := by
  intro name
  have hother : (∃ t, topMark mark (update stack tid new t) = some name) ↔
      after = some name ∨ ∃ t, t ≠ tid ∧ topMark mark (stack t) = some name := by
    constructor
    · rintro ⟨t, ht⟩
      by_cases htid : t = tid
      · rw [htid, update_self, hafter] at ht
        exact .inl ht
      · rw [update_of_ne htid] at ht
        exact .inr ⟨t, htid, ht⟩
    · rintro (hname | ⟨t, htid, ht⟩)
      · exact ⟨tid, by rw [update_self, hafter, hname]⟩
      · exact ⟨t, by rw [update_of_ne htid, ht]⟩
  have hbefore : (∃ t, topMark mark (stack t) = some name) ↔
      old = some name ∨ ∃ t, t ≠ tid ∧ topMark mark (stack t) = some name := by
    constructor
    · rintro ⟨t, ht⟩
      by_cases htid : t = tid
      · rw [htid, hold] at ht
        exact .inl ht
      · exact .inr ⟨t, htid, ht⟩
    · rintro (hname | ⟨t, -, ht⟩)
      · exact ⟨tid, hold.trans hname⟩
      · exact ⟨t, ht⟩
  rw [hother]
  rcases hremarks with rfl | rfl | rfl
  · cases after with
    | none =>
        rw [remark_same, h name, hbefore]
    | some a =>
        rw [remark_enter, Finset.mem_insert, h name, hbefore]
        simp only [reduceCtorEq, false_or, Option.some.injEq, eq_comm]
  · cases old with
    | none =>
        rw [remark_same, h name, hbefore]
    | some a =>
        rw [remark_leave, Finset.mem_erase, h name, hbefore]
        simp only [reduceCtorEq, false_or, Option.some.injEq]
        constructor
        · rintro ⟨hne, hname | hother⟩
          · exact absurd hname.symm hne
          · exact hother
        · rintro ⟨t, htid, ht⟩
          refine ⟨?_, .inr ⟨t, htid, ht⟩⟩
          rintro rfl
          exact htid (hunique t name hold ht)
  · rw [remark_same, h name, hbefore]

end Tops

section Owners

variable (c : BackendCoordinator)

theorem owner_issueLeaseLocked (name : String) (slot : ℕ) (demand : Option RequestDemand)
    (key : String) (priority : ℤ) (now : TimePoint) :
    (c.issueLeaseLocked name slot demand key priority now).2.owner = c.owner := by
  unfold issueLeaseLocked
  split_ifs <;> rfl

theorem owner_leaseSlot (name : String) (backend : Backend) (slot : ℕ)
    (demand : Option RequestDemand) (key : String) (priority : ℤ) (failure : Option Error)
    (now : TimePoint) :
    (c.leaseSlot name backend slot demand key priority failure now).2.owner = c.owner := by
  unfold leaseSlot
  rcases backend.acquireSlot slot with ⟨_ | backendSlot, taken⟩
  · rfl
  · have hissue := owner_issueLeaseLocked (c.setInstance name taken) name backendSlot demand key
      priority now
    dsimp only
    split
    next hissued =>
      rw [hissued] at hissue
      exact hissue
    next hissued =>
      rw [hissued] at hissue
      exact hissue

theorem owner_acquireSlotNow (name : String) (opts : AcquireSlotOptions) (slot : ℕ)
    (failure : Option Error) (now : TimePoint) :
    (c.acquireSlotNow name opts slot failure now).2.owner = c.owner := by
  unfold acquireSlotNow
  cases c.residentBackend name with
  | none => split_ifs <;> rfl
  | some backend =>
      dsimp only
      split_ifs
      · rfl
      · rfl
      · rfl
      · rfl
      · exact owner_leaseSlot ..

theorem owner_releaseSlot (name : String) (leaseId : ℤ) (failure : Option Error)
    (now : TimePoint) : (c.releaseSlot name leaseId failure now).2.owner = c.owner := by
  unfold releaseSlot
  split
  · split_ifs <;> rfl
  · split_ifs
    · rfl
    · split
      · rfl
      · split
        · rfl
        · dsimp only
          split_ifs <;> rfl

/-- The sessions are apart from the leases. -/
theorem perform_keeps (now : TimePoint) (call : SessionCall) :
    (c.perform now call).owner = c.owner ∧ (c.perform now call).leaseBook = c.leaseBook ∧
      (c.perform now call).drainingModels = c.drainingModels ∧
      (c.perform now call).resizingModels = c.resizingModels ∧
      (c.perform now call).requestBook = c.requestBook := by
  cases call with
  | reserve key model duration =>
      unfold perform reservePrioritySession
      dsimp only
      split_ifs <;> exact ⟨rfl, rfl, rfl, rfl, rfl⟩
  | refresh key token duration =>
      unfold perform refreshPrioritySession
      dsimp only
      split
      · exact ⟨rfl, rfl, rfl, rfl, rfl⟩
      · split_ifs <;> exact ⟨rfl, rfl, rfl, rfl, rfl⟩
  | hold key model =>
      unfold perform holdPrioritySession
      dsimp only
      split
      · exact ⟨rfl, rfl, rfl, rfl, rfl⟩
      · split_ifs <;> exact ⟨rfl, rfl, rfl, rfl, rfl⟩
  | complete key token duration =>
      unfold perform completePrioritySessionHold
      dsimp only
      split
      · exact ⟨rfl, rfl, rfl, rfl, rfl⟩
      · split_ifs <;> exact ⟨rfl, rfl, rfl, rfl, rfl⟩
  | release key token =>
      unfold perform releasePrioritySession
      dsimp only
      split
      · exact ⟨rfl, rfl, rfl, rfl, rfl⟩
      · split_ifs <;> exact ⟨rfl, rfl, rfl, rfl, rfl⟩

end Owners

namespace World

variable {w w' : World}

/-- A change of the coordinator between the steps of the threads. -/
theorem Sound.withShared (h : w.Sound) {c : BackendCoordinator} (howner : c.owner = w.shared.owner)
    (hregistry : c.registry = w.shared.registry)
    (hdraining : c.drainingModels = w.shared.drainingModels)
    (hresizing : c.resizingModels = w.shared.resizingModels) (hledger : c.Ledger)
    (hquiet : ∀ n, n ∈ w.shared.drainingModels ∨ n ∈ w.shared.resizingModels →
      w.shared.leaseCount n = 0 → c.leaseCount n = 0) : (w.withShared c).Sound where
  locked := by
    intro tid lock
    change Owners.depth c.owner tid lock = _
    rw [howner]
    exact h.locked tid lock
  placed := by
    have hlock : c.lifecycleLock = w.shared.lifecycleLock := by
      funext name
      rw [lifecycleLock, lifecycleLock, hregistry]
    intro tid
    change System.Nested (Frame.Placed c.lifecycleLock) _
    rw [hlock]
    exact h.placed tid
  draining := by
    change MarkedBy _ c.drainingModels _
    rw [hdraining]
    exact h.draining
  resizing := by
    change MarkedBy _ c.resizingModels _
    rw [hresizing]
    exact h.resizing
  ledger := hledger
  quiet tid name hmark := by
    refine hquiet name ?_ (h.quiet tid name hmark)
    change topMark Frame.quiesces (w.stack tid) = some name at hmark
    obtain ⟨frame, hframe, hmark⟩ := Option.bind_eq_some_iff.1 hmark
    rcases Frame.marks_of_quiesces hmark with hdrains | hresizes
    · exact .inl ((h.draining name).2 ⟨tid, by rw [topMark, hframe]; exact hdrains⟩)
    · exact .inr ((h.resizing name).2 ⟨tid, by rw [topMark, hframe]; exact hresizes⟩)

/-- A request or a release changes the leases as such and nothing else that counts. -/
theorem Sound.leases (h : w.Sound) {c : BackendCoordinator} (howner : c.owner = w.shared.owner)
    (hchange : w.shared.LeaseChange c.leaseBook) (hmarks : KeepsMarks w.shared c) :
    (w.withShared c).Sound :=
  h.withShared howner hmarks.1 hmarks.2.1 hmarks.2.2.1 (h.ledger.of_leaseChange hchange)
    fun _ hmarked hquiet => hchange.quiet hmarked hquiet

/-- A change of nothing that the locks, the marks and the leases rest on. -/
theorem Sound.elsewhere (h : w.Sound) {c : BackendCoordinator} (howner : c.owner = w.shared.owner)
    (hbook : c.leaseBook = w.shared.leaseBook)
    (hdraining : c.drainingModels = w.shared.drainingModels)
    (hresizing : c.resizingModels = w.shared.resizingModels) : (w.withShared c).Sound := by
  have hchange : w.shared.LeaseChange c.leaseBook := hbook ▸ .same
  exact h.withShared howner (congrArg LeaseBook.registry hbook) hdraining hresizing
    (h.ledger.of_leaseChange hchange) fun _ hmarked hquiet => hchange.quiet hmarked hquiet

theorem Sound.setHealth (h : w.Sound) (name : String) (healthy : Bool) :
    (w.withShared (w.shared.setHealth name healthy)).Sound := by
  unfold BackendCoordinator.setHealth
  cases hlookup : w.shared.instances.lookup name with
  | none => exact h.elsewhere rfl rfl rfl rfl
  | some backend =>
      refine h.withShared rfl rfl rfl rfl ?_ fun n _ hquiet => hquiet
      refine h.ledger.of_backsOn rfl rfl (fun _ => rfl) fun id lease _ => ?_
      apply BacksOn.of_insert rfl
      intro _ before hbefore
      obtain rfl := Option.some.inj (hlookup.symm.trans hbefore)
      exact ⟨rfl, fun hloaded hslot => ⟨hloaded, hslot⟩⟩

theorem Sound.call (h : w.Sound) {tid : ℕ} (hidle : w.stack tid = []) (call : Call) :
    Sound { w with stack := update w.stack tid [call.frame] } := by
  have henters : call.frame.Enters := by cases call <;> constructor
  have hnone : ∀ mark, topMark mark (w.stack tid) = none := by
    intro mark
    rw [hidle]
    rfl
  have hremark : ∀ mark names, MarkedBy mark names w.stack → mark call.frame = none →
      MarkedBy mark names (update w.stack tid [call.frame]) := by
    intro mark names hmarked hframe
    have hafter : topMark mark [call.frame] = none := hframe
    have hsame := hmarked.remark (hnone mark) hafter (.inl rfl) (by simp [hnone])
    rwa [remark_same] at hsame
  refine ⟨?_, ?_, hremark _ _ h.draining henters.marks.1, hremark _ _ h.resizing henters.marks.2,
    h.ledger, ?_⟩
  · intro t lock
    by_cases ht : t = tid
    · have hbefore := h.locked t lock
      rw [ht] at hbefore ⊢
      rw [hidle] at hbefore
      change Owners.depth _ tid lock = calls.holders lock (update w.stack tid [call.frame] tid)
      rw [update_self, System.holders_cons]
      have hzero : Owners.held (calls.holds call.frame) lock = 0 := by
        rw [show calls.holds call.frame = none from henters.holds_eq_none]
        rfl
      rw [hzero]
      exact hbefore
    · change Owners.depth _ t lock = calls.holders lock (update w.stack tid [call.frame] t)
      rw [update_of_ne ht]
      exact h.locked t lock
  · intro t
    by_cases ht : t = tid
    · change System.Nested _ (update w.stack tid [call.frame] t)
      rw [ht, update_self]
      refine ⟨⟨henters.guarded, fun hprepare => ?_, by simp⟩, trivial⟩
      cases call <;> cases hprepare
    · change System.Nested _ (update w.stack tid [call.frame] t)
      rw [update_of_ne ht]
      exact h.placed t
  · intro t name hmark
    by_cases ht : t = tid
    · change topMark _ (update w.stack tid [call.frame] t) = _ at hmark
      rw [ht, update_self] at hmark
      cases call <;> cases hmark
    · change topMark _ (update w.stack tid [call.frame] t) = _ at hmark
      rw [update_of_ne ht] at hmark
      exact h.quiet t name hmark

/-- A model that is about to be drained is not draining yet. -/
theorem Sound.locked_notDraining (h : w.Sound) {tid : ℕ} {name : String} {control : Control}
    {held : Option LifecycleLock} {d : TimePoint} {rest : List Frame}
    (hstack : w.stack tid = .unload name control held (.locked d) :: rest) :
    name ∉ w.shared.drainingModels := by
  intro hmem
  obtain ⟨t, ht⟩ := (h.draining name).1 hmem
  have hplaced := h.placed tid
  rw [hstack] at hplaced
  have hheld : held = some (w.shared.lifecycleLock name) :=
    (guarded_unload.1 hplaced.1.guarded).resolve_left (by simp)
  have hholds : 0 < calls.holders (w.shared.lifecycleLock name) (w.stack tid) := by
    rw [hstack, System.holders_cons]
    have hone : Owners.held (calls.holds (.unload name control held (.locked d)))
      (w.shared.lifecycleLock name) = 1 := if_pos hheld
    omega
  obtain rfl := h.locked.exclusive hholds (h.holds_of_drains ht)
  rw [hstack] at ht
  cases ht

theorem Sound.run (h : w.Sound) {tid : ℕ} {input : Reading}
    (hrun : calls.run w tid input = some w') : w'.Sound := by
  have hlocked := h.locked.run calls_lawful hrun
  obtain ⟨frame, rest, shared, move, owners, hstack, hstep, howners, rfl⟩ :=
    System.run_eq_some hrun
  have hplaced := h.placed tid
  rw [hstack] at hplaced
  have hchange : FrameChange w.shared frame shared move :=
    frameStep_change hplaced.1.guarded
      (fun name control held d hframe => h.locked_notDraining (hframe ▸ hstack)) shared move hstep
  have hproceeds : frame.Proceeds w.shared.lifecycleLock move :=
    frameStep_proceeds hplaced.1.guarded shared move hstep
  have hlock : (calls.setOwner shared owners).lifecycleLock = w.shared.lifecycleLock := by
    funext name
    change shared.lifecycleLock name = _
    rw [lifecycleLock, lifecycleLock, hchange.registry]
  have hquiets : ∀ name, frame.quiesces = some name → w.shared.leaseCount name = 0 := by
    intro name hname
    exact h.quiet tid name (by rw [hstack]; exact hname)
  refine ⟨hlocked, ?_, ?_, ?_, ?_, ?_⟩
  · intro t
    change System.Nested (Frame.Placed (calls.setOwner shared owners).lifecycleLock)
      (update w.stack tid (calls.push rest move) t)
    rw [hlock]
    by_cases ht : t = tid
    · rw [ht, update_self]
      exact System.Nested.push (fun frame result rest hframe => hframe.resume) hplaced
        (hplaced.1.settles hproceeds)
    · rw [update_of_ne ht]
      exact h.placed t
  · change MarkedBy Frame.drains shared.drainingModels (update w.stack tid (calls.push rest move))
    rw [hchange.draining]
    exact h.draining.remark (by rw [hstack]; rfl) (topMark_drains_push hplaced.1) hchange.drains
      fun t name ht ht' => h.drains_unique ht' ht
  · change MarkedBy Frame.resizes shared.resizingModels (update w.stack tid (calls.push rest move))
    rw [hchange.resizing]
    exact h.resizing.remark (by rw [hstack]; rfl) (topMark_resizes_push hplaced.1) hchange.resizes
      fun t name ht ht' => h.resizes_unique ht' ht
  · exact (hchange.ledger h.ledger hquiets).of_backsOn rfl rfl (fun _ => rfl)
      fun _ _ _ => .of_lookup_eq rfl
  · intro t name hmark
    change topMark _ (update w.stack tid (calls.push rest move) t) = _ at hmark
    change shared.leaseCount name = 0
    by_cases ht : t = tid
    · rw [ht, update_self, topMark_quiesces_push hplaced.1] at hmark
      exact hchange.quiesces h.ledger name (hquiets name) hmark
    · rw [update_of_ne ht] at hmark
      refine hchange.quiet name ?_ (h.quiet t name hmark)
      obtain ⟨top, htop, hmark⟩ := Option.bind_eq_some_iff.1 hmark
      rcases Frame.marks_of_quiesces hmark with hdrains | hresizes
      · exact .inl ((h.draining name).2 ⟨t, by rw [topMark, htop]; exact hdrains⟩)
      · exact .inr ((h.resizing name).2 ⟨t, by rw [topMark, htop]; exact hresizes⟩)

theorem sound_initial (registry : ModelRegistry) : (initial registry).Sound where
  locked tid lock := by cases lock <;> rfl
  placed tid := trivial
  draining name := by simp [initial, topMark]
  resizing name := by simp [initial, topMark]
  ledger :=
    { counted := fun _ => rfl
      backed := fun _ _ h => by cases h
      distinct := fun _ _ _ _ h => by cases h
      below := fun _ _ h => by cases h
      bounded := fun _ _ _ h => by cases h }
  quiet tid name h := by cases h

theorem sound_next (h : w.Sound) {action : Action} (hnext : w.next action = some w') :
    w'.Sound := by
  cases action with
  | call tid call =>
      unfold next at hnext
      dsimp only at hnext
      split_ifs at hnext with hidle
      obtain rfl := Option.some.inj hnext
      exact h.call hidle call
  | run tid input => exact h.run hnext
  | releaseSlot name leaseId failure now =>
      obtain rfl := Option.some.inj hnext
      exact h.leases (owner_releaseSlot ..) releaseSlot_changes.1 releaseSlot_changes.2
  | acquireSlotNow name opts slot failure now =>
      obtain rfl := Option.some.inj hnext
      exact h.leases (owner_acquireSlotNow ..) acquireSlotNow_takes.changes.1
        acquireSlotNow_takes.changes.2
  | setHealth name healthy =>
      obtain rfl := Option.some.inj hnext
      exact h.setHealth name healthy
  | session now call =>
      obtain rfl := Option.some.inj hnext
      obtain ⟨howner, hbook, hdraining, hresizing, _⟩ := perform_keeps w.shared now call
      exact h.elsewhere howner hbook hdraining hresizing
  | setVramBudget totalMb safetyMarginMb =>
      obtain rfl := Option.some.inj hnext
      unfold BackendCoordinator.setVramBudget
      dsimp only
      split_ifs <;> exact h.elsewhere rfl rfl rfl rfl
  | updateVramObservation usedMb totalMb now =>
      obtain rfl := Option.some.inj hnext
      unfold BackendCoordinator.updateVramObservation
      dsimp only
      split_ifs <;> exact h.elsewhere rfl rfl rfl rfl
  | setSwapCancel cancel =>
      obtain rfl := Option.some.inj hnext
      exact h.elsewhere rfl rfl rfl rfl

/-- Every step changes the leases and their books as a request does, or not at all. -/
theorem Sound.leaseStep (h : w.Sound) {action : Action} (hnext : w.next action = some w') :
    LeaseStep w.shared w'.shared := by
  cases action with
  | call tid call =>
      unfold next at hnext
      dsimp only at hnext
      split_ifs at hnext
      obtain rfl := Option.some.inj hnext
      exact .inl rfl
  | run tid input =>
      obtain ⟨frame, rest, shared, move, owners, hstack, hstep, howners, rfl⟩ :=
        System.run_eq_some hnext
      have hplaced := h.placed tid
      rw [hstack] at hplaced
      have hchange : FrameChange w.shared frame shared move :=
        frameStep_change hplaced.1.guarded
          (fun name control held d hframe => h.locked_notDraining (hframe ▸ hstack)) shared move
          hstep
      exact hchange.leases
  | releaseSlot name leaseId failure now =>
      obtain rfl := Option.some.inj hnext
      exact .inr ⟨releaseSlot_changes.1, releaseSlot_requests⟩
  | acquireSlotNow name opts slot failure now =>
      obtain rfl := Option.some.inj hnext
      exact .inr ⟨acquireSlotNow_takes.changes.1, acquireSlotNow_takes.requests⟩
  | setHealth name healthy =>
      obtain rfl := Option.some.inj hnext
      left
      change (w.shared.setHealth name healthy).requestBook = w.shared.requestBook
      unfold BackendCoordinator.setHealth
      split <;> rfl
  | session now call =>
      obtain rfl := Option.some.inj hnext
      exact .inl (perform_keeps w.shared now call).2.2.2.2
  | setVramBudget totalMb safetyMarginMb =>
      obtain rfl := Option.some.inj hnext
      left
      change (w.shared.setVramBudget totalMb safetyMarginMb).requestBook = w.shared.requestBook
      unfold BackendCoordinator.setVramBudget
      dsimp only
      split_ifs <;> rfl
  | updateVramObservation usedMb totalMb now =>
      obtain rfl := Option.some.inj hnext
      left
      change (w.shared.updateVramObservation usedMb totalMb now).requestBook =
        w.shared.requestBook
      unfold BackendCoordinator.updateVramObservation
      dsimp only
      split_ifs <;> rfl
  | setSwapCancel cancel =>
      obtain rfl := Option.some.inj hnext
      exact .inl rfl

/-- Every state that a run leads to is sound. -/
theorem Reachable.sound {registry : ModelRegistry} (h : Reachable registry w) : w.Sound := by
  obtain ⟨actions, hexec⟩ := h
  exact invariant_of_step (fun _ _ _ hs hnext => sound_next hs hnext) (sound_initial registry) hexec

end World

end InferDeck.Model
