import InferDeck.SlotCache
import InferDeck.ReclaimIdleContext
import InferDeck.Execution

/-!
# Slots, sequences and calls

A slot's index is what its client holds, its sequence id is what its calls decode into, and the two
are permuted by the affinity swaps of other requests. A sequence that a call uses is bound to its
slot until the slot is released, and neither a swap nor the creation of new contexts touches a
bound slot. A slot is released after its call has returned, and takes one call at a time.
-/

namespace InferDeck.LlamaWrapper.SlotCache

open Function SequenceMemory Execution InferDeck.Model InferDeck.Foundation

/-! No work on a task changes its sequence. -/

namespace SlotTask

variable (m : LoadedModel) (t : SlotTask)

@[simp] theorem slotId_push (event : TokenEvent) : (t.push event).slotId = t.slotId := rfl

@[simp] theorem slotId_complete (error : Option String) : (t.complete error).slotId = t.slotId := rfl

@[simp] theorem slotId_startAt (start : Start) (k : ℕ) : (t.startAt start k).slotId = t.slotId := rfl

@[simp] theorem slotId_adapt (it : Iteration) : (t.adapt m it).slotId = t.slotId := rfl

@[simp] theorem slotId_keepCheckpoint (usable : Bool) :
    (t.keepCheckpoint usable).slotId = t.slotId := by
  unfold keepCheckpoint
  split_ifs <;> rfl

@[simp] theorem slotId_reuseSequence (outcome : InitOutcome) (nPast : ℕ) (memory : Memory) :
    (t.reuseSequence m outcome nPast memory).1.slotId = t.slotId := by
  unfold reuseSequence
  dsimp only
  split_ifs <;> simp

@[simp] theorem slotId_initTask (outcome : InitOutcome) (memory : Memory) :
    (t.initTask m outcome memory).1.slotId = t.slotId := by
  unfold initTask
  dsimp only
  split_ifs <;> simp

theorem slotId_evalMedia {offsets : List ℕ} {memory : Memory} {r : SlotTask × Memory}
    (h : t.evalMedia offsets memory = some r) : r.1.slotId = t.slotId := by
  obtain ⟨chunk, -, rfl⟩ := Option.map_eq_some_iff.1 h
  rfl

@[simp] theorem slotId_captureReplay (captures : Captures) (memory : Memory) :
    (t.captureReplay m captures memory).slotId = t.slotId := by
  unfold captureReplay
  split_ifs <;> rfl

@[simp] theorem slotId_captureCheckpoint (captures : Captures) (memory : Memory) :
    (t.captureCheckpoint m captures memory).slotId = t.slotId := by
  unfold captureCheckpoint
  split_ifs <;> rfl

@[simp] theorem slotId_sampled (id : ℤ) : (t.sampled m id).slotId = t.slotId := by
  unfold sampled
  dsimp only
  split_ifs <;> rfl

@[simp] theorem slotId_prefill (it : Iteration) (room : ℕ) (captures : Captures) (id : ℤ)
    (memory : Memory) : (t.prefill m it room captures id memory).1.slotId = t.slotId := by
  unfold prefill
  dsimp only
  split_ifs <;> simp

@[simp] theorem slotId_generate (it : Iteration) (id : ℤ) (memory : Memory) :
    (t.generate m it id memory).1.slotId = t.slotId := by
  unfold generate
  simp

@[simp] theorem slotId_accept (ids : List ℤ) : (t.accept m ids).slotId = t.slotId := by
  induction ids generalizing t with
  | nil => rfl
  | cons id ids ih =>
      unfold accept
      dsimp only
      split_ifs
      · rfl
      · rfl
      · rw [ih]
        rfl

@[simp] theorem slotId_verify (it : Iteration) (draft : List ℤ) (accepted : ℕ) (id : ℤ)
    (memory : Memory) : (t.verify m it draft accepted id memory).1.slotId = t.slotId := by
  unfold verify
  simp

end SlotTask

theorem Call.slotId_drainToken (m : LoadedModel) (c : Call) (callback : Bool) (id : ℤ) :
    (c.drainToken m callback id).task.slotId = c.task.slotId := by
  have htoken : (c.onToken m callback id).2.task.slotId = c.task.slotId := by
    unfold Call.onToken
    dsimp only
    split_ifs
    · rfl
    · rfl
    · split <;> rfl
    · split <;> rfl
  unfold Call.drainToken
  dsimp only
  split_ifs
  · exact htoken
  · exact htoken

theorem Call.sequenceId_updateSlot (c : Call) (slot : SlotState) :
    (c.updateSlot slot).sequenceId = slot.sequenceId := by
  unfold Call.updateSlot
  split_ifs <;> rfl

namespace View

variable {m : LoadedModel} {v v' : View}

/-- A step of a slot keeps its sequence, and the binding of the sequence while a call runs. -/
structure Keeps (v v' : View) : Prop where
  sequenceId : v'.slot.sequenceId = v.slot.sequenceId
  call : ∀ c', v'.call = some c' → ∃ c, v.call = some c ∧ c'.task.slotId = c.task.slotId
  held : v'.call.isSome → (v.slot.busy → v'.slot.busy) ∧
    (v.slot.sequenceBound → v'.slot.sequenceBound)

theorem keeps_of_schedule {guard : SlotTask → Bool}
    {f : SlotTask → Memory → Option (SlotTask × Memory)}
    (hf : ∀ t memory r, f t memory = some r → r.1.slotId = t.slotId)
    (h : v.schedule guard f = some v') : v.Keeps v' := by
  obtain ⟨c, hc, h⟩ := Option.bind_eq_some_iff.1 h
  split_ifs at h
  obtain ⟨r, hr, rfl⟩ := Option.map_eq_some_iff.1 h
  refine ⟨rfl, ?_, fun _ => ⟨id, id⟩⟩
  rintro c' hc'
  obtain rfl := Option.some.inj hc'
  exact ⟨c, hc, hf _ _ _ hr⟩

theorem keeps_of_schedule_total {guard : SlotTask → Bool}
    {f : SlotTask → Memory → SlotTask × Memory} (hf : ∀ t memory, (f t memory).1.slotId = t.slotId)
    (h : v.schedule guard (fun t memory => some (f t memory)) = some v') : v.Keeps v' := by
  apply keeps_of_schedule _ h
  intro t memory r hr
  obtain rfl := Option.some.inj hr
  exact hf t memory

theorem keeps_of_drain {callback : Bool} (h : v.step m (.drain callback) = some v') :
    v.Keeps v' := by
  obtain ⟨c, hc, h⟩ := Option.bind_eq_some_iff.1 h
  cases hq : c.task.outQueue with
  | nil => simp [hq] at h
  | cons event queue =>
      cases event with
      | token id =>
          simp only [hq, Option.some.injEq] at h
          subst h
          refine ⟨rfl, ?_, fun _ => ⟨fun hb => hb, fun hb => hb⟩⟩
          rintro c' hc'
          obtain rfl := Option.some.inj hc'
          exact ⟨c, hc, Call.slotId_drainToken m _ callback id⟩
      | done error =>
          cases error with
          | some error =>
              simp only [hq, Option.some.injEq] at h
              subst h
              exact ⟨rfl, by simp, fun _ => ⟨id, id⟩⟩
          | none =>
              simp only [hq, Option.some.injEq] at h
              subst h
              exact ⟨c.sequenceId_updateSlot v.slot, by simp, by simp⟩

theorem keeps_of_step {a : SlotAction} (h : v.step m a = some v') : v.Keeps v' := by
  cases a with
  | acquire =>
      simp only [step] at h
      split_ifs at h
      obtain rfl := Option.some.inj h
      exact ⟨rfl, fun c hc => ⟨c, hc, rfl⟩, fun _ => ⟨fun _ => rfl, id⟩⟩
  | release =>
      simp only [step] at h
      split_ifs at h with hcall
      obtain rfl := Option.some.inj h
      exact ⟨rfl, fun c hc => ⟨c, hc, rfl⟩, fun hcall' => absurd hcall' hcall⟩
  | extCancel =>
      obtain ⟨c, hc, rfl⟩ := Option.map_eq_some_iff.1 h
      refine ⟨rfl, ?_, fun _ => ⟨id, id⟩⟩
      rintro c' hc'
      obtain rfl := Option.some.inj hc'
      exact ⟨c, hc, rfl⟩
  | init it outcome =>
      simp only [step] at h
      exact keeps_of_schedule_total (fun t memory => by simp) h
  | media offsets =>
      simp only [step] at h
      exact keeps_of_schedule (fun t memory r hr => t.slotId_evalMedia hr) h
  | prefill it room captures id =>
      simp only [step] at h
      exact keeps_of_schedule_total (fun t memory => by simp) h
  | generate it id =>
      simp only [step] at h
      exact keeps_of_schedule_total (fun t memory => by simp) h
  | verify it draft accepted id =>
      simp only [step] at h
      exact keeps_of_schedule_total (fun t memory => by simp) h
  | cancel =>
      simp only [step] at h
      exact keeps_of_schedule_total (fun t memory => by simp) h
  | stop =>
      simp only [step] at h
      exact keeps_of_schedule_total (fun t memory => by simp) h
  | reject error =>
      simp only [step] at h
      exact keeps_of_schedule_total (fun t memory => by simp) h
  | evict =>
      simp only [step] at h
      split_ifs at h
      obtain rfl := Option.some.inj h
      exact ⟨rfl, fun c hc => ⟨c, hc, rfl⟩, fun _ => ⟨id, id⟩⟩
  | drain callback => exact keeps_of_drain h

end View

/-- A loaded model: what sizes its contexts, and its slots with their calls. -/
structure Wrapper where
  sizing : LlamaCppModel
  engine : Engine

inductive WrapperAction where
  /-- A step of a slot, of its call or of the scheduler for its task. -/
  | engine (action : Action)
  /-- The scheduler's thread has run, and may have failed. -/
  | scheduler (state : Option ContinuousBatchScheduler)
  | ensureRequestCapacity (demand : RequestDemand) (env : CapacityGrowth)
  | reclaimIdleContext (additionalReserveMb : ℤ) (env : ContextReclaim)

namespace Engine

def busySlots (s : Engine) : List Bool := (List.range s.nSlots).map fun i => (s.slots i).busy

/-- New contexts, with as many fresh slots. -/
def recreated (s : Engine) (nSlots : ℕ) : Engine :=
  { s with
    nSlots
    slots := fun i => { sequenceId := i }
    target := fun _ => []
    draft := fun _ => [] }

end Engine

namespace Wrapper

variable (m : LoadedModel) (w : Wrapper)

/-- What sizes the contexts, with the slots as they are now. -/
def sized : LlamaCppModel := { w.sizing with slots := w.engine.busySlots }

def recreate (sizing : LlamaCppModel) : Wrapper where
  sizing := sizing
  engine := w.engine.recreated sizing.slots.length

def step : WrapperAction → Option Wrapper
  | .engine action => (w.engine.step m action).map fun engine => { w with engine }
  | .scheduler state => some { w with sizing := { w.sizing with scheduler := state } }
  | .ensureRequestCapacity demand env =>
      match w.sized.growthPlan demand env with
      | .ok (some _) => some (w.recreate (w.sized.ensureRequestCapacity demand env).2)
      | _ => some w
  | .reclaimIdleContext additionalReserveMb env =>
      match w.sized.reclaimPlan additionalReserveMb env with
      | .ok (some _) => some (w.recreate (w.sized.reclaimIdleContext additionalReserveMb env).2)
      | _ => some w

end Wrapper

namespace Engine

/-- The invariant: different slots have different sequences, and a running call decodes into the
sequence bound to its slot. -/
structure Identity (s : Engine) : Prop where
  below : ∀ i < s.nSlots, (s.slots i).sequenceId < s.nSlots
  distinct : ∀ i < s.nSlots, ∀ j < s.nSlots,
    (s.slots i).sequenceId = (s.slots j).sequenceId → i = j
  calls : ∀ i c, s.calls i = some c → i < s.nSlots ∧ (s.slots i).busy ∧
    (s.slots i).sequenceBound ∧ (s.slots i).sequenceId = c.task.slotId

variable {m : LoadedModel} {s s' : Engine}

theorem identity_loaded (nSlots : ℕ) : (loaded nSlots).Identity where
  below _ hi := hi
  distinct _ _ _ _ h := h
  calls _ _ h := by simp [loaded] at h

@[simp] theorem put_slots_self (i : ℕ) (v : View) : (s.put i v).slots i = v.slot :=
  update_self ..

theorem put_slots_of_ne {i k : ℕ} (hk : k ≠ i) (v : View) : (s.put i v).slots k = s.slots k :=
  update_of_ne hk ..

@[simp] theorem put_calls_self (i : ℕ) (v : View) : (s.put i v).calls i = v.call :=
  update_self ..

theorem put_calls_of_ne {i k : ℕ} (hk : k ≠ i) (v : View) : (s.put i v).calls k = s.calls k :=
  update_of_ne hk ..

theorem Identity.onSlot (h : s.Identity) {i : ℕ} (hi : i < s.nSlots) {v : View}
    (hkeeps : (s.view i).Keeps v) : (s.put i v).Identity := by
  have hid : ∀ k, ((s.put i v).slots k).sequenceId = (s.slots k).sequenceId := by
    intro k
    by_cases hk : k = i
    · subst hk
      rw [put_slots_self]
      exact hkeeps.sequenceId
    · rw [put_slots_of_ne hk]
  constructor
  · intro k hk
    rw [hid]
    exact h.below k hk
  · intro k hk l hl heq
    rw [hid, hid] at heq
    exact h.distinct k hk l hl heq
  · intro k c hc
    by_cases hk : k = i
    · subst hk
      rw [put_calls_self] at hc
      obtain ⟨c₀, hc₀, hslotId⟩ := hkeeps.call c hc
      obtain ⟨-, hbusy, hbound, htask⟩ := h.calls k c₀ hc₀
      have hheld := hkeeps.held (Option.isSome_iff_exists.2 ⟨c, hc⟩)
      refine ⟨hi, ?_, ?_, ?_⟩
      · rw [put_slots_self]
        exact hheld.1 hbusy
      · rw [put_slots_self]
        exact hheld.2 hbound
      · rw [hid, htask, hslotId]
    · rw [put_calls_of_ne hk] at hc
      rw [put_slots_of_ne hk]
      exact h.calls k c hc

/-- The slot to take the sequence from is unbound, as the caller's own is. -/
theorem bestSlot_unbound (m : LoadedModel) (prompt : PreparedPrompt) {i : ℕ} (hi : i < s.nSlots)
    (hbound : (s.slots i).sequenceBound = false) :
    s.bestSlot m prompt i < s.nSlots ∧
      (s.slots (s.bestSlot m prompt i)).sequenceBound = false := by
  unfold bestSlot
  refine List.foldlRecOn
    (motive := fun best => best < s.nSlots ∧ (s.slots best).sequenceBound = false) _ _
    ⟨hi, hbound⟩ ?_
  intro best hbest j hj
  split_ifs with hboundj hlt
  · exact hbest
  · exact ⟨List.mem_range.1 hj, by simpa using hboundj⟩
  · exact hbest

/-- A swap exchanges the entries of two slots but for the busy flags. -/
theorem swapSlots_slots (i j k : ℕ) : (s.swapSlots i j).slots k =
    { s.slots (Equiv.swap i j k) with busy := (s.slots k).busy } := by
  simp only [swapSlots]
  by_cases hkj : k = j
  · subst hkj
    rw [update_self, Equiv.swap_apply_right]
  · rw [update_of_ne hkj]
    by_cases hki : k = i
    · subst hki
      rw [update_self, Equiv.swap_apply_left]
    · rw [update_of_ne hki, Equiv.swap_apply_of_ne_of_ne hki hkj]

theorem Identity.swapSlots (h : s.Identity) {i j : ℕ} (hi : i < s.nSlots) (hj : j < s.nSlots)
    (hboundi : (s.slots i).sequenceBound = false) (hboundj : (s.slots j).sequenceBound = false) :
    (s.swapSlots i j).Identity := by
  have hswap : ∀ k < s.nSlots, Equiv.swap i j k < s.nSlots := by
    intro k hk
    by_cases hki : k = i
    · rwa [hki, Equiv.swap_apply_left]
    · by_cases hkj : k = j
      · rwa [hkj, Equiv.swap_apply_right]
      · rwa [Equiv.swap_apply_of_ne_of_ne hki hkj]
  constructor
  · intro k hk
    rw [swapSlots_slots]
    exact h.below _ (hswap k hk)
  · intro k hk l hl heq
    rw [swapSlots_slots, swapSlots_slots] at heq
    exact (Equiv.swap i j).injective (h.distinct _ (hswap k hk) _ (hswap l hl) heq)
  · intro k c hc
    obtain ⟨hk, hbusy, hbound, htask⟩ := h.calls k c hc
    -- a bound slot is neither of the two
    have hki : k ≠ i := fun heq => by simp [heq ▸ hbound] at hboundi
    have hkj : k ≠ j := fun heq => by simp [heq ▸ hbound] at hboundj
    rw [swapSlots_slots, Equiv.swap_apply_of_ne_of_ne hki hkj]
    exact ⟨hk, hbusy, hbound, htask⟩

theorem Identity.bind (h : s.Identity) {i : ℕ} (hi : i < s.nSlots) (hbusy : (s.slots i).busy)
    (stream : Bool) (prompt : PreparedPrompt) : (s.bind i stream prompt).Identity := by
  have hid : ∀ k, ((s.bind i stream prompt).slots k).sequenceId = (s.slots k).sequenceId := by
    intro k
    by_cases hk : k = i
    · subst hk
      simp only [Engine.bind, update_self]
    · simp only [Engine.bind, update_of_ne hk]
  constructor
  · intro k hk
    rw [hid]
    exact h.below k hk
  · intro k hk l hl heq
    rw [hid, hid] at heq
    exact h.distinct k hk l hl heq
  · intro k c hc
    by_cases hk : k = i
    · subst hk
      simp only [Engine.bind, update_self, Option.some.injEq] at hc ⊢
      subst hc
      exact ⟨hi, hbusy, trivial, rfl⟩
    · simp only [Engine.bind, update_of_ne hk] at hc ⊢
      exact h.calls k c hc

/-- A call begins on the slot's own sequence, or on that of another unbound slot. -/
theorem start_cases {i : ℕ} {stream : Bool} {prompt : PreparedPrompt}
    (h : s.start m i stream prompt = some s') :
    i < s.nSlots ∧ (s.slots i).busy ∧ (s' = s.bind i stream prompt ∨
      ∃ j, j < s.nSlots ∧ (s.slots j).sequenceBound = false ∧
        (s.slots i).sequenceBound = false ∧ s' = (s.swapSlots i j).bind i stream prompt) := by
  unfold start at h
  dsimp only at h
  split_ifs at h with hguard hswap
  · push Not at hguard
    simp only [Bool.and_eq_true, Bool.not_eq_true', decide_eq_true_eq] at hswap
    obtain ⟨hbest, hunbound⟩ := bestSlot_unbound m prompt hguard.1 hswap.1.2
    refine ⟨hguard.1, by simpa using hguard.2.1, .inr ⟨_, hbest, hunbound, hswap.1.2, ?_⟩⟩
    exact (Option.some.inj h).symm
  · push Not at hguard
    exact ⟨hguard.1, by simpa using hguard.2.1, .inl (Option.some.inj h).symm⟩

theorem Identity.start (h : s.Identity) {i : ℕ} {stream : Bool} {prompt : PreparedPrompt}
    (hstart : s.start m i stream prompt = some s') : s'.Identity := by
  obtain ⟨hi, hbusy, rfl | ⟨j, hj, hboundj, hboundi, rfl⟩⟩ := start_cases hstart
  · exact h.bind hi hbusy stream prompt
  · refine (h.swapSlots hi hj hboundi hboundj).bind hi ?_ stream prompt
    rw [swapSlots_slots]
    exact hbusy

theorem Identity.step (h : s.Identity) {a : Action} (hstep : s.step m a = some s') :
    s'.Identity := by
  cases a with
  | start i stream prompt => exact h.start hstep
  | onSlot i action =>
      simp only [Engine.step] at hstep
      split_ifs at hstep with hi
      obtain ⟨v, hv, rfl⟩ := Option.map_eq_some_iff.1 hstep
      exact h.onSlot hi (View.keeps_of_step hv)

/-- New contexts are created only for slots that no call is running on. -/
theorem Identity.recreated (h : s.Identity) (hidle : ∀ busy ∈ s.busySlots, busy = false)
    (nSlots : ℕ) : (s.recreated nSlots).Identity where
  below _ hi := hi
  distinct _ _ _ _ heq := heq
  calls i c hc := by
    obtain ⟨hi, hbusy, -⟩ := h.calls i c hc
    have hmem : (s.slots i).busy ∈ s.busySlots :=
      List.mem_map.2 ⟨i, List.mem_range.2 hi, rfl⟩
    simp [hidle _ hmem] at hbusy

structure IdentityContract (s : Engine) (m : LoadedModel) : Prop where
  permutation : ((List.range s.nSlots).map fun i => (s.slots i).sequenceId).Perm
    (List.range s.nSlots)
  /-- No two calls in flight decode into the same sequence. -/
  inFlight : ∀ i j c c', s.calls i = some c → s.calls j = some c' →
    c.task.slotId = c'.task.slotId → i = j
  /-- The affinity swap of a new call leaves busy flags and bound slots alone. -/
  affinity : ∀ i stream prompt s', s.start m i stream prompt = some s' →
    ∀ j, (s'.slots j).busy = (s.slots j).busy ∧
      ((s.slots j).sequenceBound → s'.slots j = s.slots j)
  /-- When a task has ended, its call writes the record to the slot that has the task's sequence,
  unless the task has failed, and to no other. -/
  stored : ∀ i c callback error queue s', s.calls i = some c →
    c.task.outQueue = .done error :: queue → s.step m (.onSlot i (.drain callback)) = some s' →
      s'.calls i = none ∧ (s.slots i).sequenceId = c.task.slotId ∧
        s'.slots i = (if error = none then c.updateSlot (s.slots i) else s.slots i) ∧
        ∀ j ≠ i, s'.slots j = s.slots j

theorem Identity.permutation (h : s.Identity) :
    ((List.range s.nSlots).map fun i => (s.slots i).sequenceId).Perm (List.range s.nSlots) := by
  have hnodup : ((List.range s.nSlots).map fun i => (s.slots i).sequenceId).Nodup := by
    apply List.Nodup.map_on _ List.nodup_range
    intro i hi j hj heq
    exact h.distinct i (List.mem_range.1 hi) j (List.mem_range.1 hj) heq
  have hsub : ((List.range s.nSlots).map fun i => (s.slots i).sequenceId) ⊆
      List.range s.nSlots := by
    intro q hq
    obtain ⟨i, hi, rfl⟩ := List.mem_map.1 hq
    exact List.mem_range.2 (h.below i (List.mem_range.1 hi))
  exact (List.subperm_of_subset hnodup hsub).perm_of_length_le (by simp)

theorem bind_slots_of_ne {i j : ℕ} (hj : j ≠ i) (stream : Bool) (prompt : PreparedPrompt) :
    (s.bind i stream prompt).slots j = s.slots j :=
  update_of_ne hj ..

theorem busy_bind (i j : ℕ) (stream : Bool) (prompt : PreparedPrompt) :
    ((s.bind i stream prompt).slots j).busy = (s.slots j).busy := by
  by_cases hj : j = i
  · subst hj
    simp only [bind, update_self]
  · rw [bind_slots_of_ne hj]

theorem bind_slots_of_bound {i j : ℕ} (hbound : (s.slots j).sequenceBound) (stream : Bool)
    (prompt : PreparedPrompt) : (s.bind i stream prompt).slots j = s.slots j := by
  by_cases hj : j = i
  · subst hj
    simp only [bind, update_self, ← hbound]
  · exact bind_slots_of_ne hj stream prompt

theorem affinity_of_start {i : ℕ} {stream : Bool} {prompt : PreparedPrompt}
    (h : s.start m i stream prompt = some s') (j : ℕ) :
    (s'.slots j).busy = (s.slots j).busy ∧
      ((s.slots j).sequenceBound → s'.slots j = s.slots j) := by
  obtain ⟨-, -, rfl | ⟨k, -, hboundk, hboundi, rfl⟩⟩ := start_cases h
  · exact ⟨s.busy_bind i j stream prompt, fun hbound => bind_slots_of_bound hbound stream prompt⟩
  · refine ⟨by rw [busy_bind, swapSlots_slots], ?_⟩
    intro hbound
    have hji : j ≠ i := fun heq => by simp [heq ▸ hbound] at hboundi
    have hjk : j ≠ k := fun heq => by simp [heq ▸ hbound] at hboundk
    rw [bind_slots_of_ne hji, swapSlots_slots, Equiv.swap_apply_of_ne_of_ne hji hjk]

theorem Identity.stored (h : s.Identity) {i : ℕ} {c : Call} {callback : Bool}
    {error : Option String} {queue : List TokenEvent} (hc : s.calls i = some c)
    (hqueue : c.task.outQueue = .done error :: queue)
    (hstep : s.step m (.onSlot i (.drain callback)) = some s') :
    s'.calls i = none ∧ (s.slots i).sequenceId = c.task.slotId ∧
      s'.slots i = (if error = none then c.updateSlot (s.slots i) else s.slots i) ∧
      ∀ j ≠ i, s'.slots j = s.slots j := by
  simp only [Engine.step] at hstep
  split_ifs at hstep with hi
  obtain ⟨v, hv, rfl⟩ := Option.map_eq_some_iff.1 hstep
  have hslotId := (h.calls i c hc).2.2.2
  refine ⟨?_, hslotId, ?_, fun j hj => put_slots_of_ne hj v⟩
  · rw [put_calls_self]
    cases error <;> simp [View.step, view, hc, hqueue] at hv <;> simp [← hv]
  · rw [put_slots_self]
    cases error <;> simp [View.step, view, hc, hqueue] at hv <;> simp [← hv]

theorem Identity.contract (h : s.Identity) (m : LoadedModel) : s.IdentityContract m where
  permutation := h.permutation
  inFlight i j c c' hc hc' heq := by
    obtain ⟨hi, -, -, htask⟩ := h.calls i c hc
    obtain ⟨hj, -, -, htask'⟩ := h.calls j c' hc'
    exact h.distinct i hi j hj (htask.trans (heq.trans htask'.symm))
  affinity i stream prompt s' hstart j := affinity_of_start hstart j
  stored i c callback error queue s' hc hqueue hstep := h.stored hc hqueue hstep

end Engine

namespace Wrapper

variable {m : LoadedModel} {w w' : Wrapper}

theorem identity_step {a : WrapperAction} (h : w.engine.Identity) (hstep : w.step m a = some w') :
    w'.engine.Identity := by
  cases a with
  | engine action =>
      obtain ⟨s', hs', rfl⟩ := Option.map_eq_some_iff.1 hstep
      exact h.step hs'
  | scheduler state =>
      obtain rfl := Option.some.inj hstep
      exact h
  | ensureRequestCapacity demand env =>
      simp only [step] at hstep
      split at hstep
      next hplan =>
        obtain rfl := Option.some.inj hstep
        exact h.recreated (LlamaCppModel.idle_of_growthPlan hplan) _
      next =>
        obtain rfl := Option.some.inj hstep
        exact h
  | reclaimIdleContext additionalReserveMb env =>
      simp only [step] at hstep
      split at hstep
      next hplan =>
        obtain rfl := Option.some.inj hstep
        exact h.recreated (LlamaCppModel.idle_of_reclaimPlan hplan) _
      next =>
        obtain rfl := Option.some.inj hstep
        exact h

def textModel : LoadedModel where
  speculative := false
  draftShares := false
  recurrent := false
  nBatch := 512
  mtpMaxActiveRequests := 0
  draftMargin := 0
  isEog id := id == 2
  tokenToPiece _ := [65]

def shortPrompt : PreparedPrompt where
  promptTokens := [1]
  promptPositionCount := 1
  maxTokens := 8
  checkpointCapturePos := 0
  media_iff := by decide
  text_positions _ := rfl
  media_positions text _ h := by
    have hmem : tokenNull ∈ [(1 : ℤ)] := h.subset (by simp)
    simp [tokenNull] at hmem
  media_capture h := absurd rfl h

/-- A request leaves its prompt in the sequence of slot 0; the next one gets slot 1 and takes that
sequence over from the client that has got slot 0 meanwhile. -/
def affinityRun : List WrapperAction :=
  [.engine (.onSlot 0 .acquire), .engine (.start 0 false shortPrompt),
    .engine (.onSlot 0 (.init { runnable := 1 } {})),
    .engine (.onSlot 0 (.prefill { runnable := 1 } 8 {} 2)), .engine (.onSlot 0 (.drain true)),
    .engine (.onSlot 0 .release), .engine (.onSlot 0 .acquire), .engine (.onSlot 1 .acquire),
    .engine (.start 1 false shortPrompt)]

end Wrapper

end InferDeck.LlamaWrapper.SlotCache
