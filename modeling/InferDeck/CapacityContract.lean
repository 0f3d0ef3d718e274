import InferDeck.ContextRebuild

/-!
# The contract of growing and giving back contexts

What `ensure_request_capacity` and `reclaim_idle_context` leave of a model after each of their
answers, and that their integers stay in range.
-/

namespace InferDeck.LlamaWrapper

open InferDeck.Foundation InferDeck.Model

namespace LlamaCppModel

/-! ### The integers -/

def IsInt (value : ℤ) : Prop := intMin ≤ value ∧ value ≤ intMax

/-- The result of an operation on `int`, or nothing where it overflows. -/
def inInt (value : ℤ) : Option ℤ := if intMin ≤ value ∧ value ≤ intMax then some value else none

/-- The result of an operation on `std::int64_t`. -/
def inLong (value : ℤ) : Option ℤ :=
  if -9223372036854775808 ≤ value ∧ value ≤ 9223372036854775807 then some value else none

section Arithmetic

variable (m : LlamaCppModel)

/-- `requested_capacity_wide`, `own_capacity_wide` and `minimum_pool_wide` of a context size. -/
def withMargin (context : ℤ) : Option ℤ := inLong (context + m.draftMargin)

def maximumWide : Option ℤ := do
  let contexts ← inLong (m.ctxPerSlot * max 1 (max 1 m.sequenceCapacityLimit))
  inLong (contexts + m.draftMargin)

def alignUp (value : ℤ) : Option ℤ := do
  let alignment := max 1 m.cfg.nBatch
  let sum ← inLong (value + alignment)
  let last ← inLong (sum - 1)
  let rounded ← inLong (last / alignment * alignment)
  return min rounded intMax

def geometric (current : ℤ) : Option ℤ :=
  if intMax / 2 < current then some intMax else inInt (current * 2)

def targetCapacity (requested current : ℤ) : Option ℤ := do
  let maximum ← m.maximumWide
  if current < requested then
    let aligned ← m.alignUp requested
    let doubled ← m.alignUp (← geometric current)
    return min maximum (max aligned doubled)
  else return min maximum current

/-- `effective_reserve`, unless the reserve is refused. -/
def effectiveReserve (additionalReserveMb : ℤ) : Option (Option ℤ) := do
  let most ← inInt (intMax - m.cfg.vramSafetyMarginMb)
  if most < additionalReserveMb then return none
  else return some (← inInt (m.cfg.vramSafetyMarginMb + additionalReserveMb))

/-- The capacity to try where the preflight cannot probe, unless there is nothing to give back. -/
def deferredMaximum (oldCapacity : ℤ) : Option (Option ℤ) := do
  let spare ← inInt (oldCapacity - m.minimumPool)
  if spare < 256 then return none
  else return some (← inInt (oldCapacity - 256))

/-- The settings are `int`s, and the margin is one that the configuration allows. -/
structure Configured : Prop where
  contextSize : IsInt m.info.contextSize
  nBatch : IsInt m.cfg.nBatch
  margin : 0 ≤ m.cfg.vramSafetyMarginMb ∧ m.cfg.vramSafetyMarginMb ≤ intMax
  limit : IsInt m.sequenceCapacityLimit

/-- No integer of a growth or of a reclamation leaves the range of its type. -/
structure NoOverflow : Prop where
  withMargin : ∀ context, IsInt context → m.withMargin context = some (context + m.draftMargin)
  initial : m.withMargin m.initialCtxPerSlot = some m.minimumPool
  maximum : m.maximumWide = some m.maximumCapacity
  target : ∀ requested current, IsInt requested → 0 ≤ current → current ≤ intMax →
    m.targetCapacity requested current = some (m.growthTarget requested current)
  reserve : ∀ additional, 0 ≤ additional → additional ≤ intMax →
    ∃ reserve, m.effectiveReserve additional = some reserve
  deferred : ∀ capacity, 0 ≤ capacity → capacity ≤ intMax → m.minimumPool ≤ intMax →
    ∃ maximum, m.deferredMaximum capacity = some maximum

variable {m}

theorem inLong_eq {value : ℤ} (h : -9223372036854775808 ≤ value ∧ value ≤ 9223372036854775807) :
    inLong value = some value := if_pos h

theorem inInt_eq {value : ℤ} (h : IsInt value) : inInt value = some value := if_pos h

theorem draftMargin_le : m.draftMargin ≤ 4 := by
  unfold draftMargin
  split_ifs <;> omega

theorem ctxPerSlot_bounds (h : m.Configured) : 512 ≤ m.ctxPerSlot ∧ m.ctxPerSlot ≤ intMax := by
  have hsize := h.contextSize.2
  unfold ctxPerSlot intMax at *
  omega

theorem initialCtxPerSlot_bounds (h : m.Configured) :
    512 ≤ m.initialCtxPerSlot ∧ m.initialCtxPerSlot ≤ intMax := by
  have hslot := ctxPerSlot_bounds h
  have hbatch := h.nBatch.2
  unfold initialCtxPerSlot
  unfold intMax at *
  split_ifs <;> omega

theorem maximumWide_eq (h : m.Configured) : m.maximumWide = some m.maximumCapacity := by
  have hslot := ctxPerSlot_bounds h
  have hlimit := h.limit.2
  have hmargin := draftMargin_le (m := m)
  have hpositive := draftMargin_nonneg (m := m)
  have hslots : 1 ≤ max 1 (max 1 m.sequenceCapacityLimit) ∧
      max 1 (max 1 m.sequenceCapacityLimit) ≤ intMax := by
    unfold intMax at *
    omega
  have hleast : 0 ≤ m.ctxPerSlot * max 1 (max 1 m.sequenceCapacityLimit) :=
    mul_nonneg (by omega) (by omega)
  have hmost : m.ctxPerSlot * max 1 (max 1 m.sequenceCapacityLimit) ≤ intMax * intMax :=
    mul_le_mul hslot.2 hslots.2 (by omega) (by decide)
  unfold maximumWide
  rw [inLong_eq (by unfold intMax at hmost; omega)]
  exact inLong_eq (by unfold intMax at hmost; omega)

theorem alignUp_eq (h : m.Configured) {value : ℤ} (hvalue : 0 ≤ value ∧ value ≤ intMax) :
    m.alignUp value = some (min ((value + max 1 m.cfg.nBatch - 1) / max 1 m.cfg.nBatch *
      max 1 m.cfg.nBatch) intMax) := by
  have hbatch := h.nBatch.2
  unfold alignUp
  generalize halignment : max 1 m.cfg.nBatch = alignment
  have hbounds : 1 ≤ alignment ∧ alignment ≤ intMax := by
    unfold intMax at *
    omega
  have hleast : 0 ≤ (value + alignment - 1) / alignment * alignment :=
    mul_nonneg (Int.ediv_nonneg (by omega) (by omega)) (by omega)
  have hmost : (value + alignment - 1) / alignment * alignment ≤ value + alignment - 1 :=
    Int.ediv_mul_le _ (by omega)
  unfold intMax at hvalue hbounds
  dsimp only
  rw [inLong_eq (by omega)]
  dsimp only [Option.bind_eq_bind, Option.bind_some]
  rw [inLong_eq (by omega)]
  dsimp only [Option.bind_eq_bind, Option.bind_some]
  rw [inLong_eq (by omega)]
  rfl

theorem geometric_eq {current : ℤ} (hcurrent : 0 ≤ current ∧ current ≤ intMax) :
    geometric current = some (if intMax / 2 < current then intMax else current * 2) := by
  unfold geometric
  split_ifs with hlarge
  · rfl
  · refine inInt_eq ?_
    unfold IsInt intMin intMax at *
    omega

theorem targetCapacity_eq (h : m.Configured) {requested current : ℤ} (hrequested : IsInt requested)
    (hcurrent : 0 ≤ current ∧ current ≤ intMax) :
    m.targetCapacity requested current = some (m.growthTarget requested current) := by
  have hdoubled : 0 ≤ (if intMax / 2 < current then intMax else current * 2) ∧
      (if intMax / 2 < current then intMax else current * 2) ≤ intMax := by
    unfold intMax at *
    split_ifs <;> omega
  unfold targetCapacity growthTarget
  rw [maximumWide_eq h, geometric_eq hcurrent]
  dsimp only [Option.bind_eq_bind, Option.bind_some]
  generalize (if intMax / 2 < current then intMax else current * 2) = doubled at hdoubled ⊢
  by_cases hgrows : current < requested
  · rw [if_pos hgrows, if_pos hgrows, alignUp_eq h ⟨by omega, hrequested.2⟩, alignUp_eq h hdoubled]
    rfl
  · rw [if_neg hgrows, if_neg hgrows]
    rfl

theorem effectiveReserve_eq (h : m.Configured) {additional : ℤ} (hadditional : 0 ≤ additional) :
    ∃ reserve, m.effectiveReserve additional = some reserve := by
  have hmargin := h.margin
  unfold effectiveReserve
  rw [inInt_eq (by unfold IsInt intMin intMax at *; omega)]
  dsimp only [Option.bind_eq_bind, Option.bind_some]
  by_cases hrefused : intMax - m.cfg.vramSafetyMarginMb < additional
  · rw [if_pos hrefused]
    exact ⟨none, rfl⟩
  · rw [if_neg hrefused, inInt_eq (by unfold IsInt intMin intMax at *; omega)]
    exact ⟨_, rfl⟩

theorem deferredMaximum_eq (h : m.Configured) {capacity : ℤ}
    (hcapacity : 0 ≤ capacity ∧ capacity ≤ intMax) (hminimum : m.minimumPool ≤ intMax) :
    ∃ maximum, m.deferredMaximum capacity = some maximum := by
  have hinitial := (initialCtxPerSlot_bounds h).1
  have hmargin := draftMargin_nonneg (m := m)
  have hleast : 512 ≤ m.minimumPool := by
    unfold minimumPool
    omega
  unfold deferredMaximum
  rw [inInt_eq (by unfold IsInt intMin intMax at *; omega)]
  dsimp only [Option.bind_eq_bind, Option.bind_some]
  by_cases hnothing : capacity - m.minimumPool < 256
  · rw [if_pos hnothing]
    exact ⟨none, rfl⟩
  · rw [if_neg hnothing, inInt_eq (by unfold IsInt intMin intMax at *; omega)]
    exact ⟨_, rfl⟩

theorem noOverflow (h : m.Configured) : m.NoOverflow where
  withMargin context hcontext := by
    have hmargin := draftMargin_nonneg (m := m)
    have hmost := draftMargin_le (m := m)
    unfold IsInt intMin intMax at hcontext
    exact inLong_eq (by omega)
  initial := by
    have hinitial := initialCtxPerSlot_bounds h
    have hmargin := draftMargin_nonneg (m := m)
    have hmost := draftMargin_le (m := m)
    unfold intMax at hinitial
    exact inLong_eq (by omega)
  maximum := maximumWide_eq h
  target requested current hrequested hleast hmost :=
    targetCapacity_eq h hrequested ⟨hleast, hmost⟩
  reserve additional hleast _ := effectiveReserve_eq h hleast
  deferred capacity hleast hmost hminimum := deferredMaximum_eq h ⟨hleast, hmost⟩ hminimum

end Arithmetic

/-! ### The answers -/

/-- What a successful `ensure_request_capacity` leaves, `old` being the context before. -/
structure Grown (m : LlamaCppModel) (demand : RequestDemand) (env : CapacityGrowth)
    (old : LlamaContext) (m' : LlamaCppModel) (ctx : LlamaContext) : Prop where
  capacity : m.requestedCapacity demand ≤ ctx.nCtx
  sequences : requestedSequences demand ≤ m'.slots.length
  /-- A demand that fits changes nothing. -/
  unchanged : m.requestedCapacity demand ≤ old.nCtx ∧
    requestedSequences demand ≤ m.slots.length → m' = m
  /-- Only a demand for nothing but sequences may take capacity away. -/
  kept : old.nCtx < m.requestedCapacity demand ∨ requestedSequences demand ≤ m.slots.length →
    old.nCtx ≤ ctx.nCtx
  slots : ∀ nCtx, env.growth.Sized nCtx → m.Created nCtx → m.slots.length ≤ m'.slots.length

/-- What `ensure_request_capacity` leaves after its answer. -/
structure GrowthContract (m : LlamaCppModel) (demand : RequestDemand) (env : CapacityGrowth) :
    Prop where
  ok : (m.ensureRequestCapacity demand env).1 = .ok () →
    ∃ old ctx, m.sharedCtx = some old ∧
      (m.ensureRequestCapacity demand env).2.sharedCtx = some ctx ∧
      Grown m demand env old (m.ensureRequestCapacity demand env).2 ctx
  failed : ∀ failure, (m.ensureRequestCapacity demand env).1 = .error failure →
    (m.ensureRequestCapacity demand env).2 = m ∨
      ∃ ctx, m.sharedCtx = some ctx ∧ (Recovers m env.recovery ctx.nCtx →
        Restored m env.recovery ctx.nCtx (m.ensureRequestCapacity demand env).2)
  busy : true ∈ m.slots → (m.ensureRequestCapacity demand env).2 = m

/-- New contexts that are no smaller than the old ones. -/
structure NoGain (m : LlamaCppModel) (capacity : ℤ) (m' : LlamaCppModel) : Prop where
  usable : Usable m'
  capacity : capacity ≤ m'.poolCapacity
  sequences : 0 < m.slots.length → m'.slots.length = m.slots.length

/-- What `reclaim_idle_context` leaves after its answer. -/
structure ReclaimContract (m : LlamaCppModel) (reserve : ℤ) (env : ContextReclaim) : Prop where
  reclaimed : (m.reclaimIdleContext reserve env).1 = .ok true →
    Usable (m.reclaimIdleContext reserve env).2
  kept : (m.reclaimIdleContext reserve env).1 ≠ .ok true →
    (m.reclaimIdleContext reserve env).2 = m ∨
      ∃ ctx, m.sharedCtx = some ctx ∧
        ((m.reclaimIdleContext reserve env).1 = .ok false ∧
            NoGain m ctx.nCtx (m.reclaimIdleContext reserve env).2 ∨
          (Recovers m env.recovery ctx.nCtx →
            Restored m env.recovery ctx.nCtx (m.reclaimIdleContext reserve env).2))
  busy : true ∈ m.slots → (m.reclaimIdleContext reserve env).2 = m

section Growth

variable {m : LlamaCppModel} {demand : RequestDemand} {env : CapacityGrowth}

theorem growContexts_restores {requestedCapacity requestedSequences current : ℤ} {failure : Error}
    (h : (m.growContexts env requestedCapacity requestedSequences current).1 = .error failure)
    (hrecovers : Recovers m env.recovery current) :
    Restored m env.recovery current
      (m.growContexts env requestedCapacity requestedSequences current).2 := by
  unfold growContexts at h ⊢
  dsimp only at h ⊢
  split at h
  · obtain ⟨hinfo, hcfg, hloaded⟩ := leftByInit_settings _ env.growth _
    exact recoverContexts_restores hinfo hcfg hloaded hrecovers
  · rename_i grown hgrown
    obtain ⟨hinfo, hcfg, hloaded, _⟩ := initSharedContextLocked_spec hgrown
    by_cases hsmall : grown.poolCapacity < requestedCapacity ∨
        grown.sequenceCapacity < requestedSequences
    · rw [if_pos hsmall]
      exact recoverContexts_restores hinfo hcfg hloaded hrecovers
    · rw [if_neg hsmall] at h
      cases h

/-- A growth keeps the slots. It gives sequences up only at the smallest pool, which is no larger
than the context it replaces, so that only sequences can have been demanded. -/
theorem growContexts_slots {requestedCapacity requestedSequences : ℤ} {old : LlamaContext}
    {m' : LlamaCppModel} {nCtx : ℤ → ℤ} (hsized : env.growth.Sized nCtx) (hcreated : m.Created nCtx)
    (hauto : m.info.contextPoolAuto = true) (hold : m.sharedCtx = some old)
    (hpositive : 0 < requestedSequences)
    (hsmall : ¬ (requestedCapacity ≤ old.nCtx ∧ requestedSequences ≤ m.slots.length))
    (h : m.growContexts env requestedCapacity requestedSequences old.nCtx = (.ok (), m')) :
    m.slots.length ≤ m'.slots.length := by
  unfold growContexts at h
  dsimp only at h
  split at h
  · exact absurd h recoverContexts_ne_ok
  · rename_i grown hinit
    obtain ⟨_, _, _, ctx, hruns, hpool, hslots⟩ := initSharedContextLocked_spec hinit
    split_ifs at h with hbelow
    · exact absurd h recoverContexts_ne_ok
    · obtain ⟨_, rfl⟩ := Prod.mk.inj h
      obtain ⟨contexts, _, hcontexts, rfl⟩ := initSharedContextLocked_eq hinit
      obtain ⟨_, _, _, _, hallocated⟩ := initContexts_ok hcontexts
      simp only [Option.isNone_some, Bool.and_false, Bool.false_eq_true, if_false] at hallocated
      obtain ⟨_, _, hshared, _, _, hall | hleast⟩ := attempt_of_allocateContexts hallocated
      · change contexts.nSlots = max 1 (if 0 < max (m.slots.length : ℤ) requestedSequences then
          max (m.slots.length : ℤ) requestedSequences else m.info.nSlots) at hall
        change ((List.replicate contexts.nSlots.toNat false).length : ℤ) =
          max 0 contexts.nSlots at hslots
        rw [if_pos (by omega)] at hall
        dsimp only
        omega
      · have hlarge := minimumPool_le_of_created hcreated hauto hold
        have hfew : contexts.shared.nCtx ≤ nCtx m.minimumPool := by
          rw [hsized.shared _ _ _ _ hshared]
          exact hsized.monotone hleast
        obtain rfl : contexts.shared = ctx := Option.some.inj hruns.sharedCtx
        dsimp only at hpool hslots hbelow ⊢
        omega

theorem growthContract (m : LlamaCppModel) (demand : RequestDemand) (env : CapacityGrowth) :
    GrowthContract m demand env := by
  have heq := ensureRequestCapacity_eq (m := m) demand env
  cases hplan : m.growthPlan demand env with
  | error e =>
      rw [hplan] at heq
      refine ⟨fun hok => ?_, fun _ _ => ?_, fun _ => ?_⟩
      · rw [heq] at hok
        cases hok
      · rw [heq]
        exact Or.inl rfl
      · rw [heq]
  | ok plan =>
      rw [hplan] at heq
      obtain ⟨hdemand, ctx, hctx, ⟨rfl, henough⟩ | ⟨rfl, hgrowth, hsmall⟩⟩ := growthPlan_spec hplan
      · refine ⟨fun _ => ?_, fun _ hfailed => ?_, fun _ => ?_⟩
        · rw [heq]
          exact ⟨ctx, ctx, hctx, hctx, henough.1, henough.2, fun _ => rfl, fun _ => le_rfl,
            fun _ _ _ => le_rfl⟩
        · rw [heq] at hfailed
          cases hfailed
        · rw [heq]
      · dsimp only at heq
        refine ⟨fun hok => ?_, fun failure hfailed => ?_, fun hbusy => ?_⟩
        · rw [heq] at hok ⊢
          have hpositive : 0 < requestedSequences demand :=
            lt_of_lt_of_le (requiredSequences_pos hdemand) (le_max_left _ _)
          obtain ⟨_, _, ctx', hruns, hcapacity, hsequences⟩ :=
            growContexts_ok hpositive (Prod.ext hok rfl)
          refine ⟨ctx, ctx', hctx, hruns.sharedCtx, hcapacity, hsequences,
            fun henough => absurd henough hsmall, fun hdemanded => ?_,
            fun nCtx hsized hcreated => ?_⟩
          · omega
          · exact growContexts_slots hsized hcreated (checkGrowth_spec hgrowth).1 hctx hpositive
              hsmall (Prod.ext hok rfl)
        · rw [heq] at hfailed ⊢
          exact Or.inr ⟨ctx, hctx, growContexts_restores hfailed⟩
        · cases idle_of_growthPlan hplan true hbusy

end Growth

section Reclaim

variable {m : LlamaCppModel} {reserve : ℤ} {env : ContextReclaim}

theorem recreateContexts_reclaims {oldCapacity maximum : ℤ}
    (h : (m.recreateContexts env oldCapacity maximum).1 = .ok true) :
    Usable (m.recreateContexts env oldCapacity maximum).2 := by
  unfold recreateContexts at h ⊢
  dsimp only at h ⊢
  split at h
  · unfold recoverIdleContexts at h
    dsimp only at h
    split at h
    · split_ifs at h
      simp at h
    · cases h
  · rename_i resized hresized
    by_cases hnothing : oldCapacity ≤ resized.poolCapacity ∧ (m.slots.length : ℤ) ≤ m.targetSequences
    · rw [if_pos hnothing] at h
      simp at h
    · rw [if_neg hnothing] at h ⊢
      cases hafter : env.afterMemory with
      | error failure =>
          rw [hafter] at h
          unfold recoverIdleContexts at h
          dsimp only at h
          split at h <;> cases h
      | ok bytes => exact (usable_of_init hresized).2.1

/-- New contexts that are no smaller have as many sequences as the old ones. -/
theorem noGain_of_init {m' : LlamaCppModel} {oldCapacity maximum : ℤ}
    (h : (m.clearIdleContexts m.targetSequences).initSharedContextLocked env.resized
      (some maximum) = .ok m')
    (hcapacity : oldCapacity ≤ m'.poolCapacity)
    (hsequences : (m.slots.length : ℤ) ≤ m.targetSequences) : NoGain m oldCapacity m' := by
  obtain ⟨_, husable, _, hkept⟩ := usable_of_init h
  refine ⟨husable, hcapacity, fun hpos => ?_⟩
  have htarget : m.targetSequences = m.slots.length ∧
      (m.info.concurrencyAuto = false ∨ m.targetSequences ≤ 1) := by
    unfold targetSequences at hsequences ⊢
    cases hauto : m.info.concurrencyAuto with
    | false => exact ⟨if_neg Bool.false_ne_true, Or.inl rfl⟩
    | true =>
        rw [hauto, if_pos rfl] at hsequences
        rw [if_pos rfl]
        exact ⟨by omega, Or.inr le_rfl⟩
  have hslots : (m.clearIdleContexts m.targetSequences).nSlots = m.slots.length := by
    change (if 0 < m.targetSequences then m.targetSequences else m.info.nSlots) = _
    rw [htarget.1, if_pos (by omega)]
  rw [hslots, max_eq_right (by omega)] at hkept
  have hlength := hkept <| by
    obtain hfixed | hone := htarget.2
    · exact Or.inl hfixed
    · exact Or.inr (Or.inl (htarget.1 ▸ hone))
  omega

theorem recreateContexts_keeps {oldCapacity maximum : ℤ}
    (h : (m.recreateContexts env oldCapacity maximum).1 ≠ .ok true) :
    (m.recreateContexts env oldCapacity maximum).1 = .ok false ∧
        NoGain m oldCapacity (m.recreateContexts env oldCapacity maximum).2 ∨
      (Recovers m env.recovery oldCapacity → Restored m env.recovery oldCapacity
        (m.recreateContexts env oldCapacity maximum).2) := by
  unfold recreateContexts at h ⊢
  dsimp only at h ⊢
  split at h
  · obtain ⟨hinfo, hcfg, hloaded⟩ := leftByInit_settings _ env.resized _
    exact Or.inr (recoverIdleContexts_restores hinfo hcfg hloaded)
  · rename_i resized hresized
    obtain ⟨hinfo, hcfg, hloaded, _⟩ := initSharedContextLocked_spec hresized
    by_cases hnothing : oldCapacity ≤ resized.poolCapacity ∧ (m.slots.length : ℤ) ≤ m.targetSequences
    · rw [if_pos hnothing]
      exact Or.inl ⟨rfl, noGain_of_init hresized hnothing.1 hnothing.2⟩
    · rw [if_neg hnothing] at h ⊢
      cases hafter : env.afterMemory with
      | error failure =>
          exact Or.inr (recoverIdleContexts_restores hinfo hcfg hloaded)
      | ok bytes =>
          rw [hafter] at h
          exact absurd rfl h

theorem reclaimContract (m : LlamaCppModel) (reserve : ℤ) (env : ContextReclaim) :
    ReclaimContract m reserve env := by
  cases hplan : m.reclaimPlan reserve env with
  | error failure =>
      have heq : m.reclaimIdleContext reserve env = (.error failure, m) := by
        unfold reclaimIdleContext
        rw [hplan]
      refine ⟨fun hok => ?_, fun _ => ?_, fun _ => ?_⟩
      · rw [heq] at hok
        cases hok
      · rw [heq]
        exact Or.inl rfl
      · rw [heq]
  | ok plan =>
      cases plan with
      | none =>
          have heq : m.reclaimIdleContext reserve env = (.ok false, m) := by
            unfold reclaimIdleContext
            rw [hplan]
          refine ⟨fun hok => ?_, fun _ => ?_, fun _ => ?_⟩
          · rw [heq] at hok
            simp at hok
          · rw [heq]
            exact Or.inl rfl
          · rw [heq]
      | some plan =>
          obtain ⟨oldCapacity, maximum⟩ := plan
          have heq : m.reclaimIdleContext reserve env =
              m.recreateContexts env oldCapacity maximum := by
            unfold reclaimIdleContext
            rw [hplan]
          obtain ⟨⟨ctx, hctx, rfl⟩, _⟩ := reclaimPlan_spec hplan
          refine ⟨fun hok => ?_, fun hkept => ?_, fun hbusy => ?_⟩
          · rw [heq] at hok ⊢
            exact recreateContexts_reclaims hok
          · rw [heq] at hkept ⊢
            exact Or.inr ⟨ctx, hctx, recreateContexts_keeps hkept⟩
          · cases idle_of_reclaimPlan hplan true hbusy

end Reclaim

/-- What every call leaves behind, and that its integers stay in range. -/
theorem rebuild_contract (m : LlamaCppModel) :
    (∀ demand env, GrowthContract m demand env) ∧ (∀ reserve env, ReclaimContract m reserve env) ∧
      (m.Configured → m.NoOverflow) :=
  ⟨growthContract m, reclaimContract m, noOverflow⟩

def automaticPool (capacity : ℤ) (slots : List Bool) : LlamaCppModel where
  info := { contextSize := 512, contextPoolAuto := true, concurrencyAuto := true }
  cfg := { kvUnified := true }
  loaded := true
  sharedCtx := some ⟨capacity, capacity, slots.length⟩
  slots
  scheduler := some {
    contextCapacity := capacity
    draftContextCapacity := none
    draftMargin := 0
    sequenceCount := slots.length }
  sequenceCapacity := slots.length
  sequenceCapacityLimit := 4
  poolCapacity := capacity

def deviceWith (room : ℤ) : ContextAllocation where
  fit minimum maximum := if minimum ≤ min maximum room then .ok (min maximum room)
    else err .outOfMemory "no context fits"
  control _ := {}
  attempt _ total n := { shared := some ⟨total, total, n.toNat⟩ }
  maxParallelSequences := 4
  draftRemovesSequences := true
  speculative := .null

def onSmallDevice : CapacityGrowth := { growth := deviceWith 512, recovery := deviceWith 512 }

theorem sized_deviceWith (room : ℤ) : (deviceWith room).Sized id where
  monotone := monotone_id
  shared _ _ _ _ h := Option.some.inj h ▸ rfl
  fit least most capacity h := by
    unfold deviceWith at h
    dsimp only at h
    split_ifs at h with hfits
    · exact Except.ok.inj h ▸ hfits
    · exact absurd h err_ne_ok

theorem created_automaticPool : (automaticPool 512 [false]).Created id :=
  ⟨automaticPool 0 [], automaticPool 512 [false], deviceWith 512, none, rfl, rfl,
    sized_deviceWith 512, by decide +kernel, rfl⟩

def onLargeDevice : CapacityGrowth := { growth := deviceWith 1024, recovery := deviceWith 1024 }

def longDemand : RequestDemand := { requiredContext := 600 }

/-- A pool of 512 tokens grows for a request of 600 and keeps its slot. -/
theorem rebuild_contract_automaticPool :
    (automaticPool 1024 [false]).NoOverflow ∧
      ((automaticPool 512 [false]).ensureRequestCapacity longDemand onLargeDevice).1 = .ok () ∧
      ∃ ctx, Grown (automaticPool 512 [false]) longDemand onLargeDevice ⟨512, 512, 1⟩
          ((automaticPool 512 [false]).ensureRequestCapacity longDemand onLargeDevice).2 ctx ∧
        600 ≤ ctx.nCtx ∧
        1 ≤ ((automaticPool 512 [false]).ensureRequestCapacity longDemand
          onLargeDevice).2.slots.length := by
  have hok : ((automaticPool 512 [false]).ensureRequestCapacity longDemand onLargeDevice).1 =
      .ok () := by decide +kernel
  obtain ⟨old, ctx, hold, _, hgrown⟩ :=
    ((rebuild_contract (automaticPool 512 [false])).1 longDemand onLargeDevice).ok hok
  obtain rfl := Option.some.inj hold
  refine ⟨(rebuild_contract (automaticPool 1024 [false])).2.2
    ⟨⟨by decide, by decide⟩, ⟨by decide, by decide⟩, ⟨by decide, by decide⟩,
      ⟨by decide, by decide⟩⟩, hok, ctx, hgrown, hgrown.capacity, ?_⟩
  exact hgrown.slots id (sized_deviceWith 1024) created_automaticPool

/-- A busy slot stays busy after the error, a demand for sequences takes half of the capacity away,
and a margin below zero overflows. -/
theorem busyPool_notRestored :
    ((automaticPool 512 [true]).ensureRequestCapacity { requiredContext := 600 }
        onSmallDevice).1 = err .resourceBusy "cannot grow context while requests are active" ∧
      true ∈ ((automaticPool 512 [true]).ensureRequestCapacity { requiredContext := 600 }
        onSmallDevice).2.slots ∧
      ((automaticPool 1024 [false]).ensureRequestCapacity
        { requiredContext := 512, requiredSequences := 2 } onSmallDevice).1 = .ok () ∧
      ((automaticPool 1024 [false]).ensureRequestCapacity
        { requiredContext := 512, requiredSequences := 2 } onSmallDevice).2.poolCapacity < 1024 ∧
      ({ cfg := { vramSafetyMarginMb := -1 }, info := {} } : LlamaCppModel).effectiveReserve 1 =
        none := by
  refine ⟨?_, ?_, ?_, ?_, ?_⟩
  · decide +kernel
  · decide +kernel
  · decide +kernel
  · decide +kernel
  · rfl

end LlamaCppModel

end InferDeck.LlamaWrapper
