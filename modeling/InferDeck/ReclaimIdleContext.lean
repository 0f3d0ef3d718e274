import InferDeck.LlamaCppModel

/-!
# Giving back the context of an idle model

`reclaim_idle_context` frees the contexts of a model without busy slots and creates smaller ones,
or the old ones again where that fails. It and the growth of `ensure_request_capacity` are the
operations of a loaded model that create its slots anew.
-/

namespace InferDeck.LlamaWrapper

open InferDeck.Foundation InferDeck.Model

/-- The environment of `reclaim_idle_context`. -/
structure ContextReclaim where
  entry : LifecycleControl := {}
  beforeFit : LifecycleControl := {}
  beforeRecreation : LifecycleControl := {}
  /-- Device memory of the contexts in bytes, before and after. -/
  beforeMemory : Result ℕ
  afterMemory : Result ℕ
  /-- `fit_context_pool` with the smallest and greatest capacity and the reserve. -/
  preflight : ℤ → ℤ → ℤ → Result ℤ
  resized : ContextAllocation
  recovery : ContextAllocation

namespace LlamaCppModel

variable (m : LlamaCppModel)

def chatUnhealthy : Bool :=
  m.info.supports "chat_completions" && !(m.scheduler.any fun scheduler => scheduler.healthy)

def targetSequences : ℤ := if m.info.concurrencyAuto then 1 else m.slots.length

/-- What the checks of the arguments and the model leave to do: nothing, or to reclaim from a
context of the given capacity. -/
def checkReclaim (additionalReserveMb : ℤ) (control : LifecycleControl) : Result (Option ℤ) :=
  if additionalReserveMb < 0 then
    err .invalidArgument "additional context reclamation reserve cannot be negative"
  else if control.cancelled then err .cancelled "idle context reclamation cancelled"
  else if control.expired then err .timeout "idle context reclamation deadline expired"
  else
    match m.sharedCtx with
    | none => .ok none
    | some ctx =>
        if !m.loaded || !m.info.contextPoolAuto || !m.cfg.kvUnified ||
            decide (additionalReserveMb = 0) then .ok none
        else if m.chatUnhealthy then
          err .unavailable "cannot reclaim an unhealthy model context"
        else if m.slots.any id then
          err .unavailable "cannot reclaim context while slots are active"
        else if intMax - m.cfg.vramSafetyMarginMb < additionalReserveMb then
          err .invalidArgument "context reclamation reserve exceeds supported range"
        else if intMax < m.minimumPool then
          err .invalidArgument "context pool minimum exceeds supported range"
        else if intMax < ctx.nCtx then
          err .invalidArgument "current context capacity exceeds supported range"
        else if ctx.nCtx ≤ m.minimumPool ∧ (m.slots.length : ℤ) ≤ m.targetSequences then .ok none
        else .ok (some ctx.nCtx)

/-- The greatest capacity that the memory fitting allows, if a smaller one is to be tried. -/
def reclaimMaximum (additionalReserveMb oldCapacity : ℤ) (env : ContextReclaim) :
    Result (Option ℤ) :=
  match env.preflight m.minimumPool oldCapacity
      (m.cfg.vramSafetyMarginMb + additionalReserveMb) with
  | .ok maximum => .ok (some maximum)
  | .error failure =>
      if failure.code = .outOfMemory then .ok none
      else if failure.code ≠ .resourceBusy then .error failure
      else if oldCapacity - m.minimumPool < 256 then .ok none
      else .ok (some (oldCapacity - 256))

/-- The old capacity and the one to create the contexts with, if they are to be created anew. -/
def reclaimPlan (additionalReserveMb : ℤ) (env : ContextReclaim) : Result (Option (ℤ × ℤ)) :=
  match m.checkReclaim additionalReserveMb env.entry with
  | .error failure => .error failure
  | .ok none => .ok none
  | .ok (some oldCapacity) =>
      match env.beforeMemory with
      | .error failure => .error failure
      | .ok 0 => .ok none
      | .ok _ =>
          if env.beforeFit.stopped then
            err env.beforeFit.code (if env.beforeFit.cancelled then
              "idle context reclamation cancelled" else
              "idle context reclamation deadline expired")
          else
            match m.reclaimMaximum additionalReserveMb oldCapacity env with
            | .error failure => .error failure
            | .ok none => .ok none
            | .ok (some maximum) =>
                if env.beforeRecreation.stopped then
                  err env.beforeRecreation.code
                    "idle context reclamation cancelled or expired before recreation"
                else if oldCapacity ≤ maximum ∧ (m.slots.length : ℤ) ≤ m.targetSequences then
                  .ok none
                else .ok (some (oldCapacity, maximum))

def clearIdleContexts (sequenceCapacity : ℤ) : LlamaCppModel :=
  { m.clearContexts sequenceCapacity with slots := List.replicate m.slots.length false }

def recoverIdleContexts (env : ContextReclaim) (oldSequences oldCapacity : ℤ)
    (result : Result Bool) : Result Bool × LlamaCppModel :=
  let cleared := m.clearIdleContexts oldSequences
  match cleared.initSharedContextLocked env.recovery (some oldCapacity) with
  | .ok recovered => (result, recovered)
  | .error failure =>
      let left := cleared.leftByInit env.recovery (some oldCapacity)
      (.error failure, left.clearIdleContexts left.sequenceCapacity)

def recreateContexts (env : ContextReclaim) (oldCapacity maximum : ℤ) :
    Result Bool × LlamaCppModel :=
  let oldSequences : ℤ := m.slots.length
  let cleared := m.clearIdleContexts m.targetSequences
  match cleared.initSharedContextLocked env.resized (some maximum) with
  | .error failure =>
      (cleared.leftByInit env.resized (some maximum)).recoverIdleContexts env oldSequences oldCapacity
        (if failure.code = .cancelled ∨ failure.code = .timeout then .error failure else .ok false)
  | .ok resized =>
      if oldCapacity ≤ resized.poolCapacity ∧ oldSequences ≤ m.targetSequences then
        (.ok false, resized)
      else
        match env.afterMemory with
        | .error failure => resized.recoverIdleContexts env oldSequences oldCapacity (.error failure)
        | .ok _ => (.ok true, resized)

def reclaimIdleContext (additionalReserveMb : ℤ) (env : ContextReclaim) :
    Result Bool × LlamaCppModel :=
  match m.reclaimPlan additionalReserveMb env with
  | .error failure => (.error failure, m)
  | .ok none => (.ok false, m)
  | .ok (some (oldCapacity, maximum)) => m.recreateContexts env oldCapacity maximum

/-- The capacity that the checks of `ensure_request_capacity` let it grow from, if it is too
small. -/
def growthPlan (demand : RequestDemand) (env : CapacityGrowth) : Result (Option ℤ) :=
  match checkDemand demand env.entry, m.sharedCtx, m.loaded with
  | .error failure, _, _ => .error failure
  | .ok (), some ctx, true =>
      match m.checkRange demand with
      | .error failure => .error failure
      | .ok () =>
          if m.requestedCapacity demand ≤ ctx.nCtx ∧
              requestedSequences demand ≤ (m.slots.length : ℤ) then .ok none
          else
            match m.checkGrowth demand env.beforeGrowth ctx with
            | .error failure => .error failure
            | .ok () => .ok (some ctx.nCtx)
  | .ok (), _, _ => err .notFound "model is not loaded"

variable {m}

theorem ensureRequestCapacity_eq (demand : RequestDemand) (env : CapacityGrowth) :
    m.ensureRequestCapacity demand env =
      match m.growthPlan demand env with
      | .error failure => (.error failure, m)
      | .ok none => (.ok (), m)
      | .ok (some current) =>
          m.growContexts env (m.requestedCapacity demand) (requestedSequences demand) current := by
  unfold ensureRequestCapacity growthPlan proceed
  cases checkDemand demand env.entry with
  | error e => rfl
  | ok u =>
      cases m.sharedCtx with
      | none => rfl
      | some ctx =>
          cases m.loaded with
          | false => rfl
          | true =>
              cases m.checkRange demand with
              | error e => rfl
              | ok u =>
                  dsimp only
                  split_ifs
                  · rfl
                  · cases m.checkGrowth demand env.beforeGrowth ctx <;> rfl

theorem checkGrowth_spec {demand : RequestDemand} {control : LifecycleControl} {ctx : LlamaContext}
    (h : m.checkGrowth demand control ctx = .ok ()) :
    m.info.contextPoolAuto = true ∧ ∀ busy ∈ m.slots, busy = false := by
  unfold checkGrowth at h
  by_cases hfixed : (!m.info.concurrencyAuto || !m.info.contextPoolAuto || !m.cfg.kvUnified) = true
  · rw [if_pos hfixed] at h
    split_ifs at h <;> exact absurd h err_ne_ok
  · rw [if_neg hfixed] at h
    obtain ⟨_, h⟩ := ite_err_eq_ok.1 h
    obtain ⟨hidle, _⟩ := ite_err_eq_ok.1 h
    refine ⟨?_, fun busy hmem => ?_⟩
    · by_contra hpool
      simp [hpool] at hfixed
    · by_contra hbusy
      exact hidle (List.any_eq_true.2 ⟨busy, hmem, by simpa using hbusy⟩)

/-- The contexts are large enough for the demand, or they are not and may grow. -/
theorem growthPlan_spec {demand : RequestDemand} {env : CapacityGrowth} {plan : Option ℤ}
    (h : m.growthPlan demand env = .ok plan) :
    checkDemand demand env.entry = .ok () ∧ ∃ ctx, m.sharedCtx = some ctx ∧
      (plan = none ∧ m.requestedCapacity demand ≤ ctx.nCtx ∧
          requestedSequences demand ≤ (m.slots.length : ℤ) ∨
        plan = some ctx.nCtx ∧ m.checkGrowth demand env.beforeGrowth ctx = .ok () ∧
          ¬ (m.requestedCapacity demand ≤ ctx.nCtx ∧
            requestedSequences demand ≤ (m.slots.length : ℤ))) := by
  unfold growthPlan at h
  split at h
  · cases h
  · rename_i ctx hdemand hctx hloaded
    refine ⟨hdemand, ctx, hctx, ?_⟩
    split at h
    · cases h
    · split_ifs at h with henough
      · obtain rfl := Except.ok.inj h
        exact Or.inl ⟨rfl, henough⟩
      · split at h
        · cases h
        · rename_i hgrowth
          obtain rfl := Except.ok.inj h
          exact Or.inr ⟨rfl, hgrowth, henough⟩
  · exact absurd h err_ne_ok

/-- Contexts grow only in an automatic pool. -/
theorem automatic_of_growthPlan {demand : RequestDemand} {env : CapacityGrowth} {current : ℤ}
    (h : m.growthPlan demand env = .ok (some current)) : m.info.contextPoolAuto = true := by
  obtain ⟨_, ctx, _, ⟨hnone, _⟩ | ⟨_, hgrowth, _⟩⟩ := growthPlan_spec h
  · cases hnone
  · exact (checkGrowth_spec hgrowth).1

/-- Contexts grow only while no slot is busy. -/
theorem idle_of_growthPlan {demand : RequestDemand} {env : CapacityGrowth} {current : ℤ}
    (h : m.growthPlan demand env = .ok (some current)) : ∀ busy ∈ m.slots, busy = false := by
  obtain ⟨_, ctx, _, ⟨hnone, _⟩ | ⟨_, hgrowth, _⟩⟩ := growthPlan_spec h
  · cases hnone
  · exact (checkGrowth_spec hgrowth).2

theorem checkReclaim_spec {additionalReserveMb : ℤ} {control : LifecycleControl} {oldCapacity : ℤ}
    (h : m.checkReclaim additionalReserveMb control = .ok (some oldCapacity)) :
    (∃ ctx, m.sharedCtx = some ctx ∧ ctx.nCtx = oldCapacity) ∧
      ∀ busy ∈ m.slots, busy = false := by
  unfold checkReclaim at h
  obtain ⟨_, h⟩ := ite_err_eq_ok.1 h
  obtain ⟨_, h⟩ := ite_err_eq_ok.1 h
  obtain ⟨_, h⟩ := ite_err_eq_ok.1 h
  cases hctx : m.sharedCtx with
  | none =>
      rw [hctx] at h
      cases h
  | some ctx =>
      rw [hctx] at h
      dsimp only at h
      by_cases hfixed : (!m.loaded || !m.info.contextPoolAuto || !m.cfg.kvUnified ||
          decide (additionalReserveMb = 0)) = true
      · rw [if_pos hfixed] at h
        cases h
      · rw [if_neg hfixed] at h
        obtain ⟨_, h⟩ := ite_err_eq_ok.1 h
        obtain ⟨hidle, h⟩ := ite_err_eq_ok.1 h
        obtain ⟨_, h⟩ := ite_err_eq_ok.1 h
        obtain ⟨_, h⟩ := ite_err_eq_ok.1 h
        obtain ⟨_, h⟩ := ite_err_eq_ok.1 h
        split_ifs at h
        · cases h
        · refine ⟨⟨ctx, rfl, Option.some.inj (Except.ok.inj h)⟩, fun busy hmem => ?_⟩
          by_contra hbusy
          exact hidle (List.any_eq_true.2 ⟨busy, hmem, by simpa using hbusy⟩)

/-- A plan is about the old contexts, of a model without busy slots. -/
theorem reclaimPlan_spec {additionalReserveMb : ℤ} {env : ContextReclaim}
    {oldCapacity maximum : ℤ}
    (h : m.reclaimPlan additionalReserveMb env = .ok (some (oldCapacity, maximum))) :
    (∃ ctx, m.sharedCtx = some ctx ∧ ctx.nCtx = oldCapacity) ∧
      ∀ busy ∈ m.slots, busy = false := by
  unfold reclaimPlan at h
  cases hcheck : m.checkReclaim additionalReserveMb env.entry with
  | error failure =>
      rw [hcheck] at h
      cases h
  | ok found =>
      cases found with
      | none =>
          rw [hcheck] at h
          cases h
      | some capacity =>
          rw [hcheck] at h
          dsimp only at h
          split at h
          · cases h
          · cases h
          · obtain ⟨_, h⟩ := ite_err_eq_ok.1 h
            split at h
            · cases h
            · cases h
            · obtain ⟨_, h⟩ := ite_err_eq_ok.1 h
              split_ifs at h
              · cases h
              · obtain ⟨rfl, rfl⟩ := Prod.ext_iff.1 (Option.some.inj (Except.ok.inj h))
                exact checkReclaim_spec hcheck

/-- Contexts are given back only while no slot is busy. -/
theorem idle_of_reclaimPlan {additionalReserveMb : ℤ} {env : ContextReclaim} {plan : ℤ × ℤ}
    (h : m.reclaimPlan additionalReserveMb env = .ok (some plan)) :
    ∀ busy ∈ m.slots, busy = false :=
  (reclaimPlan_spec h).2

end LlamaCppModel

end InferDeck.LlamaWrapper
