import InferDeck.BoundedPool
import InferDeck.BackendCoordinator

/-!
# The shared context of a llama.cpp model

How a loaded model sizes the context that all its requests share, and what
`ensure_request_capacity` answers to a demand. What llama.cpp and the memory fitting report back is
the environment of a call.
-/

namespace InferDeck.LlamaWrapper

open InferDeck.Foundation InferDeck.Model

structure LlamaCppConfig where
  nBatch : ℤ := 512
  kvUnified : Bool := false
  mtpEnabled : Bool := false
  mtpDraftTokens : ℤ := 2
  truncatePrompt : Bool := true
  vramSafetyMarginMb : ℤ := 1024
  deriving DecidableEq

structure LlamaContext where
  nCtx : ℤ
  nCtxSeq : ℤ
  nSeqMax : ℕ
  deriving DecidableEq

structure LlamaCppModel where
  info : ModelInfo
  cfg : LlamaCppConfig := {}
  loaded : Bool := false
  sharedCtx : Option LlamaContext := none
  draftCtx : Option LlamaContext := none
  /-- The greatest draft length of the speculative decoder, where there is one. -/
  speculative : Option ℤ := none
  /-- Whether each slot is busy. -/
  slots : List Bool := []
  scheduler : Option ContinuousBatchScheduler := none
  sequenceCapacity : ℤ := 0
  sequenceCapacityLimit : ℤ := 0
  poolCapacity : ℤ := 0
  deriving DecidableEq

/-- One reading of the cancel flag and the deadline. -/
structure LifecycleControl where
  cancelled : Bool := false
  expired : Bool := false
  deriving DecidableEq

def LifecycleControl.stopped (control : LifecycleControl) : Bool :=
  control.cancelled || control.expired

def LifecycleControl.code (control : LifecycleControl) : ErrorCode :=
  if control.cancelled then .cancelled else .timeout

structure ContextAttempt where
  shared : Option LlamaContext := none
  draft : Option LlamaContext := none
  error : String := ""

/-- What `common_speculative_init` gives: an exception, nothing, or a decoder. -/
inductive SpeculativeInit where
  | throws (what : String)
  | null
  | decoder (draftMax : ℤ)

/-- The environment of `init_shared_context_locked`. -/
structure ContextAllocation where
  fit : ℤ → ℤ → Result ℤ
  control : ℕ → LifecycleControl
  /-- Attempt, capacity and number of sequences. -/
  attempt : ℕ → ℤ → ℤ → ContextAttempt
  maxParallelSequences : ℤ
  draftRemovesSequences : Bool
  speculative : SpeculativeInit

/-- The environment of `ensure_request_capacity`. -/
structure CapacityGrowth where
  entry : LifecycleControl := {}
  beforeGrowth : LifecycleControl := {}
  growth : ContextAllocation
  recovery : ContextAllocation

namespace LlamaCppModel

variable (m : LlamaCppModel)

def nSlots : ℤ := if 0 < m.sequenceCapacity then m.sequenceCapacity else m.info.nSlots

/-- `std::clamp(cfg_.mtp_draft_tokens, 1, 4)` where MTP is enabled. -/
def draftMargin : ℤ := if m.cfg.mtpEnabled then max 1 (min m.cfg.mtpDraftTokens 4) else 0

def ctxPerSlot : ℤ := max 512 m.info.contextSize

def initialCtxPerSlot : ℤ :=
  if m.info.concurrencyAuto then max 512 (min m.ctxPerSlot (max 512 m.cfg.nBatch)) else m.ctxPerSlot

def minimumPool : ℤ := m.initialCtxPerSlot + m.draftMargin

structure AllocatedContexts where
  shared : LlamaContext
  draft : Option LlamaContext
  nSlots : ℤ

/-- The contexts of an attempt that has given all that the model needs. -/
def allocated (contexts : ContextAttempt) (nSlots : ℤ) : Option AllocatedContexts :=
  let draft := if m.cfg.mtpEnabled then contexts.draft else none
  if contexts.error != "" || (m.cfg.mtpEnabled && draft.isNone) then none
  else contexts.shared.map fun shared => ⟨shared, draft, nSlots⟩

def allocationError (contexts : ContextAttempt) (totalCtx : ℤ) : Error :=
  if contexts.shared.isSome && m.cfg.mtpEnabled && contexts.draft.isNone &&
      !m.info.contextPoolAuto then
    { code := .invalidArgument
      message := "MTP is enabled but the GGUF has no usable MTP head or sufficient memory" }
  else
    { code := .outOfMemory
      message := "shared context allocation failed at capacity " ++ toString totalCtx ++
        (if contexts.error = "" then "" else ": " ++ contexts.error) }

/-- The capacity and the number of sequences to try after a failed attempt. -/
def retry (attempt : ℕ) (totalCtx nSlots : ℤ) : Option (ℤ × ℤ) :=
  if m.info.concurrencyAuto && decide (totalCtx ≤ m.minimumPool) && decide (1 < nSlots) &&
      decide (attempt < 16) then some (totalCtx, max 1 (nSlots / 2))
  else if !m.info.contextPoolAuto || decide (totalCtx ≤ m.minimumPool) || decide (16 ≤ attempt) then
    none
  else if 7 ≤ attempt then some (m.minimumPool, nSlots)
  else some (m.minimumPool + (totalCtx - m.minimumPool) / 2, nSlots)

/-- The allocation loop from its attempt number on; none is retried after number 16. -/
def allocateContexts (env : ContextAllocation) : ℕ → ℕ → ℤ → ℤ → Result AllocatedContexts
  | fuel, attempt, totalCtx, nSlots =>
      let control := env.control attempt
      if control.stopped then err control.code "context pool allocation cancelled or expired"
      else
        let contexts := env.attempt attempt totalCtx nSlots
        match m.allocated contexts nSlots with
        | some contexts => .ok contexts
        | none =>
            match fuel, m.retry attempt totalCtx nSlots with
            | fuel + 1, some (totalCtx', nSlots') =>
                allocateContexts env fuel (attempt + 1) totalCtx' nSlots'
            | _, _ => .error (m.allocationError contexts totalCtx)

/-- The settings of the pool agree with each other. -/
def checkPool : Result Unit :=
  if m.info.concurrencyAuto && !m.info.contextPoolAuto then
    err .invalidArgument "automatic concurrency requires automatic context pooling"
  else if m.info.contextPoolAuto && (!m.cfg.kvUnified || m.info.contextPoolSize != 0) then
    err .invalidArgument "automatic context pool requires unified KV and no fixed pool size"
  else if decide (m.info.contextPoolSize < 0) || (decide (0 < m.info.contextPoolSize) &&
      (!m.cfg.kvUnified || decide (m.info.contextPoolSize < m.ctxPerSlot + m.draftMargin))) then
    err .invalidArgument
      "shared context pool cannot fit the configured request limit and draft margin"
  else .ok ()

def requestedPool (automaticMax : Option ℤ) (nSlots : ℤ) : Result ℤ :=
  let totalWide :=
    if 0 < m.info.contextPoolSize then m.info.contextPoolSize else m.initialCtxPerSlot * nSlots
  if intMax < totalWide then err .invalidArgument "context capacity exceeds supported range"
  else if intMax < m.minimumPool then
    err .invalidArgument "context pool minimum exceeds supported range"
  else .ok (automaticMax.elim
    (if m.info.concurrencyAuto then max 512 m.initialCtxPerSlot + m.draftMargin else totalWide)
    (max m.minimumPool))

/-- The capacity to allocate: an automatic pool takes what the memory fitting finds room for. -/
def fittedPool (env : ContextAllocation) (requested : ℤ) : Result ℤ :=
  if m.info.contextPoolAuto then env.fit m.minimumPool (max m.minimumPool requested)
  else .ok requested

/-- The speculative decoder, which a model without MTP has none of. -/
def initSpeculative (env : ContextAllocation) : Result (Option ℤ) :=
  if m.cfg.mtpEnabled then
    if !env.draftRemovesSequences then
      err .invalidArgument "MTP draft context does not support sequence removal"
    else
      match env.speculative with
      | .throws what => err .internal ("MTP initialization failed: " ++ what)
      | .null => err .internal "MTP initialization returned null"
      | .decoder draftMax => .ok (some draftMax)
  else .ok none

def newScheduler (shared : LlamaContext) (draft : Option LlamaContext) (speculative : Option ℤ) :
    ContinuousBatchScheduler where
  contextCapacity := shared.nCtx
  draftContextCapacity := draft.map LlamaContext.nCtx
  draftMargin := max 0 (speculative.getD 0)
  sequenceCount := shared.nSeqMax
  boundedPool := decide (0 < m.info.contextPoolSize) || m.info.contextPoolAuto

def initContexts (env : ContextAllocation) (automaticMax : Option ℤ) :
    Result AllocatedContexts := do
  let nSlots := if m.info.concurrencyAuto && automaticMax.isNone then 1 else max 1 m.nSlots
  m.checkPool
  let requested ← m.requestedPool automaticMax nSlots
  let totalCtx ← m.fittedPool env requested
  m.allocateContexts env 16 0 totalCtx nSlots

/-- The model with new contexts, which nothing runs on yet. -/
def withContexts (env : ContextAllocation) (contexts : AllocatedContexts) : LlamaCppModel :=
  { m with
    sharedCtx := some contexts.shared
    draftCtx := contexts.draft
    sequenceCapacity := contexts.nSlots
    sequenceCapacityLimit := if m.info.concurrencyAuto then
      min env.maxParallelSequences (max 1 m.cfg.nBatch) else contexts.nSlots
    poolCapacity := contexts.shared.nCtx }

def initSharedContextLocked (env : ContextAllocation) (automaticMax : Option ℤ) :
    Result LlamaCppModel := do
  let contexts ← m.initContexts env automaticMax
  let speculative ← m.initSpeculative env
  .ok { m.withContexts env contexts with
    speculative
    slots := List.replicate contexts.nSlots.toNat false
    scheduler := if m.info.supports "chat_completions" then
      some (m.newScheduler contexts.shared contexts.draft speculative) else none }

/-- What a failed initialisation leaves: the contexts stay where it is the speculative decoder that
fails. -/
def leftByInit (env : ContextAllocation) (automaticMax : Option ℤ) : LlamaCppModel :=
  match m.initContexts env automaticMax with
  | .ok contexts => m.withContexts env contexts
  | .error _ => m

def clearContexts (sequenceCapacity : ℤ) : LlamaCppModel :=
  { m with
    scheduler := none
    speculative := none
    draftCtx := none
    sharedCtx := none
    poolCapacity := 0
    slots := []
    sequenceCapacity }

/-- Go back to the old capacity after a growth that failed with `failure`. -/
def recoverContexts (env : ContextAllocation) (sequences capacity : ℤ) (failure : Error)
    (unrecovered : String) : Result Unit × LlamaCppModel :=
  match (m.clearContexts sequences).initSharedContextLocked env (some capacity) with
  | .ok recovered => (.error failure, recovered)
  | .error _ =>
      (err .unavailable unrecovered, (m.clearContexts sequences).leftByInit env (some capacity))

def maximumCapacity : ℤ :=
  m.ctxPerSlot * max 1 (max 1 m.sequenceCapacityLimit) + m.draftMargin

/-- The capacity to grow to from `current`, at least doubled and aligned to the batch. -/
def growthTarget (requested current : ℤ) : ℤ :=
  let alignment := max 1 m.cfg.nBatch
  let alignUp := fun value : ℤ => min ((value + alignment - 1) / alignment * alignment) intMax
  let geometric := if intMax / 2 < current then intMax else current * 2
  min m.maximumCapacity
    (if current < requested then max (alignUp requested) (alignUp geometric) else current)

def growContexts (env : CapacityGrowth) (requestedCapacity requestedSequences current : ℤ) :
    Result Unit × LlamaCppModel :=
  let currentSequences : ℤ := m.slots.length
  let cleared := m.clearContexts (max currentSequences requestedSequences)
  let target := m.growthTarget requestedCapacity current
  match cleared.initSharedContextLocked env.growth (some target) with
  | .error failure => (cleared.leftByInit env.growth (some target)).recoverContexts env.recovery
      currentSequences current failure "context growth failed and recovery failed"
  | .ok grown =>
      if grown.poolCapacity < requestedCapacity ∨ grown.sequenceCapacity < requestedSequences then
        grown.recoverContexts env.recovery currentSequences current
          { code := .outOfMemory
            message := "context growth allocated below the requested demand (" ++
              toString grown.poolCapacity ++ " < " ++ toString requestedCapacity ++ ")" }
          "context growth below demand and recovery failed"
      else (.ok (), grown)

def requestedCapacity (demand : RequestDemand) : ℤ :=
  max demand.requiredContext demand.aggregateContext + m.draftMargin

def ownCapacity (demand : RequestDemand) : ℤ := demand.requiredContext + m.draftMargin

def requestedSequences (demand : RequestDemand) : ℤ :=
  max demand.requiredSequences demand.aggregateSequences

def checkDemand (demand : RequestDemand) (control : LifecycleControl) : Result Unit :=
  if demand.promptPositions < 0 ∨ demand.outputTokens < 0 ∨ demand.requiredContext ≤ 0 ∨
      demand.requiredSequences ≤ 0 then err .invalidArgument "invalid request capacity demand"
  else if control.cancelled then err .cancelled "request capacity preparation cancelled"
  else if control.expired then err .timeout "request capacity preparation deadline expired"
  else .ok ()

def checkRange (demand : RequestDemand) : Result Unit :=
  if intMax < m.requestedCapacity demand then
    err .outOfMemory "request context demand exceeds supported range"
  else if intMax < m.ownCapacity demand then
    err .unavailable "request exceeds the supported context capacity"
  else .ok ()

/-- Why a context that is too small may not grow. -/
def checkGrowth (demand : RequestDemand) (control : LifecycleControl) (ctx : LlamaContext) :
    Result Unit :=
  if !m.info.concurrencyAuto || !m.info.contextPoolAuto || !m.cfg.kvUnified then
    if ctx.nCtx < m.ownCapacity demand ∨ (m.slots.length : ℤ) < demand.requiredSequences then
      err .unavailable "request exceeds the fixed context capacity"
    else err .resourceBusy "aggregate request demand exceeds the fixed context capacity"
  else if max 1 m.sequenceCapacityLimit < requestedSequences demand then
    err .outOfMemory "request requires more sequence slots than configured"
  else if m.slots.any id then err .resourceBusy "cannot grow context while requests are active"
  else if m.scheduler.any fun scheduler => !scheduler.healthy then
    err .unavailable "cannot grow an unhealthy model context"
  else if intMax < m.maximumCapacity then
    err .invalidArgument "configured context capacity exceeds supported range"
  else if m.maximumCapacity < m.requestedCapacity demand then
    err .outOfMemory "request exceeds the configured context capacity"
  else if control.stopped then err control.code "request capacity preparation cancelled"
  else .ok ()

/-- Go on after a check, or return its error with the model as it is. -/
def proceed (check : Result Unit) (next : Result Unit × LlamaCppModel) :
    Result Unit × LlamaCppModel :=
  match check with
  | .error e => (.error e, m)
  | .ok () => next

def ensureRequestCapacity (demand : RequestDemand) (env : CapacityGrowth) :
    Result Unit × LlamaCppModel :=
  m.proceed (checkDemand demand env.entry) <|
    match m.sharedCtx, m.loaded with
    | some ctx, true =>
        m.proceed (m.checkRange demand) <|
          if m.requestedCapacity demand ≤ ctx.nCtx ∧
              requestedSequences demand ≤ (m.slots.length : ℤ) then (.ok (), m)
          else
            m.proceed (m.checkGrowth demand env.beforeGrowth ctx) <|
              m.growContexts env (m.requestedCapacity demand) (requestedSequences demand) ctx.nCtx
    | _, _ => (err .notFound "model is not loaded", m)

section Spec

variable {m m' : LlamaCppModel} {env : ContextAllocation}

/-- The scheduler of a loaded model runs on the model's own contexts. -/
structure RunsOn (m : LlamaCppModel) (ctx : LlamaContext) : Prop where
  sharedCtx : m.sharedCtx = some ctx
  scheduler : ∀ s ∈ m.scheduler,
    s = { m.newScheduler ctx m.draftCtx m.speculative with healthy := s.healthy }

def HoldsRequest (m : LlamaCppModel) (ctx : LlamaContext) : Prop :=
  m.info.concurrencyAuto = true ∨ m.cfg.kvUnified = true ∧ m.ctxPerSlot ≤ ctx.nCtxSeq

theorem shared_of_allocated {contexts : ContextAttempt} {n : ℤ} {result : AllocatedContexts}
    (h : m.allocated contexts n = some result) : contexts.shared = some result.shared := by
  unfold allocated at h
  dsimp only at h
  split_ifs at h
  all_goals
    obtain ⟨shared, hshared, rfl⟩ := Option.map_eq_some_iff.1 h
    exact hshared

/-- The first attempt gives the contexts, or the next one does. -/
theorem allocateContexts_cases {fuel attempt : ℕ} {total n : ℤ} {contexts : AllocatedContexts}
    (h : m.allocateContexts env fuel attempt total n = .ok contexts) :
    m.allocated (env.attempt attempt total n) n = some contexts ∨
      m.allocated (env.attempt attempt total n) n = none ∧ ∃ fuel' next,
        fuel = fuel' + 1 ∧ m.retry attempt total n = some next ∧
          m.allocateContexts env fuel' (attempt + 1) next.1 next.2 = .ok contexts := by
  unfold allocateContexts at h
  dsimp only at h
  split_ifs at h
  · exact absurd h err_ne_ok
  · cases hallocated : m.allocated (env.attempt attempt total n) n with
    | some result =>
        simp only [hallocated, Except.ok.injEq] at h
        exact Or.inl (congrArg some h)
    | none =>
        simp only [hallocated] at h
        refine Or.inr ⟨rfl, ?_⟩
        cases fuel with
        | zero => simp at h
        | succ fuel =>
            cases hretry : m.retry attempt total n with
            | none => simp [hretry] at h
            | some next =>
                simp only [hretry] at h
                exact ⟨fuel, next, rfl, rfl, h⟩

theorem initSharedContextLocked_eq {automaticMax : Option ℤ}
    (h : m.initSharedContextLocked env automaticMax = .ok m') :
    ∃ contexts speculative, m.initContexts env automaticMax = .ok contexts ∧
      m' = { m.withContexts env contexts with
        speculative
        slots := List.replicate contexts.nSlots.toNat false
        scheduler := if m.info.supports "chat_completions" then
          some (m.newScheduler contexts.shared contexts.draft speculative) else none } := by
  unfold initSharedContextLocked at h
  obtain ⟨contexts, hcontexts, h⟩ := bind_eq_ok.1 h
  obtain ⟨speculative, _, h⟩ := bind_eq_ok.1 h
  exact ⟨contexts, speculative, hcontexts, (Except.ok.inj h).symm⟩

/-- The capacity to allocate, and the contexts that the attempts at it and below give. -/
theorem initContexts_ok {automaticMax : Option ℤ} {contexts : AllocatedContexts}
    (h : m.initContexts env automaticMax = .ok contexts) :
    ∃ requested total, m.requestedPool automaticMax
        (if m.info.concurrencyAuto && automaticMax.isNone then 1 else max 1 m.nSlots) =
          .ok requested ∧
      m.fittedPool env requested = .ok total ∧ m.allocateContexts env 16 0 total
        (if m.info.concurrencyAuto && automaticMax.isNone then 1 else max 1 m.nSlots) =
          .ok contexts := by
  unfold initContexts at h
  obtain ⟨_, _, h⟩ := bind_eq_ok.1 h
  obtain ⟨requested, hrequested, h⟩ := bind_eq_ok.1 h
  obtain ⟨total, htotal, h⟩ := bind_eq_ok.1 h
  exact ⟨requested, total, hrequested, htotal, h⟩

/-- A failed initialisation leaves the settings of the model. -/
theorem leftByInit_settings (m : LlamaCppModel) (env : ContextAllocation)
    (automaticMax : Option ℤ) :
    (m.leftByInit env automaticMax).info = m.info ∧
      (m.leftByInit env automaticMax).cfg = m.cfg ∧
      (m.leftByInit env automaticMax).loaded = m.loaded := by
  unfold leftByInit
  cases m.initContexts env automaticMax with
  | error failure => exact ⟨rfl, rfl, rfl⟩
  | ok contexts => exact ⟨rfl, rfl, rfl⟩

theorem initSharedContextLocked_spec {automaticMax : Option ℤ}
    (h : m.initSharedContextLocked env automaticMax = .ok m') :
    m'.info = m.info ∧ m'.cfg = m.cfg ∧ m'.loaded = m.loaded ∧ ∃ ctx, RunsOn m' ctx ∧
      m'.poolCapacity = ctx.nCtx ∧ (m'.slots.length : ℤ) = max 0 m'.sequenceCapacity := by
  obtain ⟨contexts, speculative, _, rfl⟩ := initSharedContextLocked_eq h
  refine ⟨rfl, rfl, rfl, contexts.shared, ⟨rfl, ?_⟩, rfl, ?_⟩
  · intro s hs
    dsimp only at hs
    split_ifs at hs with hchat
    · obtain rfl := Option.some.inj hs
      rfl
    · cases hs
  · change ((List.replicate contexts.nSlots.toNat false).length : ℤ) = max 0 contexts.nSlots
    rw [List.length_replicate]
    omega

theorem draftMargin_nonneg : 0 ≤ m.draftMargin := by
  unfold draftMargin
  split_ifs <;> omega

section Ensure

variable {demand : RequestDemand} {growth : CapacityGrowth} {ctx : LlamaContext}

theorem recoverContexts_ne_ok {sequences capacity : ℤ} {failure : Error} {message : String} :
    m.recoverContexts env sequences capacity failure message ≠ (.ok (), m') := by
  unfold recoverContexts
  cases (m.clearContexts sequences).initSharedContextLocked env (some capacity) with
  | ok recovered => simp
  | error e => simp [err]

theorem growContexts_ok {requestedCapacity requestedSequences current : ℤ}
    (hpositive : 0 < requestedSequences)
    (h : m.growContexts growth requestedCapacity requestedSequences current = (.ok (), m')) :
    m'.info = m.info ∧ m'.cfg = m.cfg ∧ ∃ ctx', RunsOn m' ctx' ∧ requestedCapacity ≤ ctx'.nCtx ∧
      requestedSequences ≤ m'.slots.length := by
  unfold growContexts at h
  dsimp only at h
  split at h
  · exact absurd h recoverContexts_ne_ok
  · rename_i grown hinit
    obtain ⟨hinfo, hcfg, _, ctx', hruns, hcapacity, hslots⟩ := initSharedContextLocked_spec hinit
    split_ifs at h with hsmall
    · exact absurd h recoverContexts_ne_ok
    · obtain ⟨_, rfl⟩ := Prod.mk.inj h
      refine ⟨hinfo, hcfg, ctx', hruns, ?_, ?_⟩
      · omega
      · omega

theorem proceed_ok {check : Result Unit} {next : Result Unit × LlamaCppModel}
    (h : m.proceed check next = (.ok (), m')) : check = .ok () ∧ next = (.ok (), m') := by
  cases check with
  | error e => simp [LlamaCppModel.proceed] at h
  | ok u => exact ⟨rfl, h⟩

theorem requiredSequences_pos {control : LifecycleControl}
    (h : checkDemand demand control = .ok ()) : 0 < demand.requiredSequences := by
  by_contra hle
  unfold checkDemand at h
  rw [if_pos (by omega)] at h
  exact absurd h err_ne_ok

/-- What a successful `ensure_request_capacity` leaves behind. -/
theorem ensureRequestCapacity_ok (hm : RunsOn m ctx)
    (h : m.ensureRequestCapacity demand growth = (.ok (), m')) :
    m'.info = m.info ∧ m'.cfg = m.cfg ∧ ∃ ctx', RunsOn m' ctx' ∧
      m.requestedCapacity demand ≤ ctx'.nCtx ∧
      requestedSequences demand ≤ (m'.slots.length : ℤ) := by
  obtain ⟨hdemand, h⟩ := proceed_ok h
  rw [hm.sharedCtx] at h
  cases hloaded : m.loaded with
  | false => simp [hloaded, err] at h
  | true =>
      rw [hloaded] at h
      obtain ⟨_, h⟩ := proceed_ok h
      split_ifs at h with henough
      · obtain ⟨_, rfl⟩ := Prod.mk.inj h
        exact ⟨rfl, rfl, ctx, hm, henough.1, henough.2⟩
      · obtain ⟨_, h⟩ := proceed_ok h
        have hpositive : 0 < requestedSequences demand :=
          lt_of_lt_of_le (requiredSequences_pos hdemand) (le_max_left _ _)
        exact growContexts_ok hpositive h

end Ensure

end Spec

end LlamaCppModel

end InferDeck.LlamaWrapper
