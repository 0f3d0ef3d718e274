import InferDeck.ReclaimIdleContext
import InferDeck.ContextPoolFit

/-!
# Contexts created anew

`ensure_request_capacity` and `reclaim_idle_context` free the contexts of a model and create others.
What a model is left with follows from one fact about `init_shared_context_locked`: where it
succeeds, the contexts can be used, and it gives up sequences only where the smallest pool has no
room for them. No call touches the contexts of a model with a busy slot, and the integers of both
functions stay in their range.
-/

namespace InferDeck.LlamaWrapper

open InferDeck.Foundation InferDeck.Model

/-- `llama_n_ctx` of a unified cache grows with the capacity asked for, and the memory fitting gives
no less than the least it is asked for. -/
structure ContextAllocation.Sized (env : ContextAllocation) (nCtx : ℤ → ℤ) : Prop where
  monotone : Monotone nCtx
  shared : ∀ attempt total n ctx, (env.attempt attempt total n).shared = some ctx →
    ctx.nCtx = nCtx total
  fit : ∀ least most capacity, env.fit least most = .ok capacity → least ≤ capacity

def ContextAllocation.KeepsSequences (env : ContextAllocation) (m : LlamaCppModel) (n : ℤ) : Prop :=
  ∀ attempt total, total ≤ m.minimumPool →
    (m.allocated (env.attempt attempt total n) n).isSome = true

namespace LlamaCppModel

/-- The model has contexts, free slots, and a healthy scheduler for chats. -/
structure Usable (m : LlamaCppModel) : Prop where
  runs : ∃ ctx, RunsOn m ctx ∧ m.poolCapacity = ctx.nCtx
  sequences : m.sequenceCapacity = m.slots.length
  slots : 0 < m.slots.length
  idle : ∀ busy ∈ m.slots, busy = false
  scheduler : m.info.supports "chat_completions" = true → m.scheduler.isSome = true
  healthy : ∀ s ∈ m.scheduler, s.healthy = true

variable {m m' : LlamaCppModel} {env : ContextAllocation}

section Allocation

variable {fuel attempt : ℕ} {total n : ℤ} {contexts : AllocatedContexts}

theorem nSlots_of_allocated {found : ContextAttempt} (h : m.allocated found n = some contexts) :
    contexts.nSlots = n := by
  unfold allocated at h
  dsimp only at h
  split_ifs at h
  all_goals
    obtain ⟨shared, _, rfl⟩ := Option.map_eq_some_iff.1 h
    rfl

/-- A retry keeps the sequences, unless not even the smallest pool has room for them. -/
theorem nSlots_of_retry {next : ℤ × ℤ} (h : m.retry attempt total n = some next) (hn : 1 ≤ n) :
    1 ≤ next.2 ∧ next.2 ≤ n ∧
      (next.2 = n ∨ m.info.concurrencyAuto = true ∧ total ≤ m.minimumPool ∧ 1 < n) := by
  unfold retry at h
  split_ifs at h with hhalve
  · obtain rfl := Option.some.inj h
    simp only [Bool.and_eq_true, decide_eq_true_eq] at hhalve
    obtain ⟨⟨⟨hauto, hleast⟩, hmore⟩, _⟩ := hhalve
    refine ⟨le_max_left _ _, ?_, Or.inr ⟨hauto, hleast, hmore⟩⟩
    dsimp only
    omega
  · obtain rfl := Option.some.inj h
    exact ⟨hn, le_rfl, Or.inl rfl⟩
  · obtain rfl := Option.some.inj h
    exact ⟨hn, le_rfl, Or.inl rfl⟩

/-- The sequences of the contexts, which are all that were asked for wherever none is given up. -/
theorem nSlots_of_allocateContexts
    (h : m.allocateContexts env fuel attempt total n = .ok contexts) (hn : 1 ≤ n) :
    1 ≤ contexts.nSlots ∧ contexts.nSlots ≤ n ∧
      (m.info.concurrencyAuto = false ∨ n ≤ 1 ∨ env.KeepsSequences m n → contexts.nSlots = n) := by
  induction fuel generalizing attempt total n with
  | zero =>
      obtain hfound | ⟨_, _, _, hfuel, _⟩ := allocateContexts_cases h
      · obtain rfl := nSlots_of_allocated hfound
        exact ⟨hn, le_rfl, fun _ => rfl⟩
      · cases hfuel
  | succ fuel ih =>
      obtain hfound | ⟨hnone, fuel', next, hfuel, hretry, hnext⟩ := allocateContexts_cases h
      · obtain rfl := nSlots_of_allocated hfound
        exact ⟨hn, le_rfl, fun _ => rfl⟩
      · obtain rfl := Nat.succ.inj hfuel
        obtain ⟨hpos, hle, hsame⟩ := nSlots_of_retry hretry hn
        obtain ⟨hpos', hle', hkept⟩ := ih hnext hpos
        refine ⟨hpos', hle'.trans hle, fun hkeeps => ?_⟩
        obtain hsame | ⟨hauto, hleast, hmore⟩ := hsame
        · rw [hsame] at hkept
          exact hkept hkeeps
        · -- the sequences were halved, which only a model that gives them up comes to
          obtain hfixed | hone | hkeeps := hkeeps
          · rw [hfixed] at hauto
            cases hauto
          · omega
          · have hsome := hkeeps attempt total hleast
            rw [hnone] at hsome
            cases hsome

/-- The attempt that gave the contexts: none is below the smallest pool, and only there are sequences
given up. -/
theorem attempt_of_allocateContexts
    (h : m.allocateContexts env fuel attempt total n = .ok contexts) :
    ∃ number size, (env.attempt number size contexts.nSlots).shared = some contexts.shared ∧
      (m.minimumPool ≤ total → m.minimumPool ≤ size) ∧
      (total ≤ m.minimumPool → size ≤ m.minimumPool) ∧
      (contexts.nSlots = n ∨ size ≤ m.minimumPool) := by
  induction fuel generalizing attempt total n with
  | zero =>
      obtain hfound | ⟨_, _, _, hfuel, _⟩ := allocateContexts_cases h
      · have hslots := nSlots_of_allocated hfound
        exact ⟨attempt, total, hslots ▸ shared_of_allocated hfound, id, id, Or.inl hslots⟩
      · cases hfuel
  | succ fuel ih =>
      obtain hfound | ⟨_, fuel', next, hfuel, hretry, hnext⟩ := allocateContexts_cases h
      · have hslots := nSlots_of_allocated hfound
        exact ⟨attempt, total, hslots ▸ shared_of_allocated hfound, id, id, Or.inl hslots⟩
      · obtain rfl := Nat.succ.inj hfuel
        obtain ⟨number, size, hshared, hleast, hmost, hkept⟩ := ih hnext
        unfold retry at hretry
        split_ifs at hretry with hhalve hstop hlast
        · -- fewer sequences at the smallest pool
          obtain rfl := Option.some.inj hretry
          simp only [Bool.and_eq_true, decide_eq_true_eq] at hhalve
          exact ⟨number, size, hshared, hleast, hmost, Or.inr (hmost hhalve.1.1.2)⟩
        · obtain rfl := Option.some.inj hretry
          exact ⟨number, size, hshared, fun _ => hleast le_rfl, fun _ => hmost le_rfl, hkept⟩
        · obtain rfl := Option.some.inj hretry
          simp only [Bool.or_eq_true, decide_eq_true_eq, not_or] at hstop
          dsimp only at hleast hmost hkept
          exact ⟨number, size, hshared, fun h => hleast (by omega), fun h => absurd h hstop.1.2,
            hkept⟩

end Allocation

/-- The contexts were created by `init_shared_context_locked`, with this `llama_n_ctx`. -/
def Created (m : LlamaCppModel) (nCtx : ℤ → ℤ) : Prop :=
  ∃ (before after : LlamaCppModel) (env : ContextAllocation) (capacity : Option ℤ),
    before.info = m.info ∧ before.cfg = m.cfg ∧ env.Sized nCtx ∧
      before.initSharedContextLocked env capacity = .ok after ∧ after.sharedCtx = m.sharedCtx

theorem minimumPool_congr {a b : LlamaCppModel} (hinfo : a.info = b.info) (hcfg : a.cfg = b.cfg) :
    a.minimumPool = b.minimumPool := by
  unfold minimumPool initialCtxPerSlot ctxPerSlot draftMargin
  rw [hinfo, hcfg]

/-- Contexts of an automatic pool are no smaller than the smallest pool. -/
theorem minimumPool_le_of_created {nCtx : ℤ → ℤ} {ctx : LlamaContext} (h : m.Created nCtx)
    (hauto : m.info.contextPoolAuto = true) (hctx : m.sharedCtx = some ctx) :
    nCtx m.minimumPool ≤ ctx.nCtx := by
  obtain ⟨before, after, env, capacity, hinfo, hcfg, hsized, hinit, hsame⟩ := h
  obtain ⟨contexts, speculative, hcontexts, rfl⟩ := initSharedContextLocked_eq hinit
  obtain ⟨requested, total, _, htotal, hallocated⟩ := initContexts_ok hcontexts
  unfold fittedPool at htotal
  rw [hinfo, if_pos hauto] at htotal
  obtain ⟨number, size, hshared, hleast, _⟩ := attempt_of_allocateContexts hallocated
  obtain rfl : contexts.shared = ctx := Option.some.inj (hsame.trans hctx)
  rw [hsized.shared _ _ _ _ hshared, ← minimumPool_congr hinfo hcfg]
  exact hsized.monotone (hleast (hsized.fit _ _ _ htotal))

/-- What new contexts have: they can be used, with no more sequences than asked for. -/
theorem usable_of_init {capacity : ℤ}
    (h : m.initSharedContextLocked env (some capacity) = .ok m') :
    m'.info = m.info ∧ Usable m' ∧ (m'.slots.length : ℤ) ≤ max 1 m.nSlots ∧
      (m.info.concurrencyAuto = false ∨ m.nSlots ≤ 1 ∨ env.KeepsSequences m (max 1 m.nSlots) →
        (m'.slots.length : ℤ) = max 1 m.nSlots) := by
  obtain ⟨hinfo, _, _, ctx, hruns, hpool, _⟩ := initSharedContextLocked_spec h
  obtain ⟨contexts, speculative, hcontexts, rfl⟩ := initSharedContextLocked_eq h
  obtain ⟨_, total, _, _, hcontexts⟩ := initContexts_ok hcontexts
  simp only [Option.isNone_some, Bool.and_false, Bool.false_eq_true, if_false] at hcontexts
  obtain ⟨hpos, hle, hkept⟩ := nSlots_of_allocateContexts hcontexts (le_max_left _ _)
  have hlength : ((List.replicate contexts.nSlots.toNat false).length : ℤ) = contexts.nSlots := by
    rw [List.length_replicate]
    omega
  refine ⟨hinfo, ⟨⟨ctx, hruns, hpool⟩, hlength.symm, ?_, ?_, ?_, ?_⟩, ?_, ?_⟩
  · dsimp only
    omega
  · intro busy hbusy
    exact List.eq_of_mem_replicate hbusy
  · intro hchat
    change m.info.supports "chat_completions" = true at hchat
    dsimp only
    rw [if_pos hchat]
    rfl
  · intro s hs
    dsimp only at hs
    split_ifs at hs
    · obtain rfl := Option.some.inj hs
      rfl
    · cases hs
  · exact hlength.le.trans hle
  · intro hkeeps
    refine hlength.trans (hkept ?_)
    obtain hfixed | hone | hkeeps := hkeeps
    · exact Or.inl hfixed
    · exact Or.inr (Or.inl (by omega))
    · exact Or.inr (Or.inr hkeeps)

section Congr

variable {a b : LlamaCppModel}

theorem allocateContexts_congr (hinfo : a.info = b.info) (hcfg : a.cfg = b.cfg)
    (fuel attempt : ℕ) (total n : ℤ) :
    a.allocateContexts env fuel attempt total n = b.allocateContexts env fuel attempt total n := by
  have hminimum := minimumPool_congr hinfo hcfg
  have hallocated : a.allocated = b.allocated := by
    unfold allocated
    rw [hcfg]
  have hretry : a.retry = b.retry := by
    unfold retry
    rw [hinfo, hminimum]
  have herror : a.allocationError = b.allocationError := by
    unfold allocationError
    rw [hinfo, hcfg]
  induction fuel generalizing attempt total n with
  | zero =>
      unfold allocateContexts
      rw [hallocated, hretry, herror]
  | succ fuel ih =>
      unfold allocateContexts
      rw [hallocated, hretry, herror]
      cases b.retry attempt total n with
      | none => rfl
      | some next =>
          dsimp only
          rw [ih]

/-- New contexts depend on the settings of the model and the sequences asked for alone. -/
theorem init_congr {capacity : Option ℤ} (hinfo : a.info = b.info) (hcfg : a.cfg = b.cfg)
    (hloaded : a.loaded = b.loaded) (hsequences : a.sequenceCapacity = b.sequenceCapacity) :
    a.initSharedContextLocked env capacity = b.initSharedContextLocked env capacity := by
  have hcontexts : ∀ total n, a.allocateContexts env 16 0 total n =
      b.allocateContexts env 16 0 total n := allocateContexts_congr hinfo hcfg 16 0
  cases a
  cases b
  dsimp only at hinfo hcfg hloaded hsequences
  subst hinfo hcfg hloaded hsequences
  simp only [initSharedContextLocked, initContexts, hcontexts]
  rfl

end Congr

section Recovery

def Recovers (m : LlamaCppModel) (env : ContextAllocation) (capacity : ℤ) : Prop :=
  ∃ recovered, (m.clearContexts m.slots.length).initSharedContextLocked env (some capacity) =
    .ok recovered ∧ recovered.poolCapacity = capacity

/-- The contexts are as they were, apart from sequences that the smallest pool has no room for. -/
structure Restored (m : LlamaCppModel) (env : ContextAllocation) (capacity : ℤ)
    (m' : LlamaCppModel) : Prop where
  usable : Usable m'
  capacity : m'.poolCapacity = capacity
  fewer : 0 < m.slots.length → m'.slots.length ≤ m.slots.length
  sequences : 0 < m.slots.length → m.info.concurrencyAuto = false ∨ m.slots.length ≤ 1 ∨
    env.KeepsSequences m m.slots.length → m'.slots.length = m.slots.length

theorem restored_of_init {capacity : ℤ}
    (h : (m.clearContexts m.slots.length).initSharedContextLocked env (some capacity) = .ok m')
    (hcapacity : m'.poolCapacity = capacity) : Restored m env capacity m' := by
  obtain ⟨_, husable, hfewer, hkept⟩ := usable_of_init h
  have hslots : 0 < m.slots.length →
      (m.clearContexts m.slots.length).nSlots = m.slots.length := by
    intro hpos
    change (if (0 : ℤ) < m.slots.length then (m.slots.length : ℤ) else m.info.nSlots) = _
    rw [if_pos (by omega)]
  refine ⟨husable, hcapacity, fun hpos => ?_, fun hpos hkeeps => ?_⟩
  · rw [hslots hpos] at hfewer
    omega
  · rw [hslots hpos, max_eq_right (by omega)] at hkept
    have hlength := hkept <| by
      obtain hfixed | hone | hkeeps := hkeeps
      · exact Or.inl hfixed
      · exact Or.inr (Or.inl (by omega))
      · exact Or.inr (Or.inr hkeeps)
    omega

/-- What an error of a growth leaves: the contexts as they were, where these can be created. -/
theorem recoverContexts_restores {capacity : ℤ} {failure : Error} {message : String}
    (hinfo : m'.info = m.info) (hcfg : m'.cfg = m.cfg) (hloaded : m'.loaded = m.loaded)
    (h : Recovers m env capacity) :
    Restored m env capacity (m'.recoverContexts env m.slots.length capacity failure message).2 := by
  obtain ⟨recovered, hinit, hcapacity⟩ := h
  have hsame : (m'.clearContexts m.slots.length).initSharedContextLocked env (some capacity) =
      .ok recovered := by
    rw [← hinit]
    exact init_congr hinfo hcfg hloaded rfl
  unfold recoverContexts
  rw [hsame]
  exact restored_of_init hinit hcapacity

theorem recoverIdleContexts_restores {capacity : ℤ} {result : Result Bool}
    {reclaim : ContextReclaim} (hinfo : m'.info = m.info) (hcfg : m'.cfg = m.cfg)
    (hloaded : m'.loaded = m.loaded) (h : Recovers m reclaim.recovery capacity) :
    Restored m reclaim.recovery capacity
      (m'.recoverIdleContexts reclaim m.slots.length capacity result).2 := by
  obtain ⟨recovered, hinit, hcapacity⟩ := h
  have hsame : (m'.clearIdleContexts m.slots.length).initSharedContextLocked reclaim.recovery
      (some capacity) = .ok recovered := by
    rw [← hinit]
    exact init_congr hinfo hcfg hloaded rfl
  unfold recoverIdleContexts
  dsimp only
  rw [hsame]
  exact restored_of_init hinit hcapacity

end Recovery

end LlamaCppModel

end InferDeck.LlamaWrapper
