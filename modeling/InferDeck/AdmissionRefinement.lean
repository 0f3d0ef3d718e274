import InferDeck.PrepareInference

/-!
# The coordinator's admission against the scheduler's

The coordinator asks for the sum of its leases' required contexts and one draft margin. The
scheduler reserves prompt, output and a draft margin of their own for each task. Per task the
estimate is one position larger than the prompt and the output together, so one margin for all is
enough only while the margins do not use up those positions and what the estimates count too much.
-/

namespace InferDeck.LlamaWrapper

open InferDeck.Foundation InferDeck.Model LlamaCppModel ContinuousBatchScheduler

/-- A lease: its request with the demand that was estimated for it, and the task that
`prepare_inference` has made of the request. -/
structure LeasedRequest (ρ : Type) where
  request : InferenceRequest ρ
  demand : RequestDemand
  setup : PredictSetup
  task : SlotTask

/-- The lease's demand was estimated on the model before, maybe with another context, and its task
was prepared on the model as it is and has been submitted. -/
structure Leased {ρ : Type} (m : LlamaCppModel) (tokenize : Tokenizer ρ) (r : LeasedRequest ρ) :
    Prop where
  estimated : ∃ m₀ ctx₀, m₀.info = m.info ∧ m₀.cfg = m.cfg ∧ m₀.sharedCtx = some ctx₀ ∧
    HoldsRequest m₀ ctx₀ ∧ m₀.estimateRequestDemand tokenize r.request = .ok r.demand
  prepared : m.prepareInference tokenize r.request = .ok r.setup
  promptTokens : r.task.promptTokens = r.setup.promptTokens
  promptPositionCount : r.task.promptPositionCount = r.setup.promptPositionCount
  maxTokens : r.task.maxTokens = r.setup.maxTokens
  live : r.task.live = true

def requiredTotal {ρ : Type} (leases : List (LeasedRequest ρ)) : ℤ :=
  (leases.map fun r => r.demand.requiredContext).sum

def unusedTotal {ρ : Type} (m : LlamaCppModel) (leases : List (LeasedRequest ρ)) : ℤ :=
  (leases.map fun r => unusedOutput m r.request r.demand.outputTokens).sum

/-- The coordinator's admission of the leases refines the scheduler's: one pass admits all their
tasks, no task needs more than its estimate, and what the scheduler reserves for them is covered by
the capacity that was asked for. -/
structure AdmissionRefines {ρ μ : Type} (s : ContinuousBatchScheduler) (kv : KvMemory μ)
    (memory : PoolMemory μ) (asked : ℤ) (leases : List (LeasedRequest ρ)) : Prop where
  admitted : (s.admitBoundedPoolTasks kv (leases.map LeasedRequest.task) memory).Complete
  within : ∀ r ∈ leases, r.task.promptPositions + r.task.maxTokens ≤ r.demand.requiredContext
  covered : reservationTotal s (leases.map LeasedRequest.task) ≤ asked

section Refinement

variable {ρ μ : Type} {m : LlamaCppModel} {tokenize : Tokenizer ρ} {ctx : LlamaContext}
  {s : ContinuousBatchScheduler} {kv : KvMemory μ} {memory : PoolMemory μ}
  {leases : List (LeasedRequest ρ)}

theorem promptPositions_eq {r : LeasedRequest ρ} (h : Leased m tokenize r) :
    r.task.promptPositions = promptContext r.setup := by
  simp only [SlotTask.promptPositions, promptContext, h.promptPositionCount, h.promptTokens]

/-- A task's prompt and output against its lease's estimate. -/
theorem task_eq {r : LeasedRequest ρ} (hctx : m.sharedCtx = some ctx) (hholds : HoldsRequest m ctx)
    (h : Leased m tokenize r) :
    0 ≤ r.task.promptPositions ∧ 0 < r.task.maxTokens ∧
      r.task.promptPositions + r.task.maxTokens + 1 +
        unusedOutput m r.request r.demand.outputTokens = r.demand.requiredContext := by
  obtain ⟨m₀, ctx₀, hinfo, hcfg, hctx₀, hholds₀, hestimate⟩ := h.estimated
  have hlimit : m₀.loadedNCtxSeq = m.loadedNCtxSeq := by
    rw [loadedNCtxSeq_eq hctx₀ hholds₀, loadedNCtxSeq_eq hctx hholds]
    simp only [ctxPerSlot, hinfo]
  have hbudget := budget_eq hcfg hlimit hestimate h.prepared
  rw [promptPositions_eq h, h.maxTokens]
  exact ⟨promptContext_nonneg r.setup, hbudget⟩

theorem reservation_eq {r : LeasedRequest ρ} (hctx : m.sharedCtx = some ctx)
    (hholds : HoldsRequest m ctx) (hmargin : 0 ≤ s.draftMargin) (h : Leased m tokenize r) :
    0 < s.reservation r.task ∧
      s.reservation r.task + 1 + unusedOutput m r.request r.demand.outputTokens =
        r.demand.requiredContext + s.draftMargin := by
  obtain ⟨hprompt, houtput, hsum⟩ := task_eq hctx hholds h
  simp only [reservation, boundedPoolReservation]
  omega

theorem reservationTotal_eq_required (hctx : m.sharedCtx = some ctx) (hholds : HoldsRequest m ctx)
    (hmargin : 0 ≤ s.draftMargin) (h : ∀ r ∈ leases, Leased m tokenize r) :
    reservationTotal s (leases.map LeasedRequest.task) + leases.length + unusedTotal m leases =
      requiredTotal leases + leases.length * s.draftMargin := by
  induction leases with
  | nil => simp [reservationTotal, unusedTotal, requiredTotal]
  | cons r leases ih =>
      have ih' := ih fun r hr => h r (List.mem_cons_of_mem _ hr)
      obtain ⟨_, hr⟩ := reservation_eq hctx hholds hmargin (h r List.mem_cons_self)
      simp only [reservationTotal, unusedTotal, requiredTotal, List.map_cons, List.sum_cons,
        List.length_cons] at ih' ⊢
      push_cast
      linarith

theorem required_le_total (hctx : m.sharedCtx = some ctx) (hholds : HoldsRequest m ctx)
    (h : ∀ r ∈ leases, Leased m tokenize r) {r : LeasedRequest ρ} (hr : r ∈ leases) :
    r.demand.requiredContext ≤ requiredTotal leases := by
  apply List.single_le_sum
  · intro x hx
    obtain ⟨r', hr', rfl⟩ := List.mem_map.1 hx
    obtain ⟨hprompt, houtput, hsum⟩ := task_eq hctx hholds (h r' hr')
    have hunused := unusedOutput_nonneg m r'.request r'.demand.outputTokens
    omega
  · exact List.mem_map_of_mem hr

theorem le_capacity_iff (h : s.contextCapacity = ctx.nCtx) (n : ℤ) :
    n ≤ s.capacity ↔ n ≤ ctx.nCtx ∧ ∀ draft ∈ s.draftContextCapacity, n ≤ draft := by
  unfold capacity
  cases hdraft : s.draftContextCapacity with
  | none => simp [h]
  | some draft => simp [h]

/-- For any leases whose capacity has been ensured, the coordinator's admission refines the
scheduler's exactly where the tasks' draft margins fit into what the coordinator has counted beyond
prompt and output, and, with a draft context, the reservations fit that one. -/
theorem admissionRefines_iff {m₁ : LlamaCppModel} {ctx₁ : LlamaContext} {demand : RequestDemand}
    {growth : CapacityGrowth} (hkv : kv.RemovesSequences) (hm₁ : RunsOn m₁ ctx₁)
    (hensure : m₁.ensureRequestCapacity demand growth = (.ok (), m))
    (hctx : m.sharedCtx = some ctx) (hholds : HoldsRequest m ctx) (hs : m.scheduler = some s)
    (hleases : ∀ r ∈ leases, Leased m tokenize r)
    (hown : ∃ r ∈ leases, demand.requiredContext = r.demand.requiredContext)
    (haggregate : demand.aggregateContext = requiredTotal leases)
    (hrun : PoolRun s kv (leases.map LeasedRequest.task)) :
    AdmissionRefines s kv memory (m.requestedCapacity demand) leases ↔
      leases.length * s.draftMargin ≤ leases.length + unusedTotal m leases + m.draftMargin ∧
        ∀ draft ∈ s.draftContextCapacity,
          requiredTotal leases + leases.length * s.draftMargin ≤
            draft + leases.length + unusedTotal m leases := by
  obtain ⟨_, hcfg, ctx', hruns, hensured, _⟩ := ensureRequestCapacity_ok hm₁ hensure
  obtain rfl := Option.some.inj (hruns.sharedCtx.symm.trans hctx)
  have hscheduler := hruns.scheduler s hs
  have hcontext : s.contextCapacity = ctx'.nCtx := by rw [hscheduler]; rfl
  have hmargin : 0 ≤ s.draftMargin := by rw [hscheduler]; exact le_max_left _ _
  obtain ⟨r₀, hr₀, hown⟩ := hown
  have hasked : m.requestedCapacity demand = requiredTotal leases + m.draftMargin := by
    have hle := required_le_total hctx hholds hleases hr₀
    simp only [requestedCapacity, haggregate, hown, max_eq_right hle]
  have hasked₁ : m₁.requestedCapacity demand = m.requestedCapacity demand := by
    simp only [requestedCapacity, LlamaCppModel.draftMargin, hcfg]
  have htotal := reservationTotal_eq_required hctx hholds hmargin hleases
  have hlive : ∀ t ∈ leases.map LeasedRequest.task, t.live = true := by
    intro t ht
    obtain ⟨r, hr, rfl⟩ := List.mem_map.1 ht
    exact (hleases r hr).live
  have hpos : ∀ t ∈ leases.map LeasedRequest.task, 0 < s.reservation t := by
    intro t ht
    obtain ⟨r, hr, rfl⟩ := List.mem_map.1 ht
    exact (reservation_eq hctx hholds hmargin (hleases r hr)).1
  have hpositive : 0 < reservationTotal s (leases.map LeasedRequest.task) := by
    refine lt_of_lt_of_le (hpos r₀.task (List.mem_map_of_mem hr₀)) ?_
    apply List.single_le_sum
    · intro x hx
      obtain ⟨t, ht, rfl⟩ := List.mem_map.1 hx
      exact (hpos t ht).le
    · exact List.mem_map_of_mem (List.mem_map_of_mem hr₀)
  have hadmitted := complete_admitBoundedPoolTasks_iff hkv memory
    (consistent_of_poolRun hkv hrun) hlive hpos
  have hcapacity := le_capacity_iff hcontext (reservationTotal s (leases.map LeasedRequest.task))
  constructor
  · intro h
    have hfits := hadmitted.1 h.admitted
    have hdraft := (hcapacity.1 (by omega)).2
    have hcovered := h.covered
    refine ⟨by omega, fun draft hmem => ?_⟩
    have := hdraft draft hmem
    omega
  · rintro ⟨hmargins, hdraft⟩
    have hcovered : reservationTotal s (leases.map LeasedRequest.task) ≤
        m.requestedCapacity demand := by omega
    refine ⟨hadmitted.2 ?_, ?_, hcovered⟩
    · have hfits := hcapacity.2 ⟨by omega, fun draft hmem => by
        have := hdraft draft hmem
        omega⟩
      omega
    · intro r hr
      obtain ⟨_, _, hsum⟩ := task_eq hctx hholds (hleases r hr)
      have hunused := unusedOutput_nonneg m r.request r.demand.outputTokens
      omega

end Refinement

section FullPool

def plainMemory : KvMemory (ℕ → ℤ) where
  seqPosMax m i := m i
  seqRm m i := Function.update m i (-1)

theorem plainMemory_removesSequences : plainMemory.RemovesSequences where
  emptied m i := by simp [plainMemory]
  kept m i j h := by simp [plainMemory, h]

/-- A pool of 1024 positions for requests of at most 512, with drafts of up to four tokens. -/
def fullPool : LlamaCppModel where
  info := { contextSize := 512, contextPoolSize := 1024 }
  cfg := { kvUnified := true, mtpEnabled := true, mtpDraftTokens := 4 }
  loaded := true
  sharedCtx := some ⟨1024, 1024, 2⟩
  draftCtx := some ⟨1024, 1024, 2⟩
  speculative := some 4
  slots := [false, false]
  scheduler := some {
    contextCapacity := 1024
    draftContextCapacity := some 1024
    draftMargin := 4
    sequenceCount := 2 }
  sequenceCapacity := 2
  sequenceCapacityLimit := 2
  poolCapacity := 1024

def fullPoolScheduler : ContinuousBatchScheduler :=
  fullPool.newScheduler ⟨1024, 1024, 2⟩ (some ⟨1024, 1024, 2⟩) (some 4)

def noAllocation : ContextAllocation where
  fit _ _ := err .outOfMemory "context pool does not fit"
  control _ := {}
  attempt _ _ _ := {}
  maxParallelSequences := 64
  draftRemovesSequences := true
  speculative := .null

def oneToken : Tokenizer Unit := fun _ _ => .ok (.text [0])

def longAnswer (slotId : ℤ) : LeasedRequest Unit where
  request := { content := (), maxOutputTokens := 508 }
  demand := { promptPositions := 1, outputTokens := 508, requiredContext := 510 }
  setup := { promptTokens := [0], promptPositionCount := 1, nCtxSeq := 512, maxTokens := 508 }
  task := { slotId, promptTokens := [0], promptPositionCount := 1, maxTokens := 508 }

def twoAnswers : List (LeasedRequest Unit) := [longAnswer 0, longAnswer 1]

def secondDemand : RequestDemand :=
  { (longAnswer 1).demand with aggregateContext := 1020, aggregateSequences := 2 }

theorem fullPool_runsOn : RunsOn fullPool ⟨1024, 1024, 2⟩ := by
  refine ⟨rfl, ?_⟩
  intro s hs
  obtain rfl := Option.some.inj hs
  decide

theorem fullPool_holdsRequest : HoldsRequest fullPool ⟨1024, 1024, 2⟩ :=
  Or.inr (by decide)

theorem fullPool_leased : ∀ r ∈ twoAnswers, Leased fullPool oneToken r := by
  intro r hr
  have hestimated : ∀ slotId, Leased fullPool oneToken (longAnswer slotId) := by
    intro slotId
    exact ⟨⟨fullPool, _, rfl, rfl, rfl, fullPool_holdsRequest, rfl⟩, rfl, rfl, rfl, rfl, rfl⟩
  simp only [twoAnswers, List.mem_cons, List.not_mem_nil, or_false] at hr
  rcases hr with rfl | rfl
  · exact hestimated 0
  · exact hestimated 1

theorem fullPool_run : PoolRun fullPoolScheduler plainMemory (twoAnswers.map LeasedRequest.task) :=
  (PoolRun.submit (longAnswer 0).task .start rfl).submit (longAnswer 1).task rfl

def noGrowth : CapacityGrowth := { growth := noAllocation, recovery := noAllocation }

theorem fullPool_ensured :
    fullPool.ensureRequestCapacity secondDemand noGrowth = (.ok (), fullPool) := rfl

theorem fullPool_required : secondDemand.aggregateContext = requiredTotal twoAnswers := by
  decide

/-- The capacity of both answers is ensured, and the second one waits. -/
theorem fullPool_second_waits :
    fullPool.ensureRequestCapacity secondDemand noGrowth = (.ok (), fullPool) ∧
      (∀ r ∈ twoAnswers, Leased fullPool oneToken r) ∧
      secondDemand.aggregateContext = requiredTotal twoAnswers ∧
      ¬ AdmissionRefines fullPoolScheduler plainMemory ⟨some fun _ => -1, none⟩
        (fullPool.requestedCapacity secondDemand) twoAnswers := by
  refine ⟨fullPool_ensured, fullPool_leased, fullPool_required, ?_⟩
  intro h
  have hsecond := h.admitted.2 (longAnswer 1).task (by decide)
  exact absurd hsecond (by decide)

theorem fullPool_condition :
    AdmissionRefines fullPoolScheduler plainMemory ⟨some fun _ => -1, none⟩
        (fullPool.requestedCapacity secondDemand) twoAnswers ↔
      twoAnswers.length * fullPoolScheduler.draftMargin ≤
          twoAnswers.length + unusedTotal fullPool twoAnswers + fullPool.draftMargin ∧
        ∀ draft ∈ fullPoolScheduler.draftContextCapacity,
          requiredTotal twoAnswers + twoAnswers.length * fullPoolScheduler.draftMargin ≤
            draft + twoAnswers.length + unusedTotal fullPool twoAnswers :=
  admissionRefines_iff plainMemory_removesSequences fullPool_runsOn fullPool_ensured rfl
    fullPool_holdsRequest rfl fullPool_leased ⟨longAnswer 1, by simp [twoAnswers], rfl⟩
    fullPool_required fullPool_run

end FullPool

end InferDeck.LlamaWrapper
