import InferDeck.CapacityContract
import InferDeck.SwapSteps
import InferDeck.Execution

/-!
# A waiter that has its capacity prepared

`acquire_slot` asks the backend for the sum of all reservations and the waiter's own demand. For an
automatic pool it remembers the greatest sums it has asked for, and never asks for less at a later
attempt. Whether an attempt then fails for want of memory depends on reservations of requests that
have finished.
-/

namespace InferDeck.LlamaWrapper.LlamaCppModel

open InferDeck.Foundation InferDeck.Model

/-- The memory fitting finds room for `room` positions, and contexts of that size can be created. -/
structure Device (m : LlamaCppModel) (room : ℤ) (env : ContextAllocation) : Prop where
  least : m.minimumPool ≤ room
  fit : ∀ maximum, m.minimumPool ≤ maximum →
    env.fit m.minimumPool maximum = .ok (min maximum room)
  attempt : ∀ total n, total ≤ room →
    ∃ contexts, m.allocated (env.attempt 0 total n) n = some contexts ∧
      contexts.nSlots = n ∧ total ≤ contexts.shared.nCtx

def mostCapacity (m : LlamaCppModel) (room : ℤ) : ℤ := min intMax (min room m.maximumCapacity)

def mostSequences (m : LlamaCppModel) : ℤ := max 1 m.sequenceCapacityLimit

variable {m m' : LlamaCppModel} {room : ℤ}

theorem Device.clearContexts {env : ContextAllocation} (h : Device m room env) (n : ℤ) :
    Device (m.clearContexts n) room env :=
  ⟨h.least, h.fit, h.attempt⟩

section Init

variable {env : ContextAllocation} {e : Error}

theorem bind_eq_error {α β : Type} {x : Result α} {f : α → Result β} :
    x >>= f = .error e ↔ x = .error e ∨ ∃ a, x = .ok a ∧ f a = .error e := by
  cases x with
  | error e' => simp [bind, Except.bind]
  | ok a => simp [bind, Except.bind]

theorem code_of_err {α : Type} {code : ErrorCode} {message : String}
    (h : (err code message : Result α) = .error e) : e.code = code := by
  obtain rfl := Except.error.inj h
  rfl

theorem code_of_control (control : LifecycleControl) : control.code ≠ .outOfMemory := by
  unfold LifecycleControl.code
  split_ifs
  · decide
  · decide

theorem code_of_checkPool (h : m.checkPool = .error e) : e.code = .invalidArgument := by
  unfold checkPool at h
  split_ifs at h
  · exact code_of_err h
  · exact code_of_err h
  · exact code_of_err h

theorem code_of_requestedPool {automaticMax : Option ℤ} {n : ℤ}
    (h : m.requestedPool automaticMax n = .error e) : e.code = .invalidArgument := by
  unfold requestedPool at h
  dsimp only at h
  split_ifs at h
  all_goals exact code_of_err h

theorem requested_of_requestedPool {capacity n requested : ℤ}
    (h : m.requestedPool (some capacity) n = .ok requested) :
    requested = max m.minimumPool capacity := by
  unfold requestedPool at h
  dsimp only at h
  split_ifs at h
  all_goals first
    | exact absurd h err_ne_ok
    | exact (Except.ok.inj h).symm

theorem code_of_initSpeculative (h : m.initSpeculative env = .error e) :
    e.code = .invalidArgument ∨ e.code = .internal := by
  unfold initSpeculative at h
  split_ifs at h
  · exact Or.inl (code_of_err h)
  · cases hspeculative : env.speculative with
    | throws what =>
        rw [hspeculative] at h
        exact Or.inr (code_of_err h)
    | null =>
        rw [hspeculative] at h
        exact Or.inr (code_of_err h)
    | decoder draftMax =>
        rw [hspeculative] at h
        cases h

/-- What `init_shared_context_locked` gives on a device that has room. -/
theorem init_of_device (capacity : ℤ) (hdevice : Device m room env)
    (hauto : m.info.contextPoolAuto = true) :
    (∀ e, m.initSharedContextLocked env (some capacity) = .error e → e.code ≠ .outOfMemory) ∧
      ∀ m', m.initSharedContextLocked env (some capacity) = .ok m' →
        min (max m.minimumPool capacity) room ≤ m'.poolCapacity ∧
          m'.sequenceCapacity = max 1 m.nSlots := by
  have hfitted : ∀ {requested total}, m.fittedPool env requested = .ok total →
      total = min (max m.minimumPool requested) room := by
    intro requested total h
    unfold fittedPool at h
    rw [if_pos hauto, hdevice.fit _ (le_max_left _ _)] at h
    exact (Except.ok.inj h).symm
  have hallocates : ∀ {total n}, total ≤ room → ∃ contexts,
      (m.allocateContexts env 16 0 total n = .ok contexts ∨
        ∃ e, m.allocateContexts env 16 0 total n = .error e ∧ e.code ≠ .outOfMemory) ∧
      contexts.nSlots = n ∧ total ≤ contexts.shared.nCtx := by
    intro total n htotal
    obtain ⟨contexts, hallocated, hslots, hcapacity⟩ := hdevice.attempt total n htotal
    refine ⟨contexts, ?_, hslots, hcapacity⟩
    unfold allocateContexts
    dsimp only
    by_cases hstopped : (env.control 0).stopped = true
    · rw [if_pos hstopped]
      exact Or.inr ⟨_, rfl, code_of_control _⟩
    · rw [if_neg hstopped, hallocated]
      exact Or.inl rfl
  constructor
  · intro e h
    unfold initSharedContextLocked at h
    rw [bind_eq_error] at h
    obtain h | ⟨_, _, h⟩ := h
    · unfold initContexts at h
      rw [bind_eq_error] at h
      obtain h | ⟨_, _, h⟩ := h
      · rw [code_of_checkPool h]
        decide
      rw [bind_eq_error] at h
      obtain h | ⟨requested, _, h⟩ := h
      · rw [code_of_requestedPool h]
        decide
      rw [bind_eq_error] at h
      obtain h | ⟨total, htotal, h⟩ := h
      · unfold fittedPool at h
        rw [if_pos hauto, hdevice.fit _ (le_max_left _ _)] at h
        cases h
      obtain ⟨contexts, hok | ⟨e', he', hcode⟩, _⟩ := hallocates ((hfitted htotal).le.trans
        (min_le_right _ _))
      · rw [hok] at h
        cases h
      · rw [he'] at h
        exact Except.error.inj h ▸ hcode
    rw [bind_eq_error] at h
    obtain h | ⟨speculative, _, h⟩ := h
    · obtain hcode | hcode := code_of_initSpeculative h
      · rw [hcode]
        decide
      · rw [hcode]
        decide
    cases h
  · intro m' h
    obtain ⟨contexts, speculative, hcontexts, rfl⟩ := initSharedContextLocked_eq h
    obtain ⟨requested, total, hrequested, htotal, hcontexts⟩ := initContexts_ok hcontexts
    have htotal := hfitted htotal
    have hroom : total ≤ room := by omega
    obtain ⟨found, hok | ⟨e', he', _⟩, hslots, hcapacity⟩ := hallocates hroom
    · rw [hok] at hcontexts
      obtain rfl := Except.ok.inj hcontexts
      rw [requested_of_requestedPool hrequested, max_eq_right (le_max_left _ _)] at htotal
      refine ⟨htotal ▸ hcapacity, hslots.trans (if_neg ?_)⟩
      simp
    · rw [he'] at hcontexts
      cases hcontexts

end Init

section Ensure

variable {demand : RequestDemand} {env : CapacityGrowth} {e : Error}

theorem le_growthTarget {requested current : ℤ} (hmost : requested ≤ min intMax m.maximumCapacity) :
    requested ≤ m.growthTarget requested current := by
  unfold growthTarget
  dsimp only
  have haligned : requested ≤ ContextProbe.roundUp (max 1 m.cfg.nBatch) requested :=
    ContextProbe.le_roundUp (by omega)
  unfold ContextProbe.roundUp at haligned
  split_ifs
  all_goals omega

theorem code_of_growthPlan (hcapacity : m.requestedCapacity demand ≤ m.mostCapacity room)
    (hsequences : requestedSequences demand ≤ m.mostSequences)
    (h : m.growthPlan demand env = .error e) : e.code ≠ .outOfMemory := by
  unfold mostCapacity at hcapacity
  unfold mostSequences at hsequences
  unfold growthPlan at h
  split at h
  · rename_i failure hdemand
    obtain rfl := Except.error.inj h
    unfold checkDemand at hdemand
    split_ifs at hdemand
    all_goals
      rw [code_of_err hdemand]
      decide
  · rename_i ctx hdemand hctx hloaded
    split at h
    · rename_i failure hrange
      obtain rfl := Except.error.inj h
      unfold checkRange at hrange
      rw [if_neg (by omega)] at hrange
      split_ifs at hrange
      rw [code_of_err hrange]
      decide
    · split_ifs at h
      split at h
      · rename_i failure hgrowth
        obtain rfl := Except.error.inj h
        unfold checkGrowth at hgrowth
        split_ifs at hgrowth
        all_goals first
          | omega
          | (rw [code_of_err hgrowth]
             decide)
          | (rw [code_of_err hgrowth]
             exact code_of_control _)
      · cases h
  · rw [code_of_err h]
    decide

theorem code_of_invalid (hdemand : demand.requiredContext ≤ 0)
    (h : (m.ensureRequestCapacity demand env).1 = .error e) : e.code = .invalidArgument := by
  have hinvalid : checkDemand demand env.entry =
      err .invalidArgument "invalid request capacity demand" :=
    if_pos (Or.inr (Or.inr (Or.inl hdemand)))
  unfold ensureRequestCapacity proceed at h
  rw [hinvalid] at h
  exact code_of_err h

/-- A demand that the device has room for is not refused for want of memory. -/
theorem code_of_ensureRequestCapacity (hdevice : Device m room env.growth)
    (hcapacity : m.requestedCapacity demand ≤ m.mostCapacity room)
    (hsequences : requestedSequences demand ≤ m.mostSequences)
    (h : (m.ensureRequestCapacity demand env).1 = .error e) : e.code ≠ .outOfMemory := by
  rw [ensureRequestCapacity_eq] at h
  cases hplan : m.growthPlan demand env with
  | error failure =>
      rw [hplan] at h
      obtain rfl := Except.error.inj h
      exact code_of_growthPlan hcapacity hsequences hplan
  | ok plan =>
      rw [hplan] at h
      cases plan with
      | none => cases h
      | some current =>
          have hauto := automatic_of_growthPlan hplan
          dsimp only at h
          unfold growContexts at h
          dsimp only at h
          generalize htarget : m.growthTarget (m.requestedCapacity demand) current = target at h
          have hmost : m.requestedCapacity demand ≤ target := by
            rw [← htarget]
            unfold mostCapacity at hcapacity
            exact le_growthTarget (by omega)
          obtain ⟨hcode, hgrown⟩ := init_of_device target
            (hdevice.clearContexts (max (m.slots.length : ℤ) (requestedSequences demand))) hauto
          split at h
          · rename_i failure hinit
            unfold recoverContexts at h
            split at h
            · exact Except.error.inj h ▸ hcode failure hinit
            · rw [code_of_err h]
              decide
          · rename_i grown hinit
            obtain ⟨hpool, hslots⟩ := hgrown grown hinit
            have hsmall : ¬ (grown.poolCapacity < m.requestedCapacity demand ∨
                grown.sequenceCapacity < requestedSequences demand) := by
              have hpositive : 0 < requestedSequences demand :=
                lt_of_lt_of_le (requiredSequences_pos (growthPlan_spec hplan).1) (le_max_left _ _)
              have hroom : m.mostCapacity room ≤ room := by
                unfold mostCapacity
                omega
              change min (max m.minimumPool target) room ≤ grown.poolCapacity at hpool
              change grown.sequenceCapacity = max 1 (if 0 < max (m.slots.length : ℤ)
                (requestedSequences demand) then max (m.slots.length : ℤ)
                (requestedSequences demand) else m.info.nSlots) at hslots
              rw [if_pos (by omega)] at hslots
              omega
            rw [if_neg hsmall] at h
            cases h

end Ensure

end InferDeck.LlamaWrapper.LlamaCppModel

namespace InferDeck.Model

open InferDeck.Foundation InferDeck.LlamaWrapper Execution

/-- One attempt to have the capacity of a waiter prepared: what it reads of the coordinator, and the
model it finds. -/
structure CapacityAttempt where
  coordinator : BackendCoordinator
  backend : Backend
  model : LlamaCppModel
  env : CapacityGrowth
  /-- The capacity that the memory fitting has room for. -/
  room : ℤ
  /-- The coordinator once the callback has returned. -/
  after : BackendCoordinator

namespace CapacityAttempt

variable (a : CapacityAttempt) (waiter : SlotWaiter)

/-- The waiter as it asks for capacity. -/
def asked : SlotWaiter :=
  a.coordinator.withAggregates a.backend waiter (waiter.demand.getD {})

/-- What `prepare_request_capacity` answers for a resident generation model. -/
def result : Result Unit :=
  (a.model.ensureRequestCapacity ((a.asked waiter).demand.getD {}) a.env).1

/-- The waiter after the attempt, unless its request has failed. -/
def next : Option SlotWaiter :=
  match a.result waiter with
  | .ok () => some { a.asked waiter with
      preparing := false
      capacityPrepared := true
      resourceBlocked := false }
  | .error e =>
      if e.code = .resourceBusy then
        some (a.after.refuse a.coordinator.resourceGeneration (a.asked waiter))
      else none

def context : ℤ := a.coordinator.aggregateContext waiter.model (waiter.demand.getD {})

def sequences : ℤ := a.coordinator.aggregateSequences waiter.model (waiter.demand.getD {})

/-- The model has, or can be grown to, so many positions and sequences. -/
def Provides (context sequences : ℤ) : Prop :=
  context + a.model.draftMargin ≤ a.model.mostCapacity a.room ∧ sequences ≤ a.model.mostSequences

def OutOfMemory : Prop := ∃ e, a.result waiter = .error e ∧ e.code = .outOfMemory

/-- A waiter whose own demand can be provided fails for want of memory only where the requests that
still hold a lease leave too little of it. -/
def Blameless : Prop :=
  a.Provides (waiter.demand.getD {}).requiredContext (waiter.demand.getD {}).requiredSequences →
    a.OutOfMemory waiter → ¬ a.Provides (a.context waiter) (a.sequences waiter)

end CapacityAttempt

/-- The turns of the acquire loop that write the demand of a waiter, or ask for it again. -/
inductive CapacityTurn where
  | prepareCapacity (attempt : CapacityAttempt)
  | recheckCapacity

def CapacityTurn.attempt : CapacityTurn → Option CapacityAttempt
  | .prepareCapacity attempt => some attempt
  | .recheckCapacity => none

/-- What the acquire loop writes to the waiter as it asks for capacity. -/
theorem asked_of_acquireTurn {c : BackendCoordinator} {opts : AcquireSlotOptions}
    {waiter asked : SlotWaiter} {now : TimePoint}
    (h : c.acquireTurn opts waiter now = .prepareCapacity asked) :
    ∃ backend, c.residentBackend waiter.model = some backend ∧
      asked = c.withAggregates backend waiter (waiter.demand.getD {}) := by
  unfold BackendCoordinator.acquireTurn at h
  cases hbackend : c.residentBackend waiter.model with
  | none =>
      simp only [hbackend, BackendCoordinator.loadTurn] at h
      split_ifs at h
  | some backend =>
      simp only [hbackend, BackendCoordinator.loadTurn, BackendCoordinator.slotTurn] at h
      split_ifs at h
      exact ⟨backend, rfl, (AcquireTurn.prepareCapacity.inj h).symm⟩

namespace SlotWaiter

def turn (waiter : SlotWaiter) : CapacityTurn → Option SlotWaiter
  | .prepareCapacity attempt => attempt.next waiter
  | .recheckCapacity => some { waiter with capacityPrepared := false }

/-- What the waiter knows of its earlier attempts: no sum that exceeds all of theirs. -/
structure Remembers (waiter : SlotWaiter) (earlier : List CapacityAttempt) (waiter' : SlotWaiter) :
    Prop where
  model : waiter'.model = waiter.model
  requiredContext : (waiter'.demand.getD {}).requiredContext =
    (waiter.demand.getD {}).requiredContext
  requiredSequences : (waiter'.demand.getD {}).requiredSequences =
    (waiter.demand.getD {}).requiredSequences
  context : ∀ bound, waiter.maxAggregateContext ≤ bound →
    (∀ b ∈ earlier, b.context waiter ≤ bound) → waiter'.maxAggregateContext ≤ bound
  sequences : ∀ bound, waiter.maxAggregateSequences ≤ bound →
    (∀ b ∈ earlier, b.sequences waiter ≤ bound) → waiter'.maxAggregateSequences ≤ bound

variable {waiter waiter' w : SlotWaiter} {a : CapacityAttempt} {earlier : List CapacityAttempt}

theorem Remembers.context_eq (h : Remembers waiter earlier waiter') (a : CapacityAttempt) :
    a.context waiter' = a.context waiter := by
  unfold CapacityAttempt.context BackendCoordinator.aggregateContext
  rw [h.model, h.requiredContext]

theorem Remembers.sequences_eq (h : Remembers waiter earlier waiter') (a : CapacityAttempt) :
    a.sequences waiter' = a.sequences waiter := by
  unfold CapacityAttempt.sequences BackendCoordinator.aggregateSequences
  rw [h.model, h.requiredSequences]

theorem asked_maxAggregateContext (a : CapacityAttempt) (waiter : SlotWaiter) {bound : ℤ}
    (hmax : waiter.maxAggregateContext ≤ bound) (hcontext : a.context waiter ≤ bound) :
    (a.asked waiter).maxAggregateContext ≤ bound := by
  change (if _ then max waiter.maxAggregateContext (a.context waiter) else a.context waiter) ≤ bound
  split_ifs
  · exact max_le hmax hcontext
  · exact hcontext

theorem asked_maxAggregateSequences (a : CapacityAttempt) (waiter : SlotWaiter) {bound : ℤ}
    (hmax : waiter.maxAggregateSequences ≤ bound) (hsequences : a.sequences waiter ≤ bound) :
    (a.asked waiter).maxAggregateSequences ≤ bound := by
  change (if _ then max waiter.maxAggregateSequences (a.sequences waiter)
    else a.sequences waiter) ≤ bound
  split_ifs
  · exact max_le hmax hsequences
  · exact hsequences

/-- An attempt leaves the waiter with the demand and the sums that it has asked for. -/
theorem next_asked (h : a.next waiter = some waiter') :
    waiter'.model = waiter.model ∧ waiter'.demand = (a.asked waiter).demand ∧
      waiter'.maxAggregateContext = (a.asked waiter).maxAggregateContext ∧
      waiter'.maxAggregateSequences = (a.asked waiter).maxAggregateSequences := by
  unfold CapacityAttempt.next at h
  split at h
  · obtain rfl := Option.some.inj h
    exact ⟨rfl, rfl, rfl, rfl⟩
  · split_ifs at h
    obtain rfl := Option.some.inj h
    exact ⟨rfl, rfl, rfl, rfl⟩

theorem Remembers.next (h : Remembers waiter earlier w) (hnext : a.next w = some waiter') :
    Remembers waiter (earlier ++ [a]) waiter' := by
  obtain ⟨hmodel, hdemand, hcontext, hsequences⟩ := next_asked hnext
  refine ⟨hmodel.trans h.model, ?_, ?_, fun bound hbound hearlier => ?_,
    fun bound hbound hearlier => ?_⟩
  · rw [hdemand]
    exact h.requiredContext
  · rw [hdemand]
    exact h.requiredSequences
  · rw [hcontext]
    refine asked_maxAggregateContext a w
      (h.context bound hbound fun b hb => hearlier b (List.mem_append_left _ hb)) ?_
    rw [h.context_eq]
    exact hearlier a (by simp)
  · rw [hsequences]
    refine asked_maxAggregateSequences a w
      (h.sequences bound hbound fun b hb => hearlier b (List.mem_append_left _ hb)) ?_
    rw [h.sequences_eq]
    exact hearlier a (by simp)

theorem remembers_turns {turns : List CapacityTurn} (hexec : exec turn w turns = some waiter')
    (h : Remembers waiter earlier w) :
    Remembers waiter (earlier ++ turns.filterMap CapacityTurn.attempt) waiter' := by
  induction turns generalizing w earlier with
  | nil =>
      rw [exec, Option.some.injEq] at hexec
      subst hexec
      simpa using h
  | cons t turns ih =>
      obtain ⟨w₁, hturn, hrest⟩ := exec_cons_eq_some_iff.1 hexec
      cases t with
      | prepareCapacity a =>
          have hremembers := ih hrest (h.next hturn)
          rwa [List.append_assoc] at hremembers
      | recheckCapacity =>
          obtain rfl := Option.some.inj hturn
          exact ih hrest ⟨h.model, h.requiredContext, h.requiredSequences, h.context, h.sequences⟩

/-- No request fails on account of others that have finished, as long as the sums that it asked for
at its earlier attempts can still be provided. -/
theorem blameless_of_earlier {turns : List CapacityTurn}
    (hfresh : waiter.maxAggregateContext = 0 ∧ waiter.maxAggregateSequences = 0)
    (hexec : exec turn waiter turns = some waiter')
    (hdevice : a.model.Device a.room a.env.growth)
    (hearlier : ∀ b ∈ turns.filterMap CapacityTurn.attempt,
      a.Provides (b.context waiter) (b.sequences waiter)) : a.Blameless waiter' := by
  have hremembers := remembers_turns hexec
    (⟨rfl, rfl, rfl, fun _ h _ => h, fun _ h _ => h⟩ : Remembers waiter [] waiter)
  rw [List.nil_append] at hremembers
  rintro hown ⟨e, hresult, hcode⟩ hcurrent
  have hpositive : 0 < (waiter'.demand.getD {}).requiredContext := by
    by_contra hnone
    have hasked : ((a.asked waiter').demand.getD {}).requiredContext ≤ 0 := not_lt.1 hnone
    have hinvalid := LlamaCppModel.code_of_invalid hasked hresult
    rw [hinvalid] at hcode
    cases hcode
  have hcontext : (a.asked waiter').maxAggregateContext ≤
      a.model.mostCapacity a.room - a.model.draftMargin := by
    refine asked_maxAggregateContext a waiter' (hremembers.context _ ?_ fun b hb => ?_) ?_
    · have hmost := hown.1
      omega
    · have hmost := (hearlier b hb).1
      omega
    · have hmost := hcurrent.1
      omega
  have hsequences : (a.asked waiter').maxAggregateSequences ≤ a.model.mostSequences := by
    refine asked_maxAggregateSequences a waiter' (hremembers.sequences _ ?_ fun b hb => ?_)
      hcurrent.2
    · rw [hfresh.2]
      unfold LlamaCppModel.mostSequences
      omega
    · exact (hearlier b hb).2
  refine LlamaCppModel.code_of_ensureRequestCapacity hdevice ?_ ?_ hresult hcode
  · change max (waiter'.demand.getD {}).requiredContext (a.asked waiter').maxAggregateContext +
      a.model.draftMargin ≤ _
    have hmost := hown.1
    omega
  · exact max_le hown.2 hsequences

section ReleasedPeer

/-- A pool of 512 positions on a device with room for 768, with the reservations of its model. -/
def poolAttempt (context sequences : ℤ) (slots : List Bool) : CapacityAttempt where
  coordinator := {
    registry := { entries := ∅, factories := [] }
    activeContextReservationByModel := AList.insert "chat" context ∅
    activeSequenceReservationByModel := AList.insert "chat" sequences ∅ }
  backend := { info := { name := "chat", contextPoolAuto := true, concurrencyAuto := true } }
  model := LlamaCppModel.automaticPool 512 slots
  env := { growth := LlamaCppModel.deviceWith 768, recovery := LlamaCppModel.deviceWith 768 }
  room := 768
  after := { registry := { entries := ∅, factories := [] } }

def chatWaiter : SlotWaiter where
  id := 1
  model := "chat"
  priority := 0
  enqueued := 0
  deadline := seconds 30
  reservationKey := ""
  demandPrepared := true
  demand := some { promptPositions := 400, outputTokens := 100, requiredContext := 500 }

/-- The waiter after an attempt beside a request that has reserved 500 positions. -/
def blockedWaiter : SlotWaiter :=
  { chatWaiter with
    resourceBlocked := true
    retryAfterGeneration := some 0
    maxAggregateContext := 1000
    maxAggregateSequences := 2
    demand := some {
      promptPositions := 400
      outputTokens := 100
      requiredContext := 500
      aggregateContext := 1000
      aggregateSequences := 2 } }

theorem poolAttempt_device (context sequences : ℤ) (slots : List Bool) :
    (poolAttempt context sequences slots).model.Device 768
      (poolAttempt context sequences slots).env.growth where
  least := (by decide : (512 : ℤ) ≤ 768)
  fit maximum hleast := by
    have hroom : (poolAttempt context sequences slots).model.minimumPool ≤ 768 := by
      change (512 : ℤ) ≤ 768
      decide
    exact if_pos (le_min hleast hroom)
  attempt total n _ := ⟨⟨⟨total, total, n.toNat⟩, none, n⟩, rfl, rfl, le_rfl⟩

/-- The waiter after an attempt beside a request that has reserved 250 positions. -/
def patientWaiter : SlotWaiter :=
  { blockedWaiter with
    maxAggregateContext := 750
    demand := some {
      promptPositions := 400
      outputTokens := 100
      requiredContext := 500
      aggregateContext := 750
      aggregateSequences := 2 } }

/-- The sum of 750 positions that it asked for beside the other request is what the device has room
for, and once that request has finished it gets its capacity. -/
theorem blameless_of_earlier_chatWaiter :
    exec turn chatWaiter [.prepareCapacity (poolAttempt 250 1 [true])] = some patientWaiter ∧
      (poolAttempt 0 0 [false]).Blameless patientWaiter ∧
      (poolAttempt 0 0 [false]).result patientWaiter = .ok () := by
  have hexec : exec turn chatWaiter [.prepareCapacity (poolAttempt 250 1 [true])] =
      some patientWaiter := by decide +kernel
  refine ⟨hexec, ?_, by decide +kernel⟩
  refine blameless_of_earlier ⟨rfl, rfl⟩ hexec (poolAttempt_device 0 0 [false]) fun b hb => ?_
  obtain rfl := List.mem_singleton.1 hb
  exact ⟨by decide +kernel, by decide +kernel⟩

/-- The other request has finished and the pool has room for the waiter, which fails nevertheless. -/
theorem releasedPeer_failsWaiter :
    exec turn chatWaiter [.prepareCapacity (poolAttempt 500 1 [true])] = some blockedWaiter ∧
      ¬ (poolAttempt 0 0 [false]).Blameless blockedWaiter := by
  refine ⟨by decide +kernel, fun h => ?_⟩
  have hresult : (poolAttempt 0 0 [false]).result blockedWaiter = err .outOfMemory
      "context growth allocated below the requested demand (768 < 1000)" := by
    decide +kernel
  exact h ⟨by decide +kernel, by decide +kernel⟩ ⟨_, hresult, rfl⟩
    ⟨by decide +kernel, by decide +kernel⟩

end ReleasedPeer

end SlotWaiter

end InferDeck.Model
