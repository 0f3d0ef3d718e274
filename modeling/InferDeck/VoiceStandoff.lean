import InferDeck.QueueSelection

/-!
# The voice session and queued media

While a priority session lasts, `require_priority_session_allows` refuses every load of a model
other than the session's, so media requests for models that are not resident wait for the session
to end. The queue in turn holds every conversation request back while a media request is queued,
and makes no exception for the session's own request. The two rules together are a circular wait.
-/

namespace InferDeck.Model.BackendCoordinator

open InferDeck.Foundation InferDeck.Selection

/-- The test of `require_priority_session_allows`: a live session is reserved for another model. -/
def prioritySessionBlocks (c : BackendCoordinator) (name : String) (now : TimePoint) : Bool :=
  c.prioritySessions.values.any fun session => session.live now && session.model != name

def mediaQueued (c : BackendCoordinator) : Bool :=
  c.waiters.waiters.any fun waiter => c.modelIsPriorityMediaLocked waiter.model

/-- One live session, of client `key` for the conversation model `name`, whose own request `w` is
queued and has all it needs; queued media requests are of other clients, for models that are not
resident, and no media request is running. -/
structure VoiceStandoff (c : BackendCoordinator) (now : TimePoint) (key name : String)
    (w : SlotWaiter) : Prop where
  session : ∃ s, c.prioritySessions.lookup key = some s ∧ s.live now ∧ s.model = name
  only : ∀ k s, c.prioritySessions.lookup k = some s → s.live now → k = key
  queued : w ∈ c.waiters.waiters
  model : w.model = name
  reservationKey : w.reservationKey = key
  resident : ∃ backend, c.readyBackend name = some backend ∧ isPrimaryModel backend.info ∧
    0 < backend.nFreeSlots
  admission : c.admissionPoolAllowsLocked name
  notDraining : name ∉ c.drainingModels
  notResizing : name ∉ c.resizingModels
  mediaOfOthers : ∀ v ∈ c.waiters.waiters, c.modelIsPriorityMediaLocked v.model →
    v.reservationKey ≠ key ∧ c.readyBackend v.model = none
  mediaIdle : c.priorityMediaActiveLocked = false

/-- The session's request is actionable and its turn has come. -/
def SessionServed (c : BackendCoordinator) (now : TimePoint) (w : SlotWaiter) : Prop :=
  c.waiterIsActionableLocked w now ∧ c.waiterIsNextLocked w.id now

/-- The session's request is not already preparing and not waiting for a resource change. -/
def ReadyToPrepare (c : BackendCoordinator) (w : SlotWaiter) : Prop :=
  w.preparing = false ∧ w.retryAfterGeneration ≠ some c.resourceGeneration

/-- A hold on the model that is still valid is for this request or of a lower priority. -/
def HoldAdmits (c : BackendCoordinator) (now : TimePoint) (w : SlotWaiter) : Prop :=
  ∀ hold, c.continuationHolds.lookup w.model = some hold →
    c.continuationHoldValidLocked w.model now → hold.key = w.reservationKey ∨
      hold.priority < w.priority

variable {c : BackendCoordinator} {now : TimePoint} {key name : String} {w : SlotWaiter}

theorem lookup_of_readyBackend {backend : Backend} (h : c.readyBackend name = some backend) :
    c.instances.lookup name = some backend ∧ backend.isLoaded ∧ backend.executionHealthy := by
  simpa only [readyBackend, Option.filter_eq_some_iff, Bool.and_eq_true] using h

theorem findInfo_of_readyBackend {backend : Backend} (h : c.readyBackend name = some backend) :
    c.findInfo name = some backend.info := by
  simp [findInfo, (lookup_of_readyBackend h).1]

namespace VoiceStandoff

theorem primary (h : c.VoiceStandoff now key name w) : c.modelIsPrimaryLocked name := by
  obtain ⟨backend, hready, hprimary, _⟩ := h.resident
  simp [modelIsPrimaryLocked, findInfo_of_readyBackend hready, hprimary]

theorem not_sidecar (h : c.VoiceStandoff now key name w) :
    c.modelIsIndependentSidecarLocked name = false := by
  obtain ⟨backend, hready, hprimary, _⟩ := h.resident
  simp [modelIsIndependentSidecarLocked, findInfo_of_readyBackend hready,
    not_sidecar_of_primary hprimary]

theorem not_media (h : c.VoiceStandoff now key name w) :
    c.modelIsPriorityMediaLocked name = false := by
  obtain ⟨backend, hready, hprimary, _⟩ := h.resident
  by_contra hmedia
  have hm : isPriorityMediaModel backend.info := by
    simpa [modelIsPriorityMediaLocked, findInfo_of_readyBackend hready] using hmedia
  simp [not_primary_of_priorityMedia hm] at hprimary

theorem session_matches (h : c.VoiceStandoff now key name w) :
    c.sessionReservedForAnother name key now = false := by
  obtain ⟨s, hs, hlive, hmodel⟩ := h.session
  have hmatch : (c.prioritySessions.entries.any fun entry => entry.2.live now &&
      entry.1 == key && entry.2.model == name) = true := by
    rw [List.any_eq_true]
    exact ⟨⟨key, s⟩, Map.mem_entries_iff.2 hs, by simp [hlive, hmodel]⟩
  simp [sessionReservedForAnother, hmatch]

/-- The session's request waits exactly while a media request is queued. -/
theorem waits_iff_mediaQueued (h : c.VoiceStandoff now key name w) :
    c.requestWaitsForPriorityMediaLocked name key now = c.mediaQueued := by
  simp only [requestWaitsForPriorityMediaLocked, h.primary, h.session_matches, h.mediaIdle,
    mediaQueued]
  cases c.waiters.waiters.any fun waiter => c.modelIsPriorityMediaLocked waiter.model <;> simp

/-- Whatever else is queued, media requests keep the session's request from being actionable. -/
theorem actionable_iff (h : c.VoiceStandoff now key name w) :
    c.waiterIsActionableLocked w now ↔ c.mediaQueued = false ∧ c.ReadyToPrepare w := by
  obtain ⟨backend, hready, _, hfree⟩ := h.resident
  unfold waiterIsActionableLocked
  rw [h.model, h.reservationKey, h.waits_iff_mediaQueued, h.admission, hready]
  simp only [h.notDraining, h.notResizing, decide_false, Bool.false_or, Bool.not_true,
    Bool.false_and, hfree, decide_true, Bool.true_or, ReadyToPrepare, awaitsRetry]
  by_cases hretry : w.retryAfterGeneration = some c.resourceGeneration
  · simp [hretry]
  · cases w.preparing <;> cases c.mediaQueued <;> simp [hretry]

/-- The session would let its own request load, and refuses the queued media requests. -/
theorem media_refused (h : c.VoiceStandoff now key name w) {v : SlotWaiter}
    (hv : c.modelIsPriorityMediaLocked v.model) :
    c.prioritySessionBlocks v.model now ∧ c.prioritySessionBlocks name now = false := by
  obtain ⟨s, hs, hlive, hmodel⟩ := h.session
  have hne : s.model ≠ v.model := by
    rintro heq
    rw [← heq, hmodel, h.not_media] at hv
    exact Bool.false_ne_true hv
  constructor
  · rw [prioritySessionBlocks, List.any_eq_true]
    refine ⟨s, List.mem_map.2 ⟨⟨key, s⟩, Map.mem_entries_iff.2 hs, rfl⟩, ?_⟩
    simp [hlive, hne]
  · rw [prioritySessionBlocks, List.any_eq_false]
    intro t ht
    obtain ⟨⟨k, t⟩, hkt, rfl⟩ := List.mem_map.1 ht
    have hlookup := Map.mem_entries_iff.1 hkt
    by_cases hl : t.live now
    · obtain rfl := h.only k t hlookup hl
      obtain rfl : s = t := Option.some.inj (hs.symm.trans hlookup)
      simp [hmodel]
    · simp [hl]

end VoiceStandoff

/-- A queue of one actionable waiter selects it. -/
theorem selected_of_alone (hw : w ∈ c.waiters.waiters) (halone : ∀ v ∈ c.waiters.waiters, v = w)
    (hact : c.waiterIsActionableLocked w now) : c.selected now = some w := by
  rw [selected_eq_some_iff]
  have hcand : c.candidate now w := by
    have hbelow : c.belowBarrier w now = false := by
      unfold belowBarrier
      cases hb : c.resourceBarrier now with
      | none => rfl
      | some barrier =>
          have heq := halone barrier (resourceBarrier_eq_some_iff.1 hb).1
          simp [heq]
    have hprepared : c.hasPrepared now → w.prepared := by
      intro hp
      obtain ⟨v, hv, hvp⟩ := List.any_eq_true.1 hp
      rw [halone v hv] at hvp
      exact (Bool.and_eq_true_iff.1 hvp).1
    unfold candidate
    cases hp : c.hasPrepared now
    · simp [hact, hbelow]
    · simp [hact, hbelow, hprepared hp]
  exact ⟨hw, hcand, fun v hv _ => (halone v hv).symm ▸ le_refl _⟩

theorem continuation_of_alone (hw : w ∈ c.waiters.waiters)
    (halone : ∀ v ∈ c.waiters.waiters, v = w) (hact : c.waiterIsActionableLocked w now)
    (hold : ContinuationHold) :
    c.continuation w.model hold now = if hold.key = w.reservationKey then some w else none := by
  have hkey : ∀ x b : SlotWaiter, decide (x.id < b.id) =
      decide (OrderDual.toDual b.id < OrderDual.toDual x.id) := fun _ _ => rfl
  unfold continuation
  split_ifs with hk
  · rw [selectBest_eq_some_iff hkey]
    · refine ⟨List.mem_filter.2 ⟨hw, by simp [hk, hact]⟩, fun v hv => ?_⟩
      rw [halone v (List.mem_filter.1 hv).1]
    · intro a ha b hb _
      rw [halone a (List.mem_filter.1 ha).1, halone b (List.mem_filter.1 hb).1]
  · rw [selectBest_eq_none_iff hkey, List.filter_eq_nil_iff]
    intro v hv
    rw [halone v hv]
    simp [Ne.symm hk]

/-- Alone in the queue, an actionable waiter has its turn unless a hold is kept from it. -/
theorem next_of_alone (hw : w ∈ c.waiters.waiters) (halone : ∀ v ∈ c.waiters.waiters, v = w)
    (hact : c.waiterIsActionableLocked w now)
    (hsidecar : c.modelIsIndependentSidecarLocked w.model = false)
    (hmedia : c.modelIsPriorityMediaLocked w.model = false) :
    c.waiterIsNextLocked w.id now ↔ c.HoldAdmits now w := by
  have hbarrier : (c.resourceBarrier now).all (fun barrier => barrier.model == w.model) = true := by
    cases hb : c.resourceBarrier now with
    | none => rfl
    | some barrier => simp [halone barrier (resourceBarrier_eq_some_iff.1 hb).1]
  have hpriority : ∀ p : ℤ, (c.waiters.waiters.any fun waiter =>
      decide (p < waiter.priority) && c.waiterIsActionableLocked waiter now) =
        decide (p < w.priority) := by
    intro p
    rw [Bool.eq_iff_iff, List.any_eq_true]
    constructor
    · rintro ⟨v, hv, hvp⟩
      rw [halone v hv] at hvp
      exact (Bool.and_eq_true_iff.1 hvp).1
    · intro hp
      exact ⟨w, hw, by rw [hp, hact]; rfl⟩
  rw [waiterIsNextLocked, nextWaiter, selected_of_alone hw halone hact]
  simp only [governingHold, hbarrier, hsidecar, hmedia, hpriority, Bool.not_false, Bool.true_and,
    HoldAdmits]
  cases hvalid : c.continuationHoldValidLocked w.model now with
  | false => simp
  | true =>
      cases hlookup : c.continuationHolds.lookup w.model with
      | none => simp
      | some hold =>
          by_cases hp : hold.priority < w.priority
          · simp [Option.filter, hp]
          · simp only [Option.filter, hp, decide_false, Bool.not_false, if_true,
              continuation_of_alone hw halone hact, Option.some.injEq, or_false, forall_eq']
            split_ifs with hk <;> simp [hk]

/-- While the session lasts, its request is actionable exactly when no media request is queued and
it is not itself preparing or waiting for a change; and with only media requests beside it, it is
also the next one exactly then, unless a valid continuation hold is kept from it. -/
theorem sessionServed_iff (c : BackendCoordinator) (now : TimePoint) (key name : String)
    (w : SlotWaiter) (h : c.VoiceStandoff now key name w) :
    (c.waiterIsActionableLocked w now ↔ c.mediaQueued = false ∧ c.ReadyToPrepare w) ∧
      ((∀ v ∈ c.waiters.waiters, v = w ∨ c.modelIsPriorityMediaLocked v.model) →
        (c.SessionServed now w ↔
          c.mediaQueued = false ∧ c.ReadyToPrepare w ∧ c.HoldAdmits now w)) := by
  refine ⟨h.actionable_iff, fun hothers => ?_⟩
  have hnext : c.waiterIsActionableLocked w now → c.mediaQueued = false →
      (c.waiterIsNextLocked w.id now ↔ c.HoldAdmits now w) := by
    intro hact hmedia
    have halone : ∀ v ∈ c.waiters.waiters, v = w := by
      intro v hv
      refine (hothers v hv).resolve_right ?_
      exact Bool.not_eq_true _ ▸ List.any_eq_false.1 hmedia v hv
    exact next_of_alone h.queued halone hact (h.model ▸ h.not_sidecar) (h.model ▸ h.not_media)
  unfold SessionServed
  constructor
  · rintro ⟨hact, hturn⟩
    obtain ⟨hmedia, hready⟩ := h.actionable_iff.1 hact
    exact ⟨hmedia, hready, (hnext hact hmedia).1 hturn⟩
  · rintro ⟨hmedia, hready, hadmits⟩
    have hact := h.actionable_iff.2 ⟨hmedia, hready⟩
    exact ⟨hact, (hnext hact hmedia).2 hadmits⟩

/-- The session of client "phone" is reserved for the resident chat model. Its chat request and
another client's speech request for a voice model that is not loaded are queued. -/
def standoffQueue : BackendCoordinator where
  registry :=
    { entries := AList.insert "speech"
        { name := "speech", role := .media, admissionPool := "speech", concurrencyLimit := 1,
          capabilities := ["audio_speech"] } ∅
      factories := ["llama_cpp"] }
  instances := AList.insert "chat"
    { info := { name := "chat", admissionPool := "chat", concurrencyLimit := 1, nSlots := 1 }
      loaded := true
      slots := [false] } ∅
  prioritySessions := AList.insert "phone"
    { model := "chat", deadline := seconds 60, token := 1, activeHolds := 0 } ∅
  waiters :=
    { waiters :=
        [{ id := 1, model := "speech", priority := 90, enqueued := 0, deadline := seconds 30,
           reservationKey := "" },
         { id := 2, model := "chat", priority := 90, enqueued := 0, deadline := seconds 30,
           reservationKey := "phone" }]
      nextWaiterId := 3
      increasing := by decide
      below := by decide }

theorem standoffQueue_standoff :
    standoffQueue.VoiceStandoff 0 "phone" "chat" standoffQueue.waiters.waiters[1] where
  session := ⟨{ model := "chat", deadline := seconds 60, token := 1, activeHolds := 0 },
    by decide, by decide, rfl⟩
  only := by
    intro k s hs _
    by_contra hk
    rw [standoffQueue, AList.lookup_insert_ne hk] at hs
    simp at hs
  queued := by decide
  model := rfl
  reservationKey := rfl
  resident := ⟨_, rfl, by decide, by decide⟩
  admission := by decide
  notDraining := by decide
  notResizing := by decide
  mediaOfOthers := by decide
  mediaIdle := by decide

/-- Each of the two parties waits for the other one. -/
theorem standoffQueue_not_served :
    standoffQueue.VoiceStandoff 0 "phone" "chat" standoffQueue.waiters.waiters[1] ∧
      standoffQueue.prioritySessionBlocks "speech" 0 ∧
      ¬ standoffQueue.waiterIsActionableLocked standoffQueue.waiters.waiters[1] 0 ∧
      ¬ standoffQueue.SessionServed 0 standoffQueue.waiters.waiters[1] := by
  refine ⟨standoffQueue_standoff, by decide, by decide, ?_⟩
  intro hserved
  have hact : standoffQueue.waiterIsActionableLocked standoffQueue.waiters.waiters[1] 0 = false := by
    decide
  simp [SessionServed, hact] at hserved

theorem standoffQueue_condition :
    (∀ v ∈ standoffQueue.waiters.waiters,
        v = standoffQueue.waiters.waiters[1] ∨ standoffQueue.modelIsPriorityMediaLocked v.model) ∧
      (standoffQueue.SessionServed 0 standoffQueue.waiters.waiters[1] ↔
        standoffQueue.mediaQueued = false ∧
          standoffQueue.ReadyToPrepare standoffQueue.waiters.waiters[1] ∧
          standoffQueue.HoldAdmits 0 standoffQueue.waiters.waiters[1]) :=
  ⟨by decide, (sessionServed_iff standoffQueue 0 "phone" "chat" _ standoffQueue_standoff).2
    (by decide)⟩

end InferDeck.Model.BackendCoordinator
