import InferDeck.SequenceIdentity

/-!
# Invariants of the tasks of a scheduler

What each kind of work on a task keeps holds of the tasks of all calls, whatever the slots, the
clients and the other tasks do.
-/

namespace InferDeck.LlamaWrapper.SlotCache

open Function Execution

/-- The caller's flags and the queue are anything, and the rest is as before. -/
structure SlotTask.SameWork (t t' : SlotTask) : Prop where
  prompt : t'.prompt = t.prompt
  initialized : t'.initialized = t.initialized
  promptPos : t'.promptPos = t.promptPos
  promptDone : t'.promptDone = t.promptDone
  nGenerated : t'.nGenerated = t.nGenerated

/-- All that is done to a task keeps `P`. -/
structure TaskInvariant (m : LoadedModel) (P : SlotTask → Prop) : Prop where
  sameWork : ∀ {t t'}, t.SameWork t' → P t → P t'
  init : ∀ {t : SlotTask} (eligible : Bool) (outcome : InitOutcome) (memory : Memory),
    t.initialized = false → P t →
      P ({ t with mtpEligible := eligible, initialized := true }.initTask m outcome memory).1
  media : ∀ {t : SlotTask} {offsets : List ℕ} {memory : Memory} {r : SlotTask × Memory},
    t.promptDone = false → t.evalMedia offsets memory = some r → P t → P r.1
  prefill : ∀ {t : SlotTask} (it : Iteration) (room : ℕ) (captures : SlotTask.Captures) (id : ℤ)
    (memory : Memory), t.promptDone = false → P t → P (t.prefill m it room captures id memory).1
  generate : ∀ {t : SlotTask} (it : Iteration) (id : ℤ) (memory : Memory), t.promptDone = true →
    P t → P (t.generate m it id memory).1
  verify : ∀ {t : SlotTask} (it : Iteration) (draft : List ℤ) (accepted : ℕ) (id : ℤ)
    (memory : Memory), t.promptDone = true → P t → P (t.verify m it draft accepted id memory).1

namespace Call

variable {m : LoadedModel} {c : Call}

theorem sameWork_onToken (callback : Bool) (id : ℤ) :
    c.task.SameWork (c.onToken m callback id).2.task := by
  unfold onToken
  dsimp only
  split
  · exact ⟨rfl, rfl, rfl, rfl, rfl⟩
  · split
    · exact ⟨rfl, rfl, rfl, rfl, rfl⟩
    · split
      · exact ⟨rfl, rfl, rfl, rfl, rfl⟩
      · split <;> exact ⟨rfl, rfl, rfl, rfl, rfl⟩

theorem sameWork_drainToken (callback : Bool) (id : ℤ) :
    c.task.SameWork (c.drainToken m callback id).task := by
  have h := sameWork_onToken (m := m) (c := c) callback id
  unfold drainToken
  dsimp only
  split_ifs
  · exact ⟨h.prompt, h.initialized, h.promptPos, h.promptDone, h.nGenerated⟩
  · exact h

end Call

namespace TaskInvariant

variable {m : LoadedModel} {P : SlotTask → Prop} {v v' : View} {s s' : Engine}

theorem schedule {guard : SlotTask → Bool} {f : SlotTask → Memory → Option (SlotTask × Memory)}
    (hf : ∀ t memory r, guard t = true → f t memory = some r → P t → P r.1)
    (hv : ∀ c, v.call = some c → P c.task) (h : v.schedule guard f = some v') :
    ∀ c, v'.call = some c → P c.task := by
  obtain ⟨c, hc, h⟩ := Option.bind_eq_some_iff.1 h
  split_ifs at h with hguard
  obtain ⟨r, hr, rfl⟩ := Option.map_eq_some_iff.1 h
  rintro c' hc'
  obtain rfl := Option.some.inj hc'
  simp only [Bool.or_eq_true, Bool.not_eq_true', not_or, Bool.not_eq_false] at hguard
  exact hf _ _ _ hguard.2 hr (hv c hc)

theorem drain (h : TaskInvariant m P) {callback : Bool} (hv : ∀ c, v.call = some c → P c.task)
    (hstep : v.step m (.drain callback) = some v') : ∀ c, v'.call = some c → P c.task := by
  obtain ⟨c, hc, hstep⟩ := Option.bind_eq_some_iff.1 hstep
  have htask := hv c hc
  cases hq : c.task.outQueue with
  | nil => simp [hq] at hstep
  | cons event queue =>
      cases event with
      | token id =>
          simp only [hq, Option.some.injEq] at hstep
          subst hstep
          rintro c' hc'
          obtain rfl := Option.some.inj hc'
          have htaken : c.task.SameWork { c.task with outQueue := queue } :=
            ⟨rfl, rfl, rfl, rfl, rfl⟩
          exact h.sameWork (Call.sameWork_drainToken callback id) (h.sameWork htaken htask)
      | done error =>
          cases error with
          | some error =>
              simp only [hq, Option.some.injEq] at hstep
              subst hstep
              exact fun c' hc' => absurd hc' (by simp)
          | none =>
              simp only [hq, Option.some.injEq] at hstep
              subst hstep
              exact fun c' hc' => absurd hc' (by simp)

theorem complete (h : TaskInvariant m P) {t : SlotTask} (ht : P t) (error : Option String) :
    P (t.complete error) := by
  have hsame : t.SameWork (t.complete error) := ⟨rfl, rfl, rfl, rfl, rfl⟩
  exact h.sameWork hsame ht

theorem step (h : TaskInvariant m P) {a : SlotAction} (hv : ∀ c, v.call = some c → P c.task)
    (hstep : v.step m a = some v') : ∀ c, v'.call = some c → P c.task := by
  cases a with
  | acquire =>
      simp only [View.step] at hstep
      split_ifs at hstep
      obtain rfl := Option.some.inj hstep
      exact hv
  | release =>
      simp only [View.step] at hstep
      split_ifs at hstep
      obtain rfl := Option.some.inj hstep
      exact hv
  | extCancel =>
      obtain ⟨c, hc, rfl⟩ := Option.map_eq_some_iff.1 hstep
      rintro c' hc'
      obtain rfl := Option.some.inj hc'
      have hsame : c.task.SameWork { c.task with extCancel := true } := ⟨rfl, rfl, rfl, rfl, rfl⟩
      exact h.sameWork hsame (hv c hc)
  | init it outcome =>
      simp only [View.step] at hstep
      refine schedule (fun t memory r hguard hr ht => ?_) hv hstep
      obtain rfl := Option.some.inj hr
      simp only [Bool.and_eq_true, Bool.not_eq_true'] at hguard
      exact h.init _ outcome memory hguard.1.1 ht
  | media offsets =>
      simp only [View.step] at hstep
      refine schedule (fun t memory r hguard hr ht => ?_) hv hstep
      simp only [Bool.and_eq_true, Bool.not_eq_true'] at hguard
      exact h.media hguard.1.2 hr ht
  | prefill it room captures id =>
      simp only [View.step] at hstep
      refine schedule (fun t memory r hguard hr ht => ?_) hv hstep
      obtain rfl := Option.some.inj hr
      simp only [Bool.and_eq_true, Bool.not_eq_true'] at hguard
      exact h.prefill it room captures id memory hguard.1.1.1.2 ht
  | generate it id =>
      simp only [View.step] at hstep
      refine schedule (fun t memory r hguard hr ht => ?_) hv hstep
      obtain rfl := Option.some.inj hr
      exact h.generate it id memory (Bool.and_eq_true_iff.1 hguard).2 ht
  | verify it draft accepted id =>
      simp only [View.step] at hstep
      refine schedule (fun t memory r hguard hr ht => ?_) hv hstep
      obtain rfl := Option.some.inj hr
      simp only [Bool.and_eq_true] at hguard
      exact h.verify it draft accepted id memory hguard.1.1.1.2 ht
  | cancel =>
      simp only [View.step] at hstep
      refine schedule (fun t memory r _ hr ht => ?_) hv hstep
      obtain rfl := Option.some.inj hr
      exact h.complete ht none
  | stop =>
      simp only [View.step] at hstep
      refine schedule (fun t memory r _ hr ht => ?_) hv hstep
      obtain rfl := Option.some.inj hr
      exact h.complete ht none
  | reject error =>
      simp only [View.step] at hstep
      refine schedule (fun t memory r _ hr ht => ?_) hv hstep
      obtain rfl := Option.some.inj hr
      exact h.complete ht (some error)
  | evict =>
      simp only [View.step] at hstep
      split_ifs at hstep
      obtain rfl := Option.some.inj hstep
      exact hv
  | drain callback => exact h.drain hv hstep

def Fresh (t : SlotTask) : Prop :=
  t.initialized = false ∧ t.promptPos = 0 ∧ t.promptDone = false ∧ t.nGenerated = 0

theorem engineStep (h : TaskInvariant m P) (hfresh : ∀ t, Fresh t → P t) {a : Action}
    (hs : ∀ i c, s.calls i = some c → P c.task) (hstep : s.step m a = some s') :
    ∀ i c, s'.calls i = some c → P c.task := by
  cases a with
  | start i stream prompt =>
      have hbind (s : Engine) (hs : ∀ i c, s.calls i = some c → P c.task) :
          ∀ k c, (s.bind i stream prompt).calls k = some c → P c.task := by
        intro k c hc
        by_cases hk : k = i
        · subst hk
          simp only [Engine.bind, update_self, Option.some.injEq] at hc
          subst hc
          exact hfresh _ ⟨rfl, rfl, rfl, rfl⟩
        · simp only [Engine.bind, update_of_ne hk] at hc
          exact hs k c hc
      obtain ⟨-, -, rfl | ⟨j, -, -, -, rfl⟩⟩ := Engine.start_cases hstep
      · exact hbind s hs
      · exact hbind (s.swapSlots i j) hs
  | onSlot i action =>
      simp only [Engine.step] at hstep
      split_ifs at hstep with hi
      obtain ⟨v, hv, rfl⟩ := Option.map_eq_some_iff.1 hstep
      intro k c hc
      by_cases hk : k = i
      · subst hk
        rw [Engine.put_calls_self] at hc
        exact h.step (fun c hc => hs k c hc) hv c hc
      · rw [Engine.put_calls_of_ne hk] at hc
        exact hs k c hc

/-- Over a whole run `P` holds of the tasks of all calls. -/
theorem engine (h : TaskInvariant m P) (hfresh : ∀ t, Fresh t → P t) {nSlots : ℕ}
    {actions : List Action} (hrun : exec (Engine.step m) (Engine.loaded nSlots) actions = some s) :
    ∀ i c, s.calls i = some c → P c.task := by
  refine invariant_of_step (I := fun s : Engine => ∀ i c, s.calls i = some c → P c.task)
    (fun s a s' hs hstep => h.engineStep hfresh hs hstep) ?_ hrun
  intro i c hc
  cases hc

end TaskInvariant

end InferDeck.LlamaWrapper.SlotCache
