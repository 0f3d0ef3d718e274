import Mathlib.Data.List.Perm.Basic
import InferDeck.SchedulerLoop

/-!
# Terminal events

Which tasks the scheduler still owes a terminal event is a list: the active ones, and those that
the loop has taken out of `active_` to notify them. Every other task has had nothing yet or has
had its terminal event as its last one. Each step of the loop moves tasks within that list, writes
to a task of the list, or strikes one off with its terminal event. An exception strikes off what
the loop had taken out, without the event.
-/

namespace InferDeck.LlamaWrapper

open Function
open scoped List

namespace TaskCell

structure Open (c : TaskCell) : Prop where
  submitted : c.submitted = true
  events : ∀ e ∈ c.events, e.isDone = false
  freed : c.freed = if c.sampler then 0 else 1

structure Closed (c : TaskCell) : Prop where
  submitted : c.submitted = true
  events : ∃ tokens error, c.events = tokens ++ [.done error] ∧ ∀ e ∈ tokens, e.isDone = false
  sampler : c.sampler = false
  freed : c.freed = 1

structure Fresh (c : TaskCell) : Prop where
  submitted : c.submitted = false
  events : c.events = []
  sampler : c.sampler = true
  freed : c.freed = 0

variable {c : TaskCell}

@[simp] theorem freeSampler_sampler (c : TaskCell) : c.freeSampler.sampler = false := by
  by_cases h : c.sampler <;> simp [freeSampler, h]

@[simp] theorem freeSampler_submitted (c : TaskCell) :
    c.freeSampler.submitted = c.submitted := by
  by_cases h : c.sampler <;> simp [freeSampler, h]

@[simp] theorem freeSampler_events (c : TaskCell) : c.freeSampler.events = c.events := by
  by_cases h : c.sampler <;> simp [freeSampler, h]

theorem Open.freeSampler (h : c.Open) : c.freeSampler.Open := by
  refine ⟨by simpa using h.submitted, by simpa using h.events, ?_⟩
  have hfreed := h.freed
  by_cases hs : c.sampler <;> simp_all [TaskCell.freeSampler]

theorem Open.pushToken (h : c.Open) (id : ℤ) : (c.pushEvent (.token id)).Open := by
  refine ⟨h.submitted, ?_, h.freed⟩
  intro e he
  rcases List.mem_append.1 he with he | he
  · exact h.events e he
  · rw [List.mem_singleton.1 he]
    rfl

theorem Open.pushDone (h : c.Open) (hs : c.sampler = false) (error : Option String) :
    (c.pushEvent (.done error)).Closed :=
  ⟨h.submitted, ⟨c.events, error, rfl, h.events⟩, hs,
    by simpa [pushEvent, hs] using h.freed⟩

theorem Fresh.toOpen (h : c.Fresh) : Open { c with submitted := true } :=
  ⟨rfl, by simp [h.events], by simp [h.freed, h.sampler]⟩

theorem Open.doneCount_eq_zero (h : c.Open) : c.doneCount = 0 := by
  rw [doneCount, List.countP_eq_zero]
  intro e he
  simp [h.events e he]

theorem Fresh.doneCount_eq_zero (h : c.Fresh) : c.doneCount = 0 := by
  simp [doneCount, h.events]

theorem Closed.doneCount_eq_one (h : c.Closed) : c.doneCount = 1 := by
  obtain ⟨tokens, error, heq, htokens⟩ := h.events
  have hzero : tokens.countP TokenEvent.isDone = 0 := by
    rw [List.countP_eq_zero]
    intro e he
    simp [htokens e he]
  rw [doneCount, heq, List.countP_append, hzero]
  rfl

end TaskCell

/-- The tasks that are owed a terminal event, and nothing else, are open. -/
structure Ledger (owed : List ℕ) (cells : ℕ → TaskCell) : Prop where
  nodup : owed.Nodup
  opened : ∀ t ∈ owed, (cells t).Open
  settled : ∀ t ∉ owed, (cells t).Fresh ∨ (cells t).Closed

namespace Ledger

variable {owed owed' : List ℕ} {cells : ℕ → TaskCell} {t : ℕ}

theorem perm (h : Ledger owed cells) (hperm : owed.Perm owed') : Ledger owed' cells :=
  ⟨hperm.nodup h.nodup, fun t ht => h.opened t (hperm.mem_iff.2 ht),
    fun t ht => h.settled t (fun hin => ht (hperm.mem_iff.1 hin))⟩

/-- Write to a task that stays owed its terminal event. -/
theorem write (h : Ledger owed cells) (ht : t ∈ owed) {c : TaskCell} (hc : c.Open) :
    Ledger owed (update cells t c) := by
  refine ⟨h.nodup, fun u hu => ?_, fun u hu => ?_⟩
  · by_cases hut : u = t
    · rw [hut, update_self]
      exact hc
    · rw [update_of_ne hut]
      exact h.opened u hu
  · have hut : u ≠ t := fun heq => hu (heq ▸ ht)
    rw [update_of_ne hut]
    exact h.settled u hu

theorem close (h : Ledger (t :: owed) cells) {c : TaskCell} (hc : c.Closed) :
    Ledger owed (update cells t c) := by
  obtain ⟨hnot, hnodup⟩ := List.nodup_cons.1 h.nodup
  refine ⟨hnodup, fun u hu => ?_, fun u hu => ?_⟩
  · have hut : u ≠ t := fun heq => hnot (heq ▸ hu)
    rw [update_of_ne hut]
    exact h.opened u (List.mem_cons_of_mem t hu)
  · by_cases hut : u = t
    · rw [hut, update_self]
      exact Or.inr hc
    · rw [update_of_ne hut]
      exact h.settled u (by simp [hut, hu])

theorem fresh (h : Ledger owed cells) (ht : (cells t).submitted = false) :
    t ∉ owed ∧ (cells t).Fresh := by
  have hnot : t ∉ owed := by
    intro hin
    simp [(h.opened t hin).submitted] at ht
  refine ⟨hnot, ?_⟩
  rcases h.settled t hnot with hfresh | hclosed
  · exact hfresh
  · simp [hclosed.submitted] at ht

theorem enter (h : Ledger owed cells) (ht : (cells t).submitted = false) {c : TaskCell}
    (hc : c.Open) : Ledger (t :: owed) (update cells t c) := by
  obtain ⟨hnot, -⟩ := h.fresh ht
  refine ⟨List.nodup_cons.2 ⟨hnot, h.nodup⟩, fun u hu => ?_, fun u hu => ?_⟩
  · by_cases hut : u = t
    · rw [hut, update_self]
      exact hc
    · rw [update_of_ne hut]
      exact h.opened u ((List.mem_cons.1 hu).resolve_left hut)
  · rw [List.mem_cons, not_or] at hu
    rw [update_of_ne hu.1]
    exact h.settled u hu.2

/-- Write the flags of a task, which its callers do at any time. -/
theorem flag (h : Ledger owed cells) {c : TaskCell} (hsubmitted : c.submitted = (cells t).submitted)
    (hevents : c.events = (cells t).events) (hsampler : c.sampler = (cells t).sampler)
    (hfreed : c.freed = (cells t).freed) : Ledger owed (update cells t c) := by
  refine ⟨h.nodup, fun u hu => ?_, fun u hu => ?_⟩
  · by_cases hut : u = t
    · subst hut
      have ho := h.opened u hu
      rw [update_self]
      exact ⟨hsubmitted ▸ ho.submitted, hevents ▸ ho.events, by rw [hfreed, hsampler, ho.freed]⟩
    · rw [update_of_ne hut]
      exact h.opened u hu
  · by_cases hut : u = t
    · subst hut
      rw [update_self]
      rcases h.settled u hu with hf | hc
      · exact Or.inl ⟨hsubmitted ▸ hf.submitted, hevents ▸ hf.events, hsampler ▸ hf.sampler,
          hfreed ▸ hf.freed⟩
      · exact Or.inr ⟨hsubmitted ▸ hc.submitted, hevents ▸ hc.events, hsampler ▸ hc.sampler,
          hfreed ▸ hc.freed⟩
    · rw [update_of_ne hut]
      exact h.settled u hu

end Ledger

namespace LoopState

variable {s : LoopState}

/-- Tasks that are still active and have given up their sampler, or have just been taken out. -/
def freedTasks : Phase → List ℕ
  | .sample _ _ completed => completed
  | .finishing todo => todo
  | _ => []

def failing : Phase → Bool
  | .failing _ _ => true
  | .ended => true
  | _ => false

structure Inv (s : LoopState) : Prop where
  ledger : Ledger (s.active ++ unnotified s.phase) s.cells
  held_nodup : (held s.phase).Nodup
  held_active : ∀ t ∈ held s.phase, t ∈ s.active
  freed : ∀ t ∈ freedTasks s.phase, (s.cells t).sampler = false
  drained : s.terminalError.isSome → s.active = []
  failed : failing s.phase = true → s.terminalError.isSome

theorem inv_initial : Inv {} :=
  ⟨⟨List.nodup_nil, by simp [unnotified], fun _ _ => Or.inl ⟨rfl, rfl, rfl, rfl⟩⟩,
    List.nodup_nil, by simp [held], by simp [freedTasks], by simp, by simp [failing]⟩

theorem Inv.active_nodup (h : Inv s) : s.active.Nodup :=
  h.ledger.nodup.of_append_left

theorem filter_append_perm {active ids : List ℕ} (hnodup : active.Nodup) (hids : ids.Nodup)
    (hsub : ∀ t ∈ ids, t ∈ active) :
    (active.filter (fun t => t ∉ ids) ++ ids).Perm active := by
  rw [List.perm_ext_iff_of_nodup _ hnodup]
  · intro t
    by_cases ht : t ∈ ids <;> simp [ht]
    exact hsub t ht
  · refine (hnodup.filter _).append hids ?_
    intro t ht hin
    simp [hin] at ht

/-- The loop goes to a phase that owes the same tasks and holds no others. -/
theorem Inv.goto (h : Inv s) {phase : Phase} (howed : unnotified phase = unnotified s.phase)
    (hheld : (held phase).Subperm (held s.phase))
    (hfreed : ∀ t ∈ freedTasks phase, t ∈ freedTasks s.phase)
    (hfailing : failing phase = true → failing s.phase = true) : Inv (s.goto phase) := by
  refine ⟨?_, ?_, fun t ht => h.held_active t (hheld.subset ht),
    fun t ht => h.freed t (hfreed t ht), h.drained, fun hf => h.failed (hfailing hf)⟩
  · change Ledger (s.active ++ unnotified phase) s.cells
    rw [howed]
    exact h.ledger
  · obtain ⟨l, hperm, hsub⟩ := hheld
    exact hperm.nodup_iff.1 (h.held_nodup.sublist hsub)

/-- The loop takes tasks that it holds out of `active_`, to notify them. -/
theorem Inv.take (h : Inv s) {ids : List ℕ} {phase : Phase}
    (howed : unnotified phase = unnotified s.phase ++ ids)
    (hheld : (ids ++ held phase).Subperm (held s.phase))
    (hfreed : ∀ t ∈ freedTasks phase, t ∈ freedTasks s.phase)
    (hfailing : failing phase = false) : Inv ((s.removeActive ids).goto phase) := by
  obtain ⟨l, hperm, hsub⟩ := hheld
  have hnodup : (ids ++ held phase).Nodup := hperm.nodup_iff.1 (h.held_nodup.sublist hsub)
  have hin : ∀ t ∈ ids ++ held phase, t ∈ s.active :=
    fun t ht => h.held_active t (hsub.subset (hperm.mem_iff.2 ht))
  refine ⟨?_, hnodup.of_append_right, ?_, fun t ht => h.freed t (hfreed t ht), ?_, ?_⟩
  · change Ledger (s.active.filter (fun t => t ∉ ids) ++ unnotified phase) s.cells
    have hids := filter_append_perm h.active_nodup hnodup.of_append_left
      fun t ht => hin t (List.mem_append_left _ ht)
    refine h.ledger.perm ?_
    rw [howed]
    calc s.active ++ unnotified s.phase
        ~ s.active.filter (fun t => t ∉ ids) ++ ids ++ unnotified s.phase :=
          hids.symm.append_right _
      _ = s.active.filter (fun t => t ∉ ids) ++ (ids ++ unnotified s.phase) :=
          List.append_assoc _ _ _
      _ ~ s.active.filter (fun t => t ∉ ids) ++ (unnotified s.phase ++ ids) :=
          List.perm_append_comm.append_left _
  · intro t ht
    have hnot : t ∉ ids := fun hids => List.disjoint_of_nodup_append hnodup hids ht
    exact List.mem_filter.2 ⟨hin t (List.mem_append_right _ ht), by simp [hnot]⟩
  · intro he
    change s.active.filter _ = []
    rw [h.drained he, List.filter_nil]
  · intro hf
    exact absurd (hf.symm.trans hfailing) (by decide)

/-- Nothing that the loop holds is lost when it fails with every task it took out notified. -/
theorem Inv.failAll (h : Inv s) (hnone : unnotified s.phase = []) (stage : FailStage)
    (error : String) : Inv (s.failAll stage error) := by
  refine ⟨?_, List.nodup_nil, by simp [LoopState.failAll, held],
    by simp [LoopState.failAll, freedTasks], fun _ => rfl, fun _ => rfl⟩
  have hledger := h.ledger
  rw [hnone, List.append_nil] at hledger
  exact hledger

theorem Inv.notify (h : Inv s) {t : ℕ} {error : Option String} {rest : Phase}
    (howed : unnotified s.phase = t :: unnotified rest)
    (hheld : held rest = held s.phase) (hfreed : freedTasks rest = [])
    (hs : freedTasks s.phase = [])
    (hfailing : failing rest = true → failing s.phase = true) :
    Inv (s.notify t error rest) := by
  have ht : t ∈ s.active ++ unnotified s.phase := by simp [howed]
  by_cases hsampler : (s.cells t).sampler
  · rw [LoopState.notify, if_pos hsampler]
    exact ⟨h.ledger.write ht (h.ledger.opened t ht).freeSampler, h.held_nodup, h.held_active,
      by simp [modify, hs], h.drained, h.failed⟩
  · rw [LoopState.notify, if_neg hsampler]
    refine ⟨?_, ?_, ?_, by simp [LoopState.goto, hfreed], h.drained, fun hf => h.failed (hfailing hf)⟩
    · refine (h.ledger.perm ?_).close ((h.ledger.opened t ht).pushDone (by simpa using hsampler) error)
      rw [howed]
      exact List.perm_middle
    · change (held rest).Nodup
      rw [hheld]
      exact h.held_nodup
    · change ∀ u ∈ held rest, u ∈ s.active
      rw [hheld]
      exact h.held_active

theorem Inv.flag (h : Inv s) (t : ℕ) {f : TaskCell → TaskCell}
    (hf : f = (fun c => { c with cancelled := true }) ∨
      f = fun c => { c with callerStop := true }) : Inv (s.modify t f) := by
  have hsampler : ∀ u, ((s.modify t f).cells u).sampler = (s.cells u).sampler := by
    intro u
    by_cases hu : u = t <;> rcases hf with rfl | rfl <;> simp [modify, update, hu]
  refine ⟨?_, h.held_nodup, h.held_active, ?_, h.drained, h.failed⟩
  · rcases hf with rfl | rfl <;> exact h.ledger.flag rfl rfl rfl rfl
  · intro u hu
    rw [hsampler]
    exact h.freed u hu

theorem inv_submit (h : Inv s) {t : ℕ} {s' : LoopState} (hstep : s.submit t = some s') :
    Inv s' := by
  rw [LoopState.submit] at hstep
  by_cases hsub : (s.cells t).submitted
  · simp [hsub] at hstep
  · rw [if_neg hsub] at hstep
    have hnew : (s.cells t).submitted = false := by simpa using hsub
    obtain ⟨hnot, hfresh⟩ := h.ledger.fresh hnew
    have hrefused : ∀ error, Inv ((s.modify t fun c => { c with submitted := true }).modify t
        fun c => c.freeSampler.pushEvent (.done error)) := by
      intro error
      refine ⟨?_, h.held_nodup, h.held_active, ?_, h.drained, h.failed⟩
      · refine (h.ledger.enter hnew hfresh.toOpen).close ?_
        simp only [modify, update_self]
        exact hfresh.toOpen.freeSampler.pushDone (TaskCell.freeSampler_sampler _) error
      · intro u hu
        by_cases hut : u = t
        · simp [hut, modify, TaskCell.pushEvent]
        · simpa [modify, update_of_ne hut] using h.freed u hu
    cases herr : s.terminalError with
    | some error =>
        simp only [herr, Option.some.injEq] at hstep
        exact hstep ▸ hrefused (some error)
    | none =>
        cases hstop : s.stop with
        | true =>
            simp only [herr, hstop, Option.some.injEq] at hstep
            exact hstep ▸ hrefused (some "scheduler stopped")
        | false =>
            simp only [herr, hstop, Option.some.injEq] at hstep
            subst hstep
            refine ⟨?_, h.held_nodup, fun u hu => List.mem_append_left _ (h.held_active u hu), ?_,
              by simp [modify, herr], h.failed⟩
            · refine (h.ledger.enter hnew hfresh.toOpen).perm ?_
              change t :: (s.active ++ unnotified s.phase) ~
                s.active ++ [t] ++ unnotified s.phase
              rw [List.append_assoc]
              exact List.perm_middle.symm
            · intro u hu
              by_cases hut : u = t
              · have hfreed := h.freed u hu
                rw [hut, hfresh.sampler] at hfreed
                cases hfreed
              · simpa [modify, update_of_ne hut] using h.freed u hu

/-- The build loop moves its next task to one of its three lists. -/
theorem inv_advance_build (h : Inv s) {todo live cancelled stopped : List ℕ}
    (hphase : s.phase = .build todo live cancelled stopped) {s' : LoopState}
    (hstep : s.advance = some s') : Inv s' := by
  have hmove : ∀ phase, held phase ~ held s.phase → unnotified phase = [] →
      freedTasks phase = [] → failing phase = false → Inv (s.goto phase) := by
    intro phase hheld howed hfreed hfailing
    exact h.goto (howed.trans (by rw [hphase]; rfl)) hheld.subperm (by simp [hfreed])
      (by simp [hfailing])
  cases todo with
  | nil =>
      simp only [LoopState.advance, hphase, Option.some.injEq] at hstep
      subst hstep
      refine hmove _ ?_ rfl rfl rfl
      simp only [held, hphase, List.nil_append, List.append_assoc live]
      exact List.perm_append_comm
  | cons t todo =>
      simp only [LoopState.advance, hphase] at hstep
      have hcount : ∀ phase, (∀ u, (held phase).count u = (held s.phase).count u) →
          held phase ~ held s.phase := fun phase => List.perm_iff_count.2
      by_cases hc : (s.cells t).cancelled
      · rw [if_pos hc, Option.some.injEq] at hstep
        subst hstep
        refine hmove _ (hcount _ fun u => ?_) rfl rfl rfl
        simp only [held, hphase, List.count_append, List.count_cons, List.count_nil]
        omega
      · rw [if_neg hc] at hstep
        by_cases hcs : (s.cells t).callerStop
        · rw [if_pos hcs, Option.some.injEq] at hstep
          subst hstep
          refine hmove _ (hcount _ fun u => ?_) rfl rfl rfl
          simp only [held, hphase, List.count_append, List.count_cons, List.count_nil]
          omega
        · rw [if_neg hcs, Option.some.injEq] at hstep
          subst hstep
          refine hmove _ (hcount _ fun u => ?_) rfl rfl rfl
          simp only [held, hphase, List.count_append, List.count_cons, List.count_nil]
          omega

theorem inv_advance (h : Inv s) {s' : LoopState} (hstep : s.advance = some s') : Inv s' := by
  cases hphase : s.phase with
  | head =>
      simp only [LoopState.advance, hphase] at hstep
      by_cases hstop : s.stop
      · rw [if_pos hstop, Option.some.injEq] at hstep
        subst hstep
        exact h.goto (by simp [hphase, unnotified]) (List.nil_subperm) (by simp [freedTasks])
          (by simp [failing])
      · rw [if_neg hstop] at hstep
        by_cases hempty : s.active.isEmpty
        · simp [hempty] at hstep
        · rw [if_neg hempty, Option.some.injEq] at hstep
          subst hstep
          have hledger := h.ledger
          rw [hphase] at hledger
          exact ⟨hledger, h.active_nodup, fun t ht => ht, by simp [LoopState.goto, freedTasks],
            h.drained, by simp [LoopState.goto, failing]⟩
  | prepare tasks => simp [LoopState.advance, hphase] at hstep
  | rejecting todo tasks =>
      cases todo with
      | nil =>
          simp only [LoopState.advance, hphase, Option.some.injEq] at hstep
          subst hstep
          exact h.goto (by simp [hphase, unnotified]) (by simp [hphase, held, List.Subperm.refl])
            (by simp [freedTasks]) (by simp [failing])
      | cons item todo =>
          simp only [LoopState.advance, hphase, Option.some.injEq] at hstep
          subst hstep
          exact h.notify (by simp [hphase, unnotified]) (by simp [hphase, held]) rfl
            (by simp [hphase, freedTasks]) (by simp [failing])
  | build todo live cancelled stopped => exact inv_advance_build h hphase hstep
  | removing todo removed live =>
      cases todo with
      | nil =>
          simp only [LoopState.advance, hphase, Option.some.injEq] at hstep
          subst hstep
          exact h.goto (by simp [hphase, unnotified]) (by simp [hphase, held, List.Subperm.refl])
            (by simp [freedTasks]) (by simp [failing])
      | cons t todo =>
          simp only [LoopState.advance, hphase, Option.some.injEq] at hstep
          subst hstep
          exact h.take (by simp [hphase, unnotified]) (by simp [hphase, held, List.Subperm.refl])
            (by simp [freedTasks]) rfl
  | notifying todo live =>
      cases todo with
      | nil =>
          simp only [LoopState.advance, hphase, Option.some.injEq] at hstep
          subst hstep
          exact h.goto (by simp [hphase, unnotified]) (by simp [hphase, held, List.Subperm.refl])
            (by simp [freedTasks]) (by simp [failing])
      | cons t todo =>
          simp only [LoopState.advance, hphase, Option.some.injEq] at hstep
          subst hstep
          exact h.notify (by simp [hphase, unnotified]) (by simp [hphase, held]) rfl
            (by simp [hphase, freedTasks]) (by simp [failing])
  | decode live => simp [LoopState.advance, hphase] at hstep
  | sample todo live completed =>
      cases todo with
      | nil =>
          simp only [LoopState.advance, hphase, Option.some.injEq] at hstep
          subst hstep
          refine h.take (by simp [hphase, unnotified]) ?_ (by simp [hphase, freedTasks]) rfl
          simp only [held, hphase, List.append_nil, List.nil_append]
          exact (List.sublist_append_right live completed).subperm
      | cons t todo => simp [LoopState.advance, hphase] at hstep
  | finishing todo =>
      cases todo with
      | nil =>
          simp only [LoopState.advance, hphase, Option.some.injEq] at hstep
          subst hstep
          exact h.goto (by simp [hphase, unnotified]) (by simp [hphase, held, List.Subperm.refl])
            (by simp [freedTasks]) (by simp [failing])
      | cons t todo =>
          simp only [LoopState.advance, hphase, Option.some.injEq] at hstep
          subst hstep
          have hledger : Ledger (t :: (s.active ++ todo)) s.cells := by
            refine h.ledger.perm ?_
            rw [hphase]
            exact List.perm_middle
          have hfreed : ∀ u ∈ t :: todo, (s.cells u).sampler = false := by
            simpa [hphase, freedTasks] using h.freed
          refine ⟨hledger.close ((hledger.opened t List.mem_cons_self).pushDone
            (hfreed t List.mem_cons_self) none), List.nodup_nil, by simp [LoopState.goto, held],
            ?_, h.drained, by simp [LoopState.goto, failing]⟩
          intro u hu
          have hnot : u ≠ t := by
            rintro rfl
            exact (List.nodup_cons.1 hledger.nodup).1 (List.mem_append_right _ hu)
          simpa [LoopState.goto, modify, update_of_ne hnot] using
            hfreed u (List.mem_cons_of_mem t hu)
  | failing stage todo =>
      cases todo with
      | nil =>
          have hend : ∀ phase, unnotified phase = [] → held phase = [] → freedTasks phase = [] →
              Inv (s.goto phase) := fun phase howed hheld hfreed =>
            h.goto (howed.trans (by rw [hphase]; rfl)) (by simp [hheld]) (by simp [hfreed])
              (by simp [hphase, failing])
          cases stage <;> simp only [LoopState.advance, hphase, Option.some.injEq] at hstep <;>
            subst hstep <;> exact hend _ rfl rfl rfl
      | cons t todo =>
          have hadvance : s.advance =
              some (s.notify t s.terminalError (.failing stage todo)) := by
            cases stage <;> simp only [LoopState.advance, hphase]
          rw [hadvance, Option.some.injEq] at hstep
          subst hstep
          exact h.notify (by simp [hphase, unnotified]) (by simp [hphase, held]) rfl
            (by simp [hphase, freedTasks]) (by simp [hphase, failing])
  | exit =>
      simp only [LoopState.advance, hphase, Option.some.injEq] at hstep
      subst hstep
      exact h.failAll (by simp [hphase, unnotified]) .final _
  | ended => simp [LoopState.advance, hphase] at hstep

theorem inv_verdict (h : Inv s) {rejected : List (ℕ × String)} {s' : LoopState}
    (hstep : s.verdict rejected = some s') : Inv s' := by
  cases hphase : s.phase with
  | prepare tasks =>
      simp only [LoopState.verdict, hphase] at hstep
      by_cases hids : (rejected.map Prod.fst).Nodup ∧ ∀ t ∈ rejected.map Prod.fst, t ∈ tasks
      · rw [if_pos hids, Option.some.injEq] at hstep
        subst hstep
        refine h.take (by simp [hphase, unnotified]) ?_ (by simp [freedTasks]) rfl
        have htasks : tasks.Nodup := by simpa [hphase, held] using h.held_nodup
        rw [hphase]
        exact (List.perm_append_comm.trans (filter_append_perm htasks hids.1 hids.2)).subperm
      · rw [if_neg hids] at hstep
        cases hstep
  | _ => simp [LoopState.verdict, hphase] at hstep

/-- A task that the sampling loop has finished with. -/
theorem inv_sample (h : Inv s) {t : ℕ} {todo live completed : List ℕ}
    (hphase : s.phase = .sample (t :: todo) live completed) :
    (∀ id, Inv (s.modify t fun c => c.pushEvent (.token id))) ∧
      Inv (s.goto (.sample todo (live ++ [t]) completed)) ∧
      Inv ((s.modify t TaskCell.freeSampler).goto (.sample todo live (completed ++ [t]))) := by
  have howed : t ∈ s.active ++ unnotified s.phase :=
    List.mem_append_left _ (h.held_active t (by simp [hphase, held]))
  have hopen := h.ledger.opened t howed
  have hperm : ∀ live' completed', (∀ u, (todo ++ live' ++ completed').count u =
      (t :: todo ++ live ++ completed).count u) →
      held (.sample todo live' completed') ~ held s.phase := by
    intro live' completed' hcount
    rw [hphase]
    exact List.perm_iff_count.2 hcount
  refine ⟨fun id => ?_, ?_, ?_⟩
  · refine ⟨h.ledger.write howed (hopen.pushToken id), h.held_nodup, h.held_active, fun u hu => ?_,
      h.drained, h.failed⟩
    by_cases hut : u = t
    · subst hut
      simpa [modify, TaskCell.pushEvent] using h.freed u hu
    · simpa [modify, update_of_ne hut] using h.freed u hu
  · refine h.goto (by simp [hphase, unnotified]) (hperm _ _ fun u => ?_).subperm
      (by simp [hphase, freedTasks]) (by simp [failing])
    simp only [List.count_append, List.count_cons, List.count_nil]
    omega
  · have hheld := hperm live (completed ++ [t]) fun u => by
      simp only [List.count_append, List.count_cons, List.count_nil]
      omega
    refine ⟨?_, hheld.nodup_iff.2 h.held_nodup,
      fun u hu => h.held_active u (hheld.mem_iff.1 hu), fun u hu => ?_, h.drained,
      by simp [LoopState.goto, failing]⟩
    · have hledger := h.ledger.write howed hopen.freeSampler
      rw [hphase] at hledger
      exact hledger
    · by_cases hut : u = t
      · simp [hut, LoopState.goto, modify]
      · have hin : u ∈ completed := by simpa [LoopState.goto, freedTasks, hut] using hu
        simpa [LoopState.goto, modify, update_of_ne hut] using
          h.freed u (by simpa [hphase, freedTasks] using hin)

/-- An exception comes when every task that the loop has taken out is notified. -/
def QuietThrow (s : LoopState) (action : Action) : Prop :=
  ∀ what, action = .throw what → unnotified s.phase = []

instance (s : LoopState) (action : Action) : Decidable (QuietThrow s action) :=
  match action with
  | .throw what => decidable_of_iff (unnotified s.phase = []) (by simp [QuietThrow])
  | .submit _ | .cancel _ | .callerStop _ | .stop | .advance | .verdict _ | .decoded | .idle
  | .decodeFailed _ | .emit _ | .keep | .complete => .isTrue (by simp [QuietThrow])

theorem inv_step (h : Inv s) {action : Action} (hquiet : QuietThrow s action) {s' : LoopState}
    (hstep : s.step action = some s') : Inv s' := by
  cases action with
  | submit t => exact inv_submit h hstep
  | cancel t =>
      simp only [LoopState.step, Option.some.injEq] at hstep
      exact hstep ▸ h.flag t (Or.inl rfl)
  | callerStop t =>
      simp only [LoopState.step, Option.some.injEq] at hstep
      exact hstep ▸ h.flag t (Or.inr rfl)
  | stop =>
      simp only [LoopState.step, Option.some.injEq] at hstep
      exact hstep ▸ ⟨h.ledger, h.held_nodup, h.held_active, h.freed, h.drained, h.failed⟩
  | advance => exact inv_advance h hstep
  | verdict rejected => exact inv_verdict h hstep
  | decoded =>
      cases hphase : s.phase with
      | decode live =>
          simp only [LoopState.step, hphase, Option.some.injEq] at hstep
          exact hstep ▸ h.goto (by simp [hphase, unnotified])
            (by simp [hphase, held, List.Subperm.refl]) (by simp [freedTasks]) (by simp [failing])
      | _ => simp [LoopState.step, hphase] at hstep
  | idle =>
      cases hphase : s.phase with
      | decode live =>
          simp only [LoopState.step, hphase, Option.some.injEq] at hstep
          exact hstep ▸ h.goto (by simp [hphase, unnotified]) List.nil_subperm
            (by simp [freedTasks]) (by simp [failing])
      | _ => simp [LoopState.step, hphase] at hstep
  | decodeFailed error =>
      cases hphase : s.phase with
      | decode live =>
          simp only [LoopState.step, hphase, Option.some.injEq] at hstep
          exact hstep ▸ h.failAll (by simp [hphase, unnotified]) .decode error
      | _ => simp [LoopState.step, hphase] at hstep
  | emit id =>
      rw [LoopState.step] at hstep
      split at hstep
      case h_1 t todo live hphase =>
        rw [Option.some.injEq] at hstep
        exact hstep ▸ (inv_sample h hphase).1 id
      case h_2 => cases hstep
  | keep =>
      rw [LoopState.step] at hstep
      split at hstep
      case h_1 t todo live completed hphase =>
        rw [Option.some.injEq] at hstep
        exact hstep ▸ (inv_sample h hphase).2.1
      case h_2 => cases hstep
  | complete =>
      rw [LoopState.step] at hstep
      split at hstep
      case h_1 t todo live completed hphase =>
        rw [Option.some.injEq] at hstep
        exact hstep ▸ (inv_sample h hphase).2.2
      case h_2 => cases hstep
  | throw what =>
      have hnone := hquiet what rfl
      rw [LoopState.step, LoopState.throw] at hstep
      split at hstep
      case h_5 =>
        rw [Option.some.injEq] at hstep
        exact hstep ▸ h.failAll hnone .handler _
      all_goals cases hstep

/-- What a step of the loop dereferences it holds, or has still to notify. -/
theorem mem_of_mem_derefs {phase : Phase} {action : Action} {t : ℕ}
    (ht : t ∈ derefs phase action) : t ∈ held phase ∨ t ∈ unnotified phase := by
  cases action with
  | verdict rejected => exact Or.inl ht
  | decoded => exact Or.inl ht
  | advance =>
      simp only [derefs] at ht
      split at ht <;> simp_all [held, unnotified]
  | emit id | keep | complete =>
      simp only [derefs] at ht
      split at ht <;> simp_all [held]
  | submit _ | cancel _ | callerStop _ | stop | idle | decodeFailed _ | throw _ => cases ht

theorem modify_cells_of_ne {t u : ℕ} (h : t ≠ u) (f : TaskCell → TaskCell) :
    (s.modify u f).cells t = s.cells t :=
  update_of_ne h _ _

theorem notify_cells_of_ne {t u : ℕ} (h : t ≠ u) (error : Option String) (rest : Phase) :
    (s.notify u error rest).cells t = s.cells t := by
  rw [LoopState.notify]
  by_cases hs : (s.cells u).sampler
  · rw [if_pos hs, modify_cells_of_ne h]
  · rw [if_neg hs]
    exact update_of_ne h _ _

theorem advance_cells {s' : LoopState} (hstep : s.advance = some s') {t : ℕ}
    (ht : t ∉ derefs s.phase .advance) : s'.cells t = s.cells t := by
  rw [LoopState.advance] at hstep
  split at hstep
  case h_1 =>
    split at hstep
    · exact Option.some.inj hstep ▸ rfl
    · split at hstep
      · cases hstep
      · exact Option.some.inj hstep ▸ rfl
  case h_5 =>
    split at hstep
    · exact Option.some.inj hstep ▸ rfl
    · split at hstep <;> exact Option.some.inj hstep ▸ rfl
  case h_3 u error todo tasks hphase | h_9 u todo live hphase | h_15 stage u todo hphase =>
    have htu : t ≠ u := by simpa [hphase, derefs] using ht
    exact Option.some.inj hstep ▸ notify_cells_of_ne htu _ _
  case h_12 u todo hphase =>
    have htu : t ≠ u := by simpa [hphase, derefs] using ht
    exact Option.some.inj hstep ▸ update_of_ne htu _ _
  case h_17 => cases hstep
  all_goals exact Option.some.inj hstep ▸ rfl

/-- The loop writes only to tasks that it dereferences. -/
theorem step_cells_of_not_mem_derefs {action : Action} (hloop : action.ofLoop = true)
    {s' : LoopState} (hstep : s.step action = some s') {t : ℕ} (ht : t ∉ derefs s.phase action) :
    s'.cells t = s.cells t := by
  cases action with
  | advance => exact advance_cells hstep ht
  | verdict rejected =>
      rw [LoopState.step, LoopState.verdict] at hstep
      split at hstep
      · dsimp only at hstep
        split at hstep
        · exact Option.some.inj hstep ▸ rfl
        · cases hstep
      · cases hstep
  | decoded | idle | decodeFailed error =>
      rw [LoopState.step] at hstep
      split at hstep
      · exact Option.some.inj hstep ▸ rfl
      · cases hstep
  | keep =>
      rw [LoopState.step] at hstep
      split at hstep
      · exact Option.some.inj hstep ▸ rfl
      · cases hstep
  | emit id | complete =>
      rw [LoopState.step] at hstep
      split at hstep
      case h_1 u todo live completed hphase =>
        have htu : t ≠ u := by simpa [hphase, derefs] using ht
        exact Option.some.inj hstep ▸ update_of_ne htu _ _
      case h_2 => cases hstep
  | throw what =>
      rw [LoopState.step, LoopState.throw] at hstep
      split at hstep
      case h_5 => exact Option.some.inj hstep ▸ rfl
      all_goals cases hstep
  | submit _ | cancel _ | callerStop _ | stop => cases hloop

/-- The loop waits for work or has ended: unless something throws, it has no step. -/
def Waits (s : LoopState) : Prop :=
  ∀ action, action.ofLoop = true → (∀ what, action ≠ .throw what) → s.step action = none

structure TerminalEvents (s : LoopState) : Prop where
  once : ∀ t, (s.cells t).doneCount ≤ 1
  last : ∀ t, ∀ e ∈ (s.cells t).events.dropLast, e.isDone = false
  freed_once : ∀ t, (s.cells t).freed ≤ 1
  freed : ∀ t, (s.cells t).doneCount = 1 → (s.cells t).freed = 1
  gone : ∀ t, (s.cells t).doneCount = 1 →
    t ∉ s.active ∧ ∀ action, t ∉ derefs s.phase action
  untouched : ∀ t, (s.cells t).doneCount = 1 → ∀ action, action.ofLoop = true →
    ∀ s', s.step action = some s' → s'.cells t = s.cells t
  waiting : ∀ t, (s.cells t).submitted = true → (s.cells t).doneCount = 0 →
    t ∈ s.active ∨ t ∈ unnotified s.phase
  answered : Waits s → ∀ t, (s.cells t).submitted = true → (s.cells t).doneCount = 1

/-- A loop that waits has no task left. -/
theorem Inv.eq_nil_of_waits (h : Inv s) (hwaits : Waits s) :
    s.active ++ unnotified s.phase = [] := by
  have hadvance : s.advance = none := hwaits .advance rfl (by simp)
  cases hphase : s.phase with
  | head =>
      simp only [LoopState.advance, hphase] at hadvance
      by_cases hstop : s.stop
      · simp [hstop] at hadvance
      · by_cases hempty : s.active.isEmpty
        · simpa [unnotified] using hempty
        · simp [hstop, hempty] at hadvance
  | prepare tasks =>
      have hverdict := hwaits (.verdict []) rfl (by simp)
      simp [LoopState.step, LoopState.verdict, hphase] at hverdict
  | decode live =>
      have hdecoded := hwaits .decoded rfl (by simp)
      simp [LoopState.step, hphase] at hdecoded
  | sample todo live completed =>
      have hkeep := hwaits .keep rfl (by simp)
      cases todo <;> simp [LoopState.step, LoopState.advance, hphase] at hkeep hadvance
  | ended =>
      have herror := h.failed (by simp [hphase, failing])
      simp [h.drained herror, unnotified]
  | build todo live cancelled stopped =>
      cases todo with
      | nil => simp [LoopState.advance, hphase] at hadvance
      | cons t todo =>
          simp only [LoopState.advance, hphase] at hadvance
          by_cases hc : (s.cells t).cancelled
          · simp [hc] at hadvance
          · by_cases hcs : (s.cells t).callerStop <;> simp [hc, hcs] at hadvance
  | failing stage todo =>
      cases todo <;> cases stage <;> simp [LoopState.advance, hphase] at hadvance
  | exit => simp [LoopState.advance, hphase] at hadvance
  | rejecting todo _ => cases todo <;> simp [LoopState.advance, hphase] at hadvance
  | removing todo _ _ => cases todo <;> simp [LoopState.advance, hphase] at hadvance
  | notifying todo _ => cases todo <;> simp [LoopState.advance, hphase] at hadvance
  | finishing todo => cases todo <;> simp [LoopState.advance, hphase] at hadvance

theorem Inv.doneCount_le_one (h : Inv s) (t : ℕ) : (s.cells t).doneCount ≤ 1 := by
  by_cases ht : t ∈ s.active ++ unnotified s.phase
  · rw [(h.ledger.opened t ht).doneCount_eq_zero]
    omega
  · rcases h.ledger.settled t ht with hfresh | hclosed
    · rw [hfresh.doneCount_eq_zero]
      omega
    · rw [hclosed.doneCount_eq_one]

theorem Inv.closed_of_doneCount (h : Inv s) {t : ℕ} (ht : (s.cells t).doneCount = 1) :
    t ∉ s.active ++ unnotified s.phase ∧ (s.cells t).Closed := by
  have hnot : t ∉ s.active ++ unnotified s.phase := by
    intro hin
    rw [(h.ledger.opened t hin).doneCount_eq_zero] at ht
    omega
  refine ⟨hnot, ?_⟩
  rcases h.ledger.settled t hnot with hfresh | hclosed
  · rw [hfresh.doneCount_eq_zero] at ht
    omega
  · exact hclosed

theorem Inv.closed_of_submitted (h : Inv s) {t : ℕ} (ht : (s.cells t).submitted = true)
    (hnot : t ∉ s.active ++ unnotified s.phase) : (s.cells t).Closed := by
  rcases h.ledger.settled t hnot with hfresh | hclosed
  · rw [hfresh.submitted] at ht
    cases ht
  · exact hclosed

theorem Inv.terminalEvents (h : Inv s) : TerminalEvents s where
  once := h.doneCount_le_one
  last := by
    intro t e he
    by_cases ht : t ∈ s.active ++ unnotified s.phase
    · exact (h.ledger.opened t ht).events e (List.mem_of_mem_dropLast he)
    · rcases h.ledger.settled t ht with hfresh | hclosed
      · simp [hfresh.events] at he
      · obtain ⟨tokens, error, heq, htokens⟩ := hclosed.events
        rw [heq, List.dropLast_concat] at he
        exact htokens e he
  freed_once := by
    intro t
    by_cases ht : t ∈ s.active ++ unnotified s.phase
    · rw [(h.ledger.opened t ht).freed]
      by_cases hs : (s.cells t).sampler <;> simp [hs]
    · rcases h.ledger.settled t ht with hfresh | hclosed
      · rw [hfresh.freed]
        omega
      · rw [hclosed.freed]
  freed := fun t ht => (h.closed_of_doneCount ht).2.freed
  gone := by
    intro t ht
    obtain ⟨hnot, -⟩ := h.closed_of_doneCount ht
    exact ⟨fun hin => hnot (List.mem_append_left _ hin),
      fun action hin => hnot <| List.mem_append.2 <|
        (mem_of_mem_derefs hin).imp_left (h.held_active t)⟩
  untouched := by
    intro t ht action hloop s' hstep
    obtain ⟨hnot, -⟩ := h.closed_of_doneCount ht
    refine step_cells_of_not_mem_derefs hloop hstep fun hin => hnot <| List.mem_append.2 <|
      (mem_of_mem_derefs hin).imp_left (h.held_active t)
  waiting := by
    intro t hsub hzero
    by_contra hnot
    rw [← List.mem_append] at hnot
    rw [(h.closed_of_submitted hsub hnot).doneCount_eq_one] at hzero
    omega
  answered := by
    intro hwaits t hsub
    have hnil := h.eq_nil_of_waits hwaits
    exact (h.closed_of_submitted hsub (by simp [hnil])).doneCount_eq_one

/-- A task is rejected by the pool after another one has been generated to its end. -/
def rejectingRun : List Action :=
  [.submit 1, .advance, .verdict [], .advance, .advance, .advance, .advance, .advance, .decoded,
    .emit 5, .complete, .advance, .advance, .advance, .submit 2, .advance,
    .verdict [(2, "request exceeds shared context pool")], .advance, .advance]

/-- An exception comes between the removal of the rejected task and its notification. -/
def lostRun : List Action :=
  [.submit 1, .advance, .verdict [(1, "request exceeds shared context pool")],
    .throw "bad allocation", .advance, .advance, .advance]

end LoopState

end InferDeck.LlamaWrapper
