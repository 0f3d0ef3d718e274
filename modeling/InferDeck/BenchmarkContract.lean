import InferDeck.BenchmarkInvariant

/-!
# The lifecycle of a benchmark

The resource that a benchmark has reserved stays reserved until the run has passed through `finish`
and is given back once, by its own holder. Every started run comes to one final state, `restored`
says that the models are loaded again, and a cancel that was answered with Ok is respected where it
came before the run's last look at the flag.
-/

namespace InferDeck.Gateway.ProfileBenchmark

open InferDeck.Execution InferDeck.Model

section Purpose

variable (registry : ModelRegistry)

/-- The models of the resource are loaded again. A previous primary among them is loaded last. -/
structure Reloaded (run : Run) : Prop where
  loads : ∀ name ∈ run.resident, onResource registry run.job.resource name = true →
    name ∈ run.loads
  last : ∀ name, run.primaryBefore = some name → name ∈ run.resident →
    onResource registry run.job.resource name = true → run.loads.getLast? = some name

/-- Where the restore selected a model, the last one is that which was primary before the run. -/
def KeepsPrimary (run : Run) : Prop :=
  ∀ name, run.primaryBefore = some name →
    ∀ last, (run.loads.filter (selects registry)).getLast? = some last → last = name

/-- The steps that are left, with so many models to restore and candidates at most. -/
def RunPc.remaining (models candidates : ℕ) : RunPc → ℕ
  | .entered | .over => 0
  | .releasing (.compare _) => 1
  | .releasing .exchange => 2
  | .finishing _ _ => 3
  | .concluding _ | .flagCheck _ => 4
  | .scoring _ => 5
  | .finalCheck _ => 6
  | .restoring rest _ _ => 7 + rest.length
  | .trialCheck remaining => 8 + models + 2 * remaining
  | .trial remaining | .baseline remaining => 9 + models + 2 * remaining
  | .selecting => 10 + models + 2 * candidates
  | .firstCheck => 11 + models + 2 * candidates
  | .unloading rest => 12 + models + 2 * candidates + rest.length

/-- How many models are resident is known once the run has asked. -/
def Run.measure (run : Run) : ℕ ×ₗ ℕ :=
  toLex (if run.pc = .entered then 1 else 0,
    run.pc.remaining run.restoreOrder.length run.job.candidateLimit)

namespace World

/-- A worker that is not over can take a step, each of its steps brings it nearer to the end, and
nobody else moves it. -/
structure Advances (w : World) : Prop where
  moves : ∀ run, w.worker = some run → run.pc ≠ .over →
    ∃ input w', w.next registry (.run input) = some w'
  nears : ∀ run input w', w.worker = some run → w.next registry (.run input) = some w' →
    ∃ run', w'.worker = some run' ∧ run'.id = run.id ∧ run'.measure < run.measure
  stays : ∀ run action w', w.worker = some run → run.pc ≠ .over →
    w.next registry action = some w' → (∀ input, action ≠ .run input) → w'.worker = some run

structure Lawful (w : World) : Prop where
  reserved : ∀ run, w.worker = some run → run.unfinished = true →
    w.maintenance = run.job.resource ∧ w.holder = some (.benchmark .worker run.job)
  releasesOwn : ∀ r ∈ w.released, ∃ party, r.2 = some (.benchmark party r.1)
  releasesOnce : (w.released.map fun r => r.1.ticket).Nodup
  releases : ∀ e ∈ w.ended, e.run.job ∈ w.released.map Prod.fst ∨
    ∃ run, w.worker = some run ∧ run.job = e.run.job ∧ run.pc ≠ .over
  started : ∀ id ∈ w.endedIds, id ∈ w.started
  endsOnce : w.endedIds.Nodup
  ends : ∀ id ∈ w.started, id ∈ w.endedIds ∧ ¬w.runLive id ∨ id ∉ w.endedIds ∧ w.runLive id
  final : ∀ e ∈ w.ended, e.snapshot.state.final = true
  restored : ∀ e ∈ w.ended, e.snapshot.restored = true → Reloaded registry e.run
  cancelled : ∀ e ∈ w.ended, e.run.id ∈ w.cancels →
    e.snapshot.state ≠ .completed ∧ e.snapshot.hasRecommendation = false
  advances : w.Advances registry

/-- The run does not begin with a primary of another resource while a restored model would become
the primary one. -/
def OwnPrimary (w : World) (action : Action) : Prop :=
  ∀ resident name run, action = .run (.residents resident (some name)) → w.worker = some run →
    name ∈ resident ∧ onResource registry run.job.resource name = true ∨
      ∀ model ∈ resident, onResource registry run.job.resource model = true →
        selects registry model = false

end World

end Purpose

section Restore

variable {registry : ModelRegistry} {run : Run}

theorem mem_restoreOrder {name : String} (hname : name ∈ run.previousModels) :
    name ∈ run.restoreOrder := by
  rw [Run.restoreOrder, List.mem_append]
  by_cases hprimary : run.previousPrimary = some name
  · exact Or.inr (by rw [hprimary]; exact List.mem_singleton_self name)
  · exact Or.inl (List.mem_filter.2 ⟨hname, by simpa using hprimary⟩)

theorem previousPrimary_eq {name : String} (hbefore : run.primaryBefore = some name)
    (hname : name ∈ run.previousModels) : run.previousPrimary = some name := by
  rw [Run.previousPrimary, hbefore, Option.filter_some, if_pos]
  simpa using hname

theorem restoreOrder_getLast {name : String} (hprimary : run.previousPrimary = some name) :
    run.restoreOrder.getLast? = some name := by
  rw [Run.restoreOrder, hprimary, Option.toList_some, List.getLast?_concat]

theorem Run.Begun.reloaded (h : run.Begun registry) (hloads : run.loads = run.restoreOrder) :
    Reloaded registry run := by
  have hprevious {name : String} (hname : name ∈ run.resident)
      (hresource : onResource registry run.job.resource name = true) :
      name ∈ run.previousModels := by
    rw [h.previous]
    exact List.mem_filter.2 ⟨hname, hresource⟩
  refine ⟨fun name hname hresource => ?_, fun name hbefore hname hresource => ?_⟩
  · rw [hloads]
    exact mem_restoreOrder (hprevious hname hresource)
  · rw [hloads]
    exact restoreOrder_getLast (previousPrimary_eq hbefore (hprevious hname hresource))

/-- The primary is among the models of the run, or loading these selects none. -/
def Run.OwnsPrimary (registry : ModelRegistry) (run : Run) : Prop :=
  ∀ name, run.primaryBefore = some name → name ∈ run.previousModels ∨
    ∀ model ∈ run.previousModels, selects registry model = false

theorem Run.Begun.keepsPrimary (h : run.Begun registry) (hloads : run.loads = run.restoreOrder)
    (howns : run.OwnsPrimary registry) : KeepsPrimary registry run := by
  intro name hbefore last hlast
  have hselected : selects registry name = true := by
    have hall := h.selected
    rwa [hbefore, Option.all_some] at hall
  rcases howns name hbefore with hname | hnone
  · rw [hloads, Run.restoreOrder, previousPrimary_eq hbefore hname, Option.toList_some,
      List.filter_append, List.filter_singleton, hselected, cond_true, List.getLast?_concat,
      Option.some.injEq] at hlast
    exact hlast.symm
  · obtain ⟨hin, hselects⟩ := List.mem_filter.1 (List.mem_of_getLast? hlast)
    rw [hloads, Run.restoreOrder, List.mem_append] at hin
    have hmem : last ∈ run.previousModels := by
      rcases hin with hin | hin
      · exact (List.mem_filter.1 hin).1
      · rw [Option.mem_toList, Run.previousPrimary, Option.filter_eq_some_iff] at hin
        simpa using hin.2
    rw [hnone last hmem] at hselects
    cases hselects

end Restore

section Progress

variable {registry : ModelRegistry} {w w' : World} {run run' : Run}

theorem Run.measure_lt_of_entered (hentered : run.pc = .entered) (hentered' : run'.pc ≠ .entered) :
    run'.measure < run.measure := by
  rw [Run.measure, Run.measure, if_pos hentered, if_neg hentered', Prod.Lex.toLex_lt_toLex]
  exact Or.inl Nat.zero_lt_one

theorem Run.measure_lt (hentered : run.pc ≠ .entered) (hentered' : run'.pc ≠ .entered)
    (horder : run'.restoreOrder = run.restoreOrder) (hjob : run'.job = run.job)
    (hlt : run'.pc.remaining run.restoreOrder.length run.job.candidateLimit <
      run.pc.remaining run.restoreOrder.length run.job.candidateLimit) :
    run'.measure < run.measure := by
  rw [Run.measure, Run.measure, if_neg hentered, if_neg hentered', horder, hjob,
    Prod.Lex.toLex_lt_toLex]
  exact Or.inr ⟨rfl, hlt⟩

/-- What a step of the worker does to the run: it comes nearer to its end, and what was resident
before it is asked once. -/
structure Goes (registry : ModelRegistry) (run : Run) (input : RunInput) (run' : Run) : Prop where
  id : run'.id = run.id
  job : run'.job = run.job
  nears : run'.measure < run.measure
  residents : run'.previousModels = run.previousModels ∧ run'.primaryBefore = run.primaryBefore ∨
    ∃ resident primary, input = .residents resident primary ∧
      run'.previousModels = resident.filter (onResource registry run.job.resource) ∧
      run'.primaryBefore = primary

theorem Goes.goto {input : RunInput} {pc : RunPc} (hentered : run.pc ≠ .entered)
    (hentered' : pc ≠ .entered)
    (hlt : pc.remaining run.restoreOrder.length run.job.candidateLimit <
      run.pc.remaining run.restoreOrder.length run.job.candidateLimit) :
    Goes registry run input { run with pc } :=
  ⟨rfl, rfl, Run.measure_lt hentered hentered' rfl rfl hlt, Or.inl ⟨rfl, rfl⟩⟩

theorem Goes.restore {input : RunInput} {after : AfterRestore} (hentered : run.pc ≠ .entered)
    (hlt : 7 + run.restoreOrder.length <
      run.pc.remaining run.restoreOrder.length run.job.candidateLimit) :
    Goes registry run input (run.restore after) :=
  ⟨rfl, rfl, Run.measure_lt hentered (by simp [Run.restore]) rfl rfl hlt, Or.inl ⟨rfl, rfl⟩⟩

theorem World.releaseResource_worker (job : Job) (pc : ReleasePc) :
    (w.releaseResource job pc).1.worker = w.worker ∧
      (w.releaseResource job pc).1.ended = w.ended := by
  cases pc with
  | exchange =>
      rw [releaseResource]
      split <;> exact ⟨rfl, rfl⟩
  | compare owned =>
      rw [releaseResource]
      split <;> exact ⟨rfl, rfl⟩

theorem World.releaseResource_goes {job : Job} {pc pc' : ReleasePc}
    (h : (w.releaseResource job pc).2 = some pc') :
    pc = .exchange ∧ ∃ owned, pc' = .compare owned := by
  cases pc with
  | exchange =>
      rw [releaseResource] at h
      split at h
      · cases h
      · exact ⟨rfl, _, (Option.some.inj h).symm⟩
  | compare owned =>
      rw [releaseResource] at h
      split at h <;> cases h

theorem World.runStep_goes {input : RunInput}
    (hstep : w.runStep registry run run.pc input = some w') :
    (∃ run', w'.worker = some run' ∧ Goes registry run input run') ∧
      (w'.ended = w.ended ∨ ∃ snapshot, w'.ended = w.ended ++ [⟨run, snapshot⟩]) := by
  unfold World.runStep at hstep
  split at hstep
  case h_1 resident primary hpc =>
    split at hstep
    · obtain rfl := Option.some.inj hstep
      exact ⟨⟨_, rfl, rfl, rfl, Run.measure_lt_of_entered hpc (by simp),
        Or.inr ⟨resident, primary, rfl, rfl, rfl⟩⟩, Or.inl rfl⟩
    · cases hstep
  case h_2 name rest ok hpc =>
    obtain rfl := Option.some.inj hstep
    cases ok with
    | true =>
        exact ⟨⟨_, rfl, .goto (by simp [hpc]) (by simp) (by simp [hpc, RunPc.remaining])⟩, Or.inl rfl⟩
    | false =>
        refine ⟨⟨_, rfl, .restore (by simp [hpc]) ?_⟩, Or.inl rfl⟩
        rw [hpc, RunPc.remaining]
        omega
  case h_3 hpc =>
    obtain rfl := Option.some.inj hstep
    exact ⟨⟨_, rfl, .goto (by simp [hpc]) (by simp) (by simp [hpc, RunPc.remaining])⟩, Or.inl rfl⟩
  case h_4 hpc =>
    obtain rfl := Option.some.inj hstep
    split
    · refine ⟨⟨_, rfl, .restore (by simp [hpc]) ?_⟩, Or.inl rfl⟩
      rw [hpc, RunPc.remaining]
      omega
    · exact ⟨⟨_, rfl, .goto (by simp [hpc]) (by simp) (by simp [hpc, RunPc.remaining])⟩, Or.inl rfl⟩
  case h_5 candidates hpc =>
    split at hstep
    · cases hstep
    rename_i hbound
    split at hstep
    · obtain rfl := Option.some.inj hstep
      refine ⟨⟨_, rfl, .restore (by simp [hpc]) ?_⟩, Or.inl rfl⟩
      rw [hpc, RunPc.remaining]
      omega
    · obtain rfl := Option.some.inj hstep
      refine ⟨⟨_, rfl, .goto (by simp [hpc]) (by simp) ?_⟩, Or.inl rfl⟩
      rw [hpc, RunPc.remaining, RunPc.remaining]
      omega
  case h_6 selected outcome hpc =>
    cases outcome with
    | measured =>
        obtain rfl := Option.some.inj hstep
        exact ⟨⟨_, rfl, .goto (by simp [hpc]) (by simp) (by simp [hpc, RunPc.remaining])⟩, Or.inl rfl⟩
    | error | exception =>
        obtain rfl := Option.some.inj hstep
        refine ⟨⟨_, rfl, .restore (by simp [hpc]) ?_⟩, Or.inl rfl⟩
        rw [hpc, RunPc.remaining]
        omega
  case h_7 remaining hpc =>
    cases remaining with
    | zero =>
        obtain rfl := Option.some.inj hstep
        refine ⟨⟨_, rfl, .restore (by simp [hpc]) ?_⟩, Or.inl rfl⟩
        rw [hpc, RunPc.remaining]
        omega
    | succ remaining =>
        obtain rfl := Option.some.inj hstep
        split
        · refine ⟨⟨_, rfl, .restore (by simp [hpc]) ?_⟩, Or.inl rfl⟩
          rw [hpc, RunPc.remaining]
          omega
        · refine ⟨⟨_, rfl, .goto (by simp [hpc]) (by simp) ?_⟩, Or.inl rfl⟩
          rw [hpc, RunPc.remaining, RunPc.remaining]
          omega
  case h_8 remaining outcome hpc =>
    split at hstep
    · obtain rfl := Option.some.inj hstep
      refine ⟨⟨_, rfl, .restore (by simp [hpc]) ?_⟩, Or.inl rfl⟩
      rw [hpc, RunPc.remaining]
      omega
    · obtain rfl := Option.some.inj hstep
      exact ⟨⟨_, rfl, .goto (by simp [hpc]) (by simp) (by simp [hpc, RunPc.remaining])⟩, Or.inl rfl⟩
  case h_9 name rest ok after loaded hpc =>
    obtain rfl := Option.some.inj hstep
    exact ⟨⟨_, rfl, rfl, rfl, Run.measure_lt (by simp [hpc]) (by simp) rfl rfl
      (by simp [hpc, RunPc.remaining]), Or.inl ⟨rfl, rfl⟩⟩, Or.inl rfl⟩
  case h_10 ok after hpc =>
    obtain rfl := Option.some.inj hstep
    refine ⟨⟨_, rfl, .goto (by simp [hpc]) ?_ ?_⟩, Or.inl rfl⟩
    · cases after <;> simp
    · cases after <;> simp [hpc, RunPc.remaining]
  case h_11 restored hpc =>
    obtain rfl := Option.some.inj hstep
    exact ⟨⟨_, rfl, .goto (by simp [hpc]) (by simp) (by simp [hpc, RunPc.remaining])⟩, Or.inl rfl⟩
  case h_12 restored hpc =>
    obtain rfl := Option.some.inj hstep
    refine ⟨⟨_, rfl, .goto (by simp [hpc]) ?_ ?_⟩, Or.inl rfl⟩
    · split <;> simp
    · split <;> simp [hpc, RunPc.remaining]
  case h_13 restored best hpc =>
    obtain rfl := Option.some.inj hstep
    exact ⟨⟨_, rfl, .goto (by simp [hpc]) (by simp) (by simp [hpc, RunPc.remaining])⟩, Or.inl rfl⟩
  case h_14 restored hpc =>
    obtain rfl := Option.some.inj hstep
    exact ⟨⟨_, rfl, .goto (by simp [hpc]) (by simp) (by simp [hpc, RunPc.remaining])⟩, Or.inl rfl⟩
  case h_15 state restored hpc =>
    obtain rfl := Option.some.inj hstep
    exact ⟨⟨_, rfl, .goto (by simp [hpc]) (by simp) (by simp [hpc, RunPc.remaining])⟩,
      Or.inr ⟨_, rfl⟩⟩
  case h_16 pc hpc =>
    have hended := (releaseResource_worker (w := w) run.job pc).2
    rcases hrelease : w.releaseResource run.job pc with ⟨w₁, next⟩
    rw [hrelease] at hstep hended
    obtain rfl := Option.some.inj hstep
    cases next with
    | none =>
        refine ⟨⟨_, rfl, .goto (by simp [hpc]) (by simp) ?_⟩, Or.inl hended⟩
        cases pc <;> simp [hpc, RunPc.remaining]
    | some pc' =>
        obtain ⟨rfl, owned, rfl⟩ := releaseResource_goes (congrArg Prod.snd hrelease)
        exact ⟨⟨_, rfl, .goto (by simp [hpc]) (by simp) (by simp [hpc, RunPc.remaining])⟩,
          Or.inl hended⟩
  case h_17 => cases hstep

/-- The other parties' steps leave the worker, or start it. -/
theorem World.worker_of_next {action : Action} (hrun : ∀ input, action ≠ .run input)
    (hstep : w.next registry action = some w') :
    w'.ended = w.ended ∧ (w'.worker = w.worker ∨
      ∃ k job id, w.starts k = .spawning job id ∧ w'.worker = some { id, job }) := by
  cases action with
  | run input => exact absurd rfl (hrun input)
  | start k model candidateLimit =>
      rw [World.next, World.start] at hstep
      split_ifs at hstep
      · exact Option.some.inj hstep ▸ ⟨rfl, Or.inl rfl⟩
      · exact Option.some.inj hstep ▸ ⟨rfl, Or.inl rfl⟩
      · exact Option.some.inj hstep ▸ ⟨rfl, Or.inl rfl⟩
  | startStep k ok =>
      rw [World.next, World.startStep] at hstep
      split at hstep
      case h_8 job id hpc =>
        split_ifs at hstep
        · obtain rfl := Option.some.inj hstep
          exact ⟨rfl, Or.inr ⟨k, job, id, hpc, rfl⟩⟩
        · exact Option.some.inj hstep ▸ ⟨rfl, Or.inl rfl⟩
      case h_10 job pc hpc =>
        have hsame := releaseResource_worker (w := w) job pc
        rcases hrelease : w.releaseResource job pc with ⟨w₁, next⟩
        rw [hrelease] at hstep hsame
        obtain rfl := Option.some.inj hstep
        exact ⟨hsame.2, Or.inl hsame.1⟩
      case h_1 => cases hstep
      case h_2 | h_5 =>
        split_ifs at hstep
        all_goals exact Option.some.inj hstep ▸ ⟨rfl, Or.inl rfl⟩
      all_goals exact Option.some.inj hstep ▸ ⟨rfl, Or.inl rfl⟩
  | cancel =>
      obtain rfl := Option.some.inj hstep
      rw [World.cancel]
      split <;> exact ⟨rfl, Or.inl rfl⟩
  | storeReserve =>
      obtain rfl := Option.some.inj hstep
      rw [World.storeReserve]
      split <;> exact ⟨rfl, Or.inl rfl⟩
  | storeRelease =>
      obtain rfl := Option.some.inj hstep
      rw [World.storeRelease]
      split_ifs <;> exact ⟨rfl, Or.inl rfl⟩

end Progress

section Laws

variable {registry : ModelRegistry} {w w' : World}

theorem grip_of_not_over {run : Run} (hpc : run.pc ≠ .over) :
    ∃ pc, run.grip = some (run.job, pc) := by
  unfold Run.grip
  split
  · rename_i hover
    exact absurd hover hpc
  · exact ⟨_, rfl⟩
  · exact ⟨_, rfl⟩

theorem World.runStep_possible (registry : ModelRegistry) (w : World) {run : Run}
    (hpc : run.pc ≠ .over) : ∃ input w', w.runStep registry run run.pc input = some w' := by
  cases hrun : run.pc with
  | entered => exact ⟨.residents [] none, _, rfl⟩
  | unloading rest =>
      cases rest with
      | nil => exact ⟨.step, _, rfl⟩
      | cons name rest => exact ⟨.lifecycle true, _, rfl⟩
  | firstCheck | flagCheck restored | finalCheck restored | concluding restored
  | finishing state restored | releasing pc => exact ⟨.step, _, rfl⟩
  | selecting => exact ⟨.select 0, _, rfl⟩
  | baseline selected => exact ⟨.runner .measured, _, rfl⟩
  | trialCheck remaining => cases remaining <;> exact ⟨.step, _, rfl⟩
  | trial remaining => exact ⟨.runner .exception, _, rfl⟩
  | restoring rest ok after =>
      cases rest with
      | nil => exact ⟨.step, _, rfl⟩
      | cons name rest => exact ⟨.lifecycle true, _, rfl⟩
  | scoring restored => exact ⟨.score none, _, rfl⟩
  | _ => exact absurd hrun hpc

theorem World.Inv.advances (h : w.Inv registry) : w.Advances registry where
  moves run hrun hpc := by
    obtain ⟨input, w', hstep⟩ := World.runStep_possible registry w hpc
    exact ⟨input, w', by rw [World.next, hrun, Option.bind_some, hstep]⟩
  nears run input w' hrun hstep := by
    rw [World.next, hrun, Option.bind_some] at hstep
    obtain ⟨⟨run', hrun', hgoes⟩, -⟩ := World.runStep_goes hstep
    exact ⟨run', hrun', hgoes.id, hgoes.nears⟩
  stays run action w' hrun hpc hstep hother := by
    rcases (World.worker_of_next hother hstep).2 with hsame | ⟨k, job, id, hspawning, -⟩
    · rw [hsame, hrun]
    · have hgrip : w.grip (.starter k) = some (job, .marked) := by
        rw [World.grip, hspawning]
        rfl
      have hworker : w.grip .worker = none := h.reservation.alone hgrip (by simp)
      obtain ⟨pc, hrun'⟩ := grip_of_not_over hpc
      rw [World.grip, hrun, Option.bind_some, hrun'] at hworker
      cases hworker

theorem World.Inv.lawful (h : w.Inv registry) : w.Lawful registry where
  reserved run hrun hunfinished := by
    have hgrip : w.grip .worker = some (run.job, .marked) := by
      rw [World.grip, hrun, Option.bind_some, World.grip_of_unfinished hunfinished]
    have hheld := (h.reservation.holds _ _ _ hgrip).1
    exact ⟨by rw [h.reservation.maintenance, hheld]; rfl, hheld⟩
  releasesOwn := h.tickets.own
  releasesOnce := h.tickets.once
  releases e he := by
    refine (h.tickets.ended e he).imp_right fun hheld => ?_
    obtain ⟨pc, hgrip⟩ := h.reservation.held _ _ hheld
    obtain ⟨run, hrun, hgrip⟩ := Option.bind_eq_some_iff.1 hgrip
    refine ⟨run, hrun, ?_, fun hover => ?_⟩
    · have hpc : run.pc ≠ .over := fun hover => by
        rw [Run.grip, hover] at hgrip
        cases hgrip
      obtain ⟨pc', hgrip'⟩ := grip_of_not_over hpc
      rw [hgrip', Option.some.injEq, Prod.mk.injEq] at hgrip
      exact hgrip.1
    · rw [Run.grip, hover] at hgrip
      cases hgrip
  started := h.identity.ended
  endsOnce := h.identity.once
  ends id hid := by
    have hexclusive (hlive : w.runLive id) : id ∉ w.endedIds := by
      obtain ⟨run, hrun, rfl, hunfinished⟩ := hlive
      have hannounced : w.announced .worker = some run.id := by
        rw [World.announced, hrun, Option.bind_some, Run.announced, if_pos hunfinished]
      exact (h.identity.current _ _ hannounced).2.2.1
    rcases (h.identity.spawned id hid).2 with hended | hlive
    · exact Or.inl ⟨hended, fun hlive => hexclusive hlive hended⟩
    · exact Or.inr ⟨hexclusive hlive, hlive⟩
  final e he := (h.endings e he).final
  restored e he hrestored := (h.endings e he).begun.reloaded ((h.endings e he).restored hrestored)
  cancelled e he := (h.endings e he).cancelled
  advances := h.advances

/-- Where no run begins with a primary of another resource, all of them keep theirs. -/
structure World.Owned (registry : ModelRegistry) (w : World) : Prop where
  worker : ∀ run, w.worker = some run → run.OwnsPrimary registry
  ended : ∀ e ∈ w.ended, e.run.OwnsPrimary registry

theorem World.Owned.next {action : Action} (h : w.Owned registry)
    (howns : w.OwnPrimary registry action) (hstep : w.next registry action = some w') :
    w'.Owned registry := by
  by_cases hrun : ∃ input, action = .run input
  · obtain ⟨input, rfl⟩ := hrun
    obtain ⟨run, hrun, hstep⟩ := Option.bind_eq_some_iff.1 hstep
    obtain ⟨⟨run', hrun', hgoes⟩, hended⟩ := World.runStep_goes hstep
    refine ⟨fun run'' hrun'' => ?_, fun e he => ?_⟩
    · rw [hrun', Option.some.injEq] at hrun''
      subst hrun''
      rcases hgoes.residents with ⟨hprevious, hbefore⟩ | ⟨resident, primary, rfl, hprevious, hbefore⟩
      · intro name hname
        rw [hbefore] at hname
        rw [hprevious]
        exact h.worker run hrun name hname
      · intro name hname
        rw [hbefore] at hname
        subst hname
        rw [hprevious]
        rcases howns resident name run rfl hrun with hin | hnone
        · exact Or.inl (List.mem_filter.2 hin)
        · refine Or.inr fun model hmodel => ?_
          obtain ⟨hin, hresource⟩ := List.mem_filter.1 hmodel
          exact hnone model hin hresource
    · rcases hended with hsame | ⟨snapshot, hended⟩
      · exact h.ended e (hsame ▸ he)
      · rw [hended] at he
        rcases List.mem_append.1 he with he | he
        · exact h.ended e he
        · obtain rfl := List.mem_singleton.1 he
          exact h.worker run hrun
  · push Not at hrun
    obtain ⟨hended, hworker⟩ := World.worker_of_next hrun hstep
    refine ⟨fun run hrun' => ?_, fun e he => h.ended e (hended ▸ he)⟩
    rcases hworker with hsame | ⟨k, job, id, -, hspawned⟩
    · exact h.worker run (hsame ▸ hrun')
    · rw [hspawned, Option.some.injEq] at hrun'
      subst hrun'
      intro name hname
      cases hname

theorem World.Inv.keepsPrimary (h : w.Inv registry) (howned : w.Owned registry) :
    ∀ e ∈ w.ended, e.snapshot.restored = true → KeepsPrimary registry e.run :=
  fun e he hrestored => (h.endings e he).begun.keepsPrimary ((h.endings e he).restored hrestored)
    (howned.ended e he)

theorem benchmark_lawful (registry : ModelRegistry) (actions : List Action)
    (htime : Meets (World.next registry) World.OnTime {} actions) :
    Always (World.next registry) (World.Lawful registry) {} actions ∧
      (Meets (World.next registry) (World.OwnPrimary registry) {} actions →
        Always (World.next registry)
          (fun w => ∀ e ∈ w.ended, e.snapshot.restored = true → KeepsPrimary registry e.run) {}
          actions) := by
  refine ⟨htime.always (I := World.Inv registry) (fun _ h => h.lawful)
    (fun _ _ _ h htime hstep => World.inv_next h htime hstep) World.inv_initial, fun howns => ?_⟩
  have hboth : Meets (World.next registry)
      (fun w action => w.OnTime action ∧ w.OwnPrimary registry action) {} actions := htime.and howns
  refine hboth.always (I := fun w => w.Inv registry ∧ w.Owned registry)
    (fun _ h => h.1.keepsPrimary h.2)
    (fun _ _ _ h hallowed hstep => ⟨World.inv_next h.1 hallowed.1 hstep, h.2.next hallowed.2 hstep⟩)
    ⟨World.inv_initial, ⟨fun run hrun => (by cases hrun), fun e he => absurd he List.not_mem_nil⟩⟩

instance (w : World) (action : Action) : Decidable (w.OnTime action) :=
  match action with
  | .cancel =>
      decidable_of_iff (∀ run ∈ w.worker, w.late run = false)
        ⟨fun h _ run hrun => h run hrun, fun h run hrun => h rfl run hrun⟩
  | .start _ _ _ | .startStep _ _ | .run _ | .storeReserve | .storeRelease =>
      .isTrue fun h => by cases h

instance (w : World) (action : Action) : Decidable (w.OwnPrimary registry action) :=
  match action with
  | .run (.residents resident (some name)) =>
      decidable_of_iff (∀ run ∈ w.worker,
          (resident.contains name && onResource registry run.job.resource name ||
            resident.all fun model =>
              !onResource registry run.job.resource model || !selects registry model) = true)
        ⟨fun h resident' name' run heq hrun => by
          obtain ⟨rfl, rfl⟩ : resident' = resident ∧ name' = name := by simpa [eq_comm] using heq
          simpa [imp_iff_not_or] using h run hrun,
         fun h run hrun => by simpa [imp_iff_not_or] using h resident name run rfl hrun⟩
  | .run (.residents _ none) | .run (.lifecycle _) | .run (.select _) | .run (.runner _)
  | .run (.score _) | .run .step | .start _ _ _ | .startStep _ _ | .cancel | .storeReserve
  | .storeRelease => .isTrue fun resident name run heq => by cases heq

def twoModels : ModelRegistry :=
  ⟨((∅ : Map String ModelInfo).insert "m" { name := "m" }).insert "n" { name := "n" }, [], ∅⟩

/-- Both models are resident, and the cancel comes after the baseline of a run. -/
def cancelledInTime : List Action :=
  .start 0 { name := "m" } 1 :: List.replicate 7 (.startStep 0 true) ++
    ([.residents ["m", "n"] (some "n"), .lifecycle true, .lifecycle true, .step, .step, .select 1,
      .runner .measured] : List RunInput).map .run ++ [.cancel] ++
    ([.step, .lifecycle true, .lifecycle true, .step, .step, .step, .step, .step] :
      List RunInput).map .run

theorem benchmark_lawful_inTime :
    (Always (World.next twoModels) (World.Lawful twoModels) {} cancelledInTime ∧
      Always (World.next twoModels)
        (fun w => ∀ e ∈ w.ended, e.snapshot.restored = true → KeepsPrimary twoModels e.run) {}
        cancelledInTime) ∧
      (exec (World.next twoModels) {} cancelledInTime).map (fun w =>
          w.ended.map fun e => (e.run.loads, e.snapshot.state, e.snapshot.restored)) =
        some [(["m", "n"], .cancelled, true)] := by
  have h := benchmark_lawful twoModels cancelledInTime (by decide +kernel)
  exact ⟨⟨h.1, h.2 (by decide +kernel)⟩, by decide +kernel⟩

def untilLastLook : List Action :=
  .start 0 { name := "m" } 1 :: List.replicate 7 (.startStep 0 true) ++
    [.run (.residents [] none), .run .step, .run .step, .run (.select 1), .run (.runner .measured),
      .run .step, .run (.runner .measured), .run .step, .run .step]

def conclude : List Action := [.run (.score (some 0)), .run .step, .run .step]

/-- The cancel is answered with Ok after the last look at the flag. -/
theorem lateCancel_completes :
    (exec (World.next ⟨∅, [], ∅⟩) {} (untilLastLook ++ [.run .step, .cancel] ++ conclude)).map
        (fun w => (w.cancels, w.ended.map fun e =>
          (e.run.id, e.snapshot.state, e.snapshot.hasRecommendation))) =
      some ([1], [(1, .completed, true)]) := by
  decide +kernel

end Laws

end InferDeck.Gateway.ProfileBenchmark
