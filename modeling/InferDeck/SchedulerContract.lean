import InferDeck.BenchmarkContract
import InferDeck.ProfileScheduler

/-!
# What the scheduler keeps of its runs

A model is started at most once on each local date and inside of its window. What is stored for a
model is the outcome of the run that was started for it, where no other run is announced between the
start and the poll that records its end: the poll looks at whatever run the manager shows.
-/

namespace InferDeck.Gateway.ProfileBenchmark.World

open InferDeck.Model

variable {registry : ModelRegistry} {w w' : World}

/-! ### The invariant of the benchmark without the record of the cancels -/

def unasked (w : World) : World := { w with cancels := [] }

theorem releaseResource_unasked (job : Job) (pc : ReleasePc) :
    w.unasked.releaseResource job pc =
      ((w.releaseResource job pc).1.unasked, (w.releaseResource job pc).2) := by
  cases pc with
  | exchange =>
      by_cases h : w.reserved = .none
      · simp [releaseResource, unasked, h]
      · simp [releaseResource, unasked, h]
  | compare owned =>
      by_cases h : w.maintenance = owned
      · simp [releaseResource, unasked, h]
      · simp [releaseResource, unasked, h]

theorem startStep_unasked (k : ℕ) (ok : Bool) :
    w.unasked.startStep k ok = (w.startStep k ok).map unasked := by
  unfold startStep
  rw [show w.unasked.starts = w.starts from rfl]
  split
  · rfl
  · by_cases h : w.maintenance = .none
    · simp [unasked, gotoStart, h]
    · simp [unasked, gotoStart, h]
  · rfl
  · rfl
  · rw [show w.unasked.workerOver = w.workerOver from rfl]
    cases w.workerOver <;> rfl
  · rfl
  · rfl
  · cases ok <;> rfl
  · rfl
  · rw [releaseResource_unasked]
    rfl

theorem runStep_unasked (run : Run) (pc : RunPc) (input : RunInput) :
    w.unasked.runStep registry run pc input = (w.runStep registry run pc input).map unasked := by
  unfold runStep
  split <;> try rfl
  · split <;> rfl
  · next ok => cases ok <;> rfl
  · simp only [show w.unasked.cancelRequested = w.cancelRequested from rfl]
    cases w.cancelRequested <;> rfl
  · split
    · rfl
    · split <;> rfl
  · split <;> rfl
  · simp only [show w.unasked.cancelRequested = w.cancelRequested from rfl]
    split
    · rfl
    · cases w.cancelRequested <;> rfl
  · split <;> rfl
  · rw [releaseResource_unasked]
    rfl

/-- A cancel at any time: without the record of the cancels nothing is said of them. -/
theorem Inv.unasked_cancel (h : w.unasked.Inv registry) : w.cancel.unasked.Inv registry := by
  rw [World.cancel]
  split
  · next hactive =>
    obtain ⟨party, hparty⟩ := h.identity.active hactive
    refine ⟨h.reservation.congr rfl rfl rfl rfl rfl, ?_, h.tickets.same rfl rfl rfl rfl,
      fun run hrun hunfinished => ?_, fun e he => (h.endings e he).congr rfl⟩
    · exact {
        current := fun other id hother => by
          obtain ⟨-, hcurrent, hrest⟩ := h.identity.current other id hother
          exact ⟨rfl, hcurrent, hrest⟩
        active := fun _ => ⟨party, hparty⟩
        quiet := fun k id hk => by
          obtain ⟨hunstarted, hrecommends, -⟩ := h.identity.quiet k id hk
          exact ⟨hunstarted, hrecommends, fun _ => rfl⟩
        live := h.identity.live
        spawned := h.identity.spawned
        ended := h.identity.ended
        cancels := fun id hin => absurd hin List.not_mem_nil
        once := h.identity.once }
    · have hphase := h.phase run hrun hunfinished
      exact ⟨hphase.begun, hphase.reloads, hphase.recommends, hphase.final,
        fun hin => absurd hin List.not_mem_nil⟩
  · exact h

theorem inv_unasked_next {action : Action} (h : w.unasked.Inv registry)
    (hstep : w.next registry action = some w') : w'.unasked.Inv registry := by
  cases action with
  | start k model candidateLimit =>
      have hstart : w.unasked.start k model candidateLimit = some w'.unasked := by
        have hsame : w.unasked.start k model candidateLimit =
            (w.start k model candidateLimit).map unasked := by
          unfold start
          simp only [show w.unasked.starts = w.starts from rfl, show w.unasked.state = w.state from rfl]
          split_ifs <;> rfl
        rw [hsame, show w.start k model candidateLimit = some w' from hstep]
        rfl
      exact h.start hstart
  | startStep k ok =>
      have hstart : w.unasked.startStep k ok = some w'.unasked := by
        rw [startStep_unasked, show w.startStep k ok = some w' from hstep]
        rfl
      exact h.startStep hstart
  | run input =>
      obtain ⟨run, hrun, hstep⟩ := Option.bind_eq_some_iff.1 hstep
      have hrunStep : w.unasked.runStep registry run run.pc input = some w'.unasked := by
        rw [runStep_unasked, hstep]
        rfl
      exact h.runStep hrun hrunStep
  | cancel =>
      obtain rfl := Option.some.inj hstep
      exact h.unasked_cancel
  | storeReserve =>
      obtain rfl := Option.some.inj hstep
      have hsame : w.storeReserve.unasked = w.unasked.storeReserve := by
        unfold storeReserve
        simp only [show w.unasked.maintenance = w.maintenance from rfl]
        split_ifs <;> rfl
      rw [hsame]
      exact h.storeReserve
  | storeRelease =>
      obtain rfl := Option.some.inj hstep
      have hsame : w.storeRelease.unasked = w.unasked.storeRelease := by
        unfold storeRelease
        simp only [show w.unasked.maintenance = w.maintenance from rfl,
          show w.unasked.storeReserved = w.storeReserved from rfl]
        split_ifs <;> rfl
      rw [hsame]
      exact h.storeRelease

/-! ### What a step does to the snapshot -/

structure SameRuns (w w' : World) : Prop where
  id : w'.state.id = w.state.id
  started : w'.started = w.started

theorem releaseResource_same (job : Job) (pc : ReleasePc) :
    (w.releaseResource job pc).1.state = w.state ∧ (w.releaseResource job pc).1.starts = w.starts ∧
      (w.releaseResource job pc).1.started = w.started ∧
      (w.releaseResource job pc).1.ended = w.ended := by
  cases pc <;> simp only [releaseResource] <;> split_ifs <;> exact ⟨rfl, rfl, rfl, rfl⟩

/-- What a step of the worker does to the snapshot: it is releasing, it finishes, or it works. -/
inductive Worked (w : World) (run : Run) (w' : World) : Prop
  | releasing (hpc : ∃ pc, run.pc = .releasing pc) (hstate : w'.state = w.state)
      (hended : w'.ended = w.ended)
  | finishing (state : BenchmarkState) (restored : Bool) (hpc : run.pc = .finishing state restored)
      (hstate : w'.state.state = state) (hended : w'.endedIds = w.endedIds ++ [run.id])
  | working (hpc : run.unfinished = true) (hfinishing : ∀ state restored,
      run.pc ≠ .finishing state restored) (hstate : w'.state.state = w.state.state)
      (hended : w'.ended = w.ended)

theorem worked_of_runStep {run : Run} {input : RunInput}
    (h : w.runStep registry run run.pc input = some w') :
    (w'.starts = w.starts ∧ SameRuns w w') ∧ Worked w run w' := by
  generalize hpc : run.pc = pc at h
  have hworking {w' : World} (hunfinished : pc ≠ .over ∧ ∀ r, pc ≠ .releasing r)
      (hfinishing : ∀ state restored, pc ≠ .finishing state restored)
      (hsame : w'.starts = w.starts ∧ SameRuns w w') (hstate : w'.state.state = w.state.state)
      (hended : w'.ended = w.ended) : (w'.starts = w.starts ∧ SameRuns w w') ∧ Worked w run w' := by
    refine ⟨hsame, .working ?_ (hpc ▸ hfinishing) hstate hended⟩
    unfold Run.unfinished
    split
    · next r hr => exact absurd (hpc.symm.trans hr) (hunfinished.2 r)
    · next hr => exact absurd (hpc.symm.trans hr) hunfinished.1
    · rfl
  unfold runStep at h
  split at h
  case h_1 =>
    split at h
    · obtain rfl := Option.some.inj h
      exact hworking (by simp) (by simp) ⟨rfl, rfl, rfl⟩ rfl rfl
    · cases h
  case h_5 =>
    split at h
    · cases h
    · split at h <;>
        (obtain rfl := Option.some.inj h; exact hworking (by simp) (by simp) ⟨rfl, rfl, rfl⟩ rfl rfl)
  case h_7 =>
    split at h
    · obtain rfl := Option.some.inj h
      exact hworking (by simp) (by simp) ⟨rfl, rfl, rfl⟩ rfl rfl
    · split at h <;>
        (obtain rfl := Option.some.inj h; exact hworking (by simp) (by simp) ⟨rfl, rfl, rfl⟩ rfl rfl)
  case h_15 state restored =>
    obtain rfl := Option.some.inj h
    exact ⟨⟨rfl, rfl, rfl⟩, .finishing state restored hpc rfl (by simp [endedIds])⟩
  case h_16 pc =>
    obtain ⟨hstate, hstarts, hstarted, hended⟩ := w.releaseResource_same run.job pc
    generalize w.releaseResource run.job pc = released at h hstate hstarts hstarted hended
    obtain rfl := Option.some.inj h
    exact ⟨⟨hstarts, congrArg Snapshot.id hstate, hstarted⟩, .releasing ⟨pc, hpc⟩ hstate hended⟩
  case h_17 => cases h
  -- the others may branch once and leave the snapshot's state and id alone
  all_goals
    first
    | obtain rfl := Option.some.inj h
      exact hworking (by simp) (by simp) ⟨rfl, rfl, rfl⟩ rfl rfl
    | split at h <;>
        (obtain rfl := Option.some.inj h; exact hworking (by simp) (by simp) ⟨rfl, rfl, rfl⟩ rfl rfl)

/-- What a step of a call of `start` does to the snapshot: it announces a run, starts it, fails it,
or leaves all of this alone. -/
inductive Started (w : World) (k : ℕ) (ok : Bool) (w' : World) : Prop
  | announcing (job : Job) (hpc : w.starts k = .announcing job)
      (hpc' : w'.starts k = .spawning job w.nextId)
      (hid : w'.state.id = w.nextId) (hstarted : w'.started = w.started)
      (hended : w'.ended = w.ended)
  | spawning (job : Job) (id : ℕ) (hpc : w.starts k = .spawning job id) (hok : ok = true)
      (hpc' : w'.starts k = .idle) (hstate : w'.state = w.state)
      (hstarted : w'.started = w.started ++ [id]) (hended : w'.ended = w.ended)
  | unspawned (job : Job) (id : ℕ) (hpc : w.starts k = .spawning job id) (hok : ok = false)
      (hpc' : w'.starts k = .failing job id) (hstate : w'.state = w.state)
      (hstarted : w'.started = w.started) (hended : w'.ended = w.ended)
  | failing (job : Job) (id : ℕ) (hpc : w.starts k = .failing job id)
      (hpc' : w'.starts k ≠ .idle ∧ ∀ job id, w'.starts k ≠ .spawning job id)
      (hid : w'.state.id = w.state.id)
      (hstarted : w'.started = w.started) (hended : w'.ended = w.ended)
  | other (hpc : (∀ job, w.starts k ≠ .announcing job) ∧ (∀ job id, w.starts k ≠ .failing job id) ∧
        ∀ job id, w.starts k ≠ .spawning job id)
      (hpc' : (∀ job id, w'.starts k ≠ .spawning job id) ∧ ∀ job id, w'.starts k ≠ .failing job id)
      (hstate : w'.state = w.state) (hstarted : w'.started = w.started) (hended : w'.ended = w.ended)

theorem started_of_startStep {k : ℕ} {ok : Bool} (h : w.startStep k ok = some w') :
    (∀ j, j ≠ k → w'.starts j = w.starts j) ∧ Started w k ok w' := by
  unfold startStep at h
  split at h
  · cases h
  · next model limit hpc =>
    split at h <;> obtain rfl := Option.some.inj h <;>
      exact ⟨fun j hj => by simp [gotoStart, hj],
        .other (by simp [hpc]) (by simp [gotoStart]) rfl rfl rfl⟩
  · next job hpc =>
    obtain rfl := Option.some.inj h
    exact ⟨fun j hj => by simp [gotoStart, hj], .other (by simp [hpc]) (by simp [gotoStart]) rfl rfl rfl⟩
  · next job hpc =>
    obtain rfl := Option.some.inj h
    refine ⟨fun j hj => by simp [gotoStart, hj], .other (by simp [hpc]) ?_ rfl rfl rfl⟩
    cases ok <;> simp [gotoStart]
  · next job hpc =>
    split at h
    · obtain rfl := Option.some.inj h
      exact ⟨fun j hj => by simp [gotoStart, hj],
        .other (by simp [hpc]) (by simp [gotoStart]) rfl rfl rfl⟩
    · cases h
  · next job hpc =>
    obtain rfl := Option.some.inj h
    exact ⟨fun j hj => by simp [gotoStart, hj], .other (by simp [hpc]) (by simp [gotoStart]) rfl rfl rfl⟩
  · next job hpc =>
    obtain rfl := Option.some.inj h
    exact ⟨fun j hj => by simp [gotoStart, hj],
      .announcing job hpc (by simp [gotoStart]) rfl rfl rfl⟩
  · next job id hpc =>
    cases ok with
    | true =>
        obtain rfl := Option.some.inj h
        exact ⟨fun j hj => by simp [gotoStart, hj],
          .spawning job id hpc rfl (by simp [gotoStart]) rfl rfl rfl⟩
    | false =>
        obtain rfl := Option.some.inj h
        exact ⟨fun j hj => by simp [gotoStart, hj],
          .unspawned job id hpc rfl (by simp [gotoStart]) rfl rfl rfl⟩
  · next job id hpc =>
    obtain rfl := Option.some.inj h
    exact ⟨fun j hj => by simp [gotoStart, finish, hj],
      .failing job id hpc (by simp [gotoStart]) rfl rfl rfl⟩
  · next job pc hpc =>
    obtain ⟨hstate, hstarts, hstarted, hended⟩ := w.releaseResource_same job pc
    generalize w.releaseResource job pc = released at h hstate hstarts hstarted hended
    obtain rfl := Option.some.inj h
    refine ⟨fun j hj => by simp [gotoStart, hj, hstarts], .other (by simp [hpc]) ?_ hstate hstarted hended⟩
    cases released.2 <;> simp [gotoStart]

end InferDeck.Gateway.ProfileBenchmark.World

namespace InferDeck.Gateway.ProfileScheduler

open InferDeck.Model ProfileBenchmark InferDeck.Execution

variable {registry : ModelRegistry} {schedules : String → Schedule}

/-! ### The manager's snapshot -/

namespace Manager

variable {m m' : Manager}

/-- The snapshot of a started run that is not active shows what the run has written in `finish`. -/
structure Sound (registry : ModelRegistry) (m : Manager) : Prop where
  inv : m.world.unasked.Inv registry
  ids : m.outcomes.map Prod.fst = m.world.endedIds
  results : ∀ i ∈ m.world.started, m.world.state.id = i →
    m.world.state.state.active = true ∨ (i, m.outcome) ∈ m.outcomes

theorem Sound.initial : Sound registry {} :=
  ⟨World.inv_initial, rfl, fun _ hi => absurd hi List.not_mem_nil⟩

/-- Each run that ended has one outcome. -/
theorem Sound.single (h : m.Sound registry) : (m.outcomes.map Prod.fst).Nodup := by
  rw [h.ids]
  exact h.inv.identity.once

theorem Sound.same {world : ProfileBenchmark.World} {details : Details} {outcomes : List (ℕ × Outcome)}
    (h : m.Sound registry) (hinv : world.unasked.Inv registry)
    (hstate : world.state = m.world.state) (hstarted : world.started = m.world.started)
    (hended : world.ended = m.world.ended) (hdetails : details = m.details)
    (houtcomes : outcomes = m.outcomes) : Sound registry { world, details, outcomes } := by
  refine ⟨hinv, ?_, ?_⟩
  · rw [houtcomes, h.ids, World.endedIds, World.endedIds, hended]
  · simp only [outcome, hstate, hstarted, hdetails, houtcomes]
    exact h.results

/-- The run that a worker or a starter has announced is active. -/
theorem Sound.active (h : m.Sound registry) {party : Party} {id : ℕ}
    (hparty : m.world.announced party = some id) :
    m.world.state.state.active = true ∧ m.world.state.id = id :=
  ⟨(h.inv.identity.current party id hparty).1, (h.inv.identity.current party id hparty).2.1⟩

theorem Sound.startStep (h : m.Sound registry) {k : ℕ} {ok : Bool} {written : Details}
    {world : ProfileBenchmark.World} (hinv : world.unasked.Inv registry)
    (hstep : m.world.startStep k ok = some world) :
    Sound registry
      { world, details := m.detailsAfter (.startStep k ok) written, outcomes := m.outcomes } := by
  obtain ⟨-, hstarted⟩ := World.started_of_startStep hstep
  cases hstarted with
  | announcing job hpc hpc' hid hstarted hended =>
      refine ⟨hinv, by rw [h.ids, World.endedIds, World.endedIds, hended], fun i hi hcurrent => ?_⟩
      have hi : i ∈ m.world.started := hstarted ▸ hi
      exact absurd (hid.symm.trans hcurrent) (h.inv.identity.spawned i hi).1.ne'
  | spawning job id hpc hok hpc' hstate hstarted hended =>
      have hannounced : m.world.announced (.starter k) = some id := by
        simp [World.announced, hpc, StartPc.announced]
      have hactive := h.active hannounced
      refine ⟨hinv, by rw [h.ids, World.endedIds, World.endedIds, hended], fun i hi hcurrent => ?_⟩
      exact Or.inl (by rw [hstate]; exact hactive.1)
  | unspawned job id hpc hok hpc' hstate hstarted hended =>
      exact h.same hinv hstate hstarted hended (by simp [detailsAfter, hpc]) rfl
  | failing job id hpc hpc' hid hstarted hended =>
      refine ⟨hinv, by rw [h.ids, World.endedIds, World.endedIds, hended], fun i hi hcurrent => ?_⟩
      have hi : i ∈ m.world.started := hstarted ▸ hi
      have hannounced : m.world.announced (.starter k) = some id := by
        simp [World.announced, hpc, StartPc.announced]
      have hnew := (h.inv.identity.quiet k id hannounced).1
      have hcurrent' : m.world.state.id = i := hid.symm.trans hcurrent
      rw [(h.active hannounced).2] at hcurrent'
      exact absurd (hcurrent' ▸ hi) hnew
  | other hpc hpc' hstate hstarted hended =>
      refine h.same hinv hstate hstarted hended ?_ rfl
      cases hk : m.world.starts k <;> simp_all [detailsAfter]

theorem Sound.runStep (h : m.Sound registry) {run : Run} {input : RunInput} {written : Details}
    {world : ProfileBenchmark.World} (hrun : m.world.worker = some run)
    (hinv : world.unasked.Inv registry)
    (hstep : m.world.runStep registry run run.pc input = some world) :
    Sound registry
      { world
        details := m.detailsAfter (.run input) written
        outcomes := m.outcomesAfter (.run input) written } := by
  obtain ⟨⟨-, hsame⟩, hworked⟩ := World.worked_of_runStep hstep
  cases hworked with
  | releasing hpc hstate hended =>
      obtain ⟨pc, hpc⟩ := hpc
      exact h.same hinv hstate hsame.started hended (by simp [detailsAfter, hrun, hpc])
        (by simp [outcomesAfter, hrun, hpc])
  | finishing state restored hpc hstate hended =>
      have hannounced : m.world.announced .worker = some run.id := by
        simp [World.announced, hrun, Run.announced, Run.unfinished, hpc]
      have hid : m.world.state.id = run.id := (h.active hannounced).2
      have houtcomes : m.outcomesAfter (.run input) written =
          m.outcomes ++ [(run.id, ⟨state, written⟩)] := by
        simp [outcomesAfter, hrun, hpc]
      have hdetails : m.detailsAfter (.run input) written = written := by
        simp [detailsAfter, hrun, hpc]
      refine ⟨hinv, by rw [houtcomes, List.map_append, h.ids, hended]; rfl, fun i hi hcurrent => ?_⟩
      have hi' : i = run.id := by rw [← hid, ← hsame.id, hcurrent]
      right
      simp [outcome, houtcomes, hdetails, hstate, hi']
  | working hpc hfinishing hstate hended =>
      have hannounced : m.world.announced .worker = some run.id := by
        simp [World.announced, hrun, Run.announced, hpc]
      have houtcomes : m.outcomesAfter (.run input) written = m.outcomes := by
        simp only [outcomesAfter, hrun]
      refine ⟨hinv, by rw [houtcomes, h.ids, World.endedIds, World.endedIds, hended], fun i hi _ => ?_⟩
      exact Or.inl (by rw [hstate]; exact (h.active hannounced).1)

theorem Sound.next (h : m.Sound registry) {action : Action} {written : Details}
    (hstep : m.next registry action written = some m') : m'.Sound registry := by
  obtain ⟨world, hworld, rfl⟩ := Option.map_eq_some_iff.1 hstep
  have hinv := World.inv_unasked_next h.inv hworld
  cases action with
  | start k model candidateLimit =>
      have hsame : world.state = m.world.state ∧ world.started = m.world.started ∧
          world.ended = m.world.ended := by
        have hstart : m.world.start k model candidateLimit = some world := hworld
        unfold World.start at hstart
        split_ifs at hstart <;> obtain rfl := Option.some.inj hstart <;> exact ⟨rfl, rfl, rfl⟩
      exact h.same hinv hsame.1 hsame.2.1 hsame.2.2 rfl rfl
  | startStep k ok => exact h.startStep hinv hworld
  | run input =>
      obtain ⟨run, hrun, hrunStep⟩ := Option.bind_eq_some_iff.1 hworld
      exact h.runStep hrun hinv hrunStep
  | cancel =>
      obtain rfl := Option.some.inj hworld
      by_cases hactive : m.world.state.state.active = true
      · refine ⟨hinv, ?_, fun i hi _ => Or.inl ?_⟩
        · simp only [World.cancel, if_pos hactive]
          exact h.ids
        · dsimp only
          rw [World.cancel, if_pos hactive]
          rfl
      · exact h.same hinv (by simp [World.cancel, hactive]) (by simp [World.cancel, hactive])
          (by simp [World.cancel, hactive]) (by simp [detailsAfter, hactive]) rfl
  | storeReserve =>
      obtain rfl := Option.some.inj hworld
      refine h.same hinv ?_ ?_ ?_ rfl rfl <;> (unfold World.storeReserve; split_ifs <;> rfl)
  | storeRelease =>
      obtain rfl := Option.some.inj hworld
      refine h.same hinv ?_ ?_ ?_ rfl rfl <;> (unfold World.storeRelease; split_ifs <;> rfl)

theorem startStep_frame {k : ℕ} {ok : Bool} {written : Details}
    (hstep : m.next registry (.startStep k ok) written = some m') :
    (∀ j, j ≠ k → m'.world.starts j = m.world.starts j) ∧
      World.Started m.world k ok m'.world ∧ m'.outcomes = m.outcomes := by
  obtain ⟨world, hworld, rfl⟩ := Option.map_eq_some_iff.1 hstep
  obtain ⟨hstarts, hstarted⟩ := World.started_of_startStep (hworld : m.world.startStep k ok = some world)
  exact ⟨hstarts, hstarted, rfl⟩

/-- What the steps of others leave: the scheduler's own call, the started runs and the outcomes, and
the run of the snapshot, unless another one is announced. -/
structure Frame (m m' : Manager) (announces : Prop) : Prop where
  starts : m'.world.starts 0 = m.world.starts 0
  started : ∀ i ∈ m.world.started, i ∈ m'.world.started
  outcomes : ∀ o ∈ m.outcomes, o ∈ m'.outcomes
  id : ¬announces → m'.world.state.id = m.world.state.id

def Announces (m : Manager) (action : Action) : Prop :=
  ∃ k ok job, action = .startStep k ok ∧ m.world.starts k = .announcing job

theorem frame_of_next {action : Action} {written : Details} (hown : schedulerOwn action = false)
    (hstep : m.next registry action written = some m') : m.Frame m' (m.Announces action) := by
  cases action with
  | startStep k ok =>
      have hk : (0 : ℕ) ≠ k := by
        rintro rfl
        cases hown
      obtain ⟨hstarts, hstarted, houtcomes⟩ := startStep_frame hstep
      refine ⟨hstarts 0 hk, fun i hi => ?_, fun o ho => houtcomes ▸ ho, fun hquiet => ?_⟩
      · cases hstarted with
        | spawning job id hpc hok hpc' hstate hstarted hended => rw [hstarted]; simp [hi]
        | announcing job hpc hpc' hid hstarted hended => exact hstarted ▸ hi
        | unspawned job id hpc hok hpc' hstate hstarted hended => exact hstarted ▸ hi
        | failing job id hpc hpc' hid hstarted hended => exact hstarted ▸ hi
        | other hpc hpc' hstate hstarted hended => exact hstarted ▸ hi
      · cases hstarted with
        | announcing job hpc hpc' hid hstarted hended => exact absurd ⟨k, ok, job, rfl, hpc⟩ hquiet
        | spawning job id hpc hok hpc' hstate hstarted hended => rw [hstate]
        | unspawned job id hpc hok hpc' hstate hstarted hended => rw [hstate]
        | failing job id hpc hpc' hid hstarted hended => exact hid
        | other hpc hpc' hstate hstarted hended => rw [hstate]
  | start k model candidateLimit =>
      have hk : (0 : ℕ) ≠ k := by
        rintro rfl
        cases hown
      obtain ⟨world, hworld, rfl⟩ := Option.map_eq_some_iff.1 hstep
      have hstart : m.world.start k model candidateLimit = some world := hworld
      unfold World.start at hstart
      split_ifs at hstart <;> obtain rfl := Option.some.inj hstart <;>
        exact ⟨by simp [World.gotoStart, hk], fun _ hi => hi, fun _ ho => ho, fun _ => rfl⟩
  | run input =>
      obtain ⟨world, hworld, rfl⟩ := Option.map_eq_some_iff.1 hstep
      obtain ⟨run, hrun, hrunStep⟩ := Option.bind_eq_some_iff.1 hworld
      obtain ⟨⟨hstarts, hsame⟩, -⟩ := World.worked_of_runStep hrunStep
      refine ⟨by rw [hstarts], fun i hi => hsame.started ▸ hi, fun o ho => ?_, fun _ => hsame.id⟩
      simp only [outcomesAfter, hrun]
      split
      · exact List.mem_append_left _ ho
      · exact ho
  | cancel =>
      obtain ⟨world, hworld, rfl⟩ := Option.map_eq_some_iff.1 hstep
      obtain rfl := Option.some.inj hworld
      refine ⟨?_, fun i hi => ?_, fun _ ho => ho, fun _ => ?_⟩ <;>
        (unfold World.cancel; split_ifs <;> first | rfl | exact hi)
  | storeReserve =>
      obtain ⟨world, hworld, rfl⟩ := Option.map_eq_some_iff.1 hstep
      obtain rfl := Option.some.inj hworld
      refine ⟨?_, fun i hi => ?_, fun _ ho => ho, fun _ => ?_⟩ <;>
        (unfold World.storeReserve; split_ifs <;> first | rfl | exact hi)
  | storeRelease =>
      obtain ⟨world, hworld, rfl⟩ := Option.map_eq_some_iff.1 hstep
      obtain rfl := Option.some.inj hworld
      refine ⟨?_, fun i hi => ?_, fun _ ho => ho, fun _ => ?_⟩ <;>
        (unfold World.storeRelease; split_ifs <;> first | rfl | exact hi)

end Manager

/-! ### The contract -/

/-- The status says that the run was started, or what the run has written in `finish`. -/
def ScheduledOptimizationStatus.Tells (status : ScheduledOptimizationStatus)
    (outcomes : List (ℕ × Outcome)) (id : ℕ) : Prop :=
  (status.lastOutcome = some .running ∧ status.lastMessage = "Scheduled benchmark started") ∨
    ∃ o, (id, o) ∈ outcomes ∧ status = {
      lastFinishedUnixMs := o.details.finishedUnixMs
      lastOutcome := some o.state
      lastMessage := o.details.message }

theorem ScheduledOptimizationStatus.Tells.mono {status : ScheduledOptimizationStatus}
    {outcomes outcomes' : List (ℕ × Outcome)} {id : ℕ} (h : status.Tells outcomes id)
    (hmono : ∀ o ∈ outcomes, o ∈ outcomes') : status.Tells outcomes' id :=
  h.imp_right fun ⟨o, ho, heq⟩ => ⟨o, hmono _ ho, heq⟩

namespace World

/-- A model is started once a date and in its window, and each start is a run of its own with one
outcome. -/
structure Dated (schedules : String → Schedule) (w : World) : Prop where
  once : (w.launches.map fun l => (l.model, dateKey l.now)).Nodup
  window : ∀ l ∈ w.launches, windowOpen schedules l.model l.now = true
  distinct : (w.launches.map Launch.id).Nodup
  single : (w.manager.outcomes.map Prod.fst).Nodup

/-- Moreover a status tells of the run that was started for its model. -/
structure Lawful (schedules : String → Schedule) (w : World) : Prop extends w.Dated schedules where
  own : ∀ name id, w.launched name = some id →
    (∃ l ∈ w.launches, l.model = name ∧ l.id = id) ∧ (w.state name).Tells w.manager.outcomes id

/-- While the end of a started run has not been seen, no manual run is announced, and no thread of
the scheduler's next run fails to start. -/
def Undisturbed (w : World) : ScheduleAction → Prop
  | .manual action _ => w.manager.Announces action → w.following = none
  | .startStep ok _ =>
      ok = false → (∃ job id, w.manager.world.starts 0 = .spawning job id) → w.following = none
  | _ => True

/-- What holds of the starts, whoever else starts runs. -/
structure Course (registry : ModelRegistry) (schedules : String → Schedule) (w : World) : Prop where
  manager : w.manager.Sound registry
  starter : (∀ name now, w.pc ≠ .starting name now) → w.manager.world.starts 0 = .idle
  recorded : ∀ l, w.pc = .recording l → l ∈ w.launches ∧ l.now = w.clock
  attempted : ∀ name d, w.attemptedDate name = some d → d ≤ dateKey w.clock
  launches : ∀ l ∈ w.launches, l.now ≤ w.clock ∧ l.id ∈ w.manager.world.started ∧
    ((∃ d, w.attemptedDate l.model = some d ∧ dateKey l.now ≤ d) ∨ w.pc = .recording l)
  starting : ∀ name now, w.pc = .starting name now → now = w.clock ∧
    w.attemptedDate name ≠ some (dateKey now) ∧ windowOpen schedules name now = true
  dated : w.Dated schedules

structure Sound (registry : ModelRegistry) (schedules : String → Schedule) (w : World) : Prop
    extends w.Course registry schedules where
  follow : ∀ i, w.following = some i → i ∈ w.manager.world.started ∧
    (w.manager.world.state.id = i ∨ ∃ job id, w.manager.world.starts 0 = .spawning job id)
  recording : ∀ l, w.pc = .recording l → w.following = some l.id
  inFlight : ∀ name, w.inFlightModel = some name → (∀ l, w.pc ≠ .recording l) →
    ∃ i, w.launched name = some i ∧ w.following = some i
  own : ∀ name id, w.launched name = some id →
    (∃ l ∈ w.launches, l.model = name ∧ l.id = id) ∧ (w.state name).Tells w.manager.outcomes id

theorem course_initial : Course registry schedules {} where
  manager := Manager.Sound.initial
  starter _ := rfl
  recorded := by simp
  attempted := by simp
  launches := by simp
  starting := by simp
  dated := ⟨by simp, by simp, by simp, by simp⟩

theorem sound_initial : Sound registry schedules {} where
  toCourse := course_initial
  follow := by simp
  recording := by simp
  inFlight := by simp
  own := by simp

variable {w w' : World}

theorem dateKey_mono {now now' : LocalTime} (h : now ≤ now') : dateKey now ≤ dateKey now' :=
  Nat.div_le_div_right h

/-! ### A step of others -/

theorem Course.manual (h : w.Course registry schedules) {manager : Manager} {announces : Prop}
    (hmanager : manager.Sound registry) (hframe : w.manager.Frame manager announces) :
    Course registry schedules { w with manager } where
  manager := hmanager
  starter hpc := by
    rw [← h.starter hpc]
    exact hframe.starts
  recorded := h.recorded
  attempted := h.attempted
  launches l hl := ⟨(h.launches l hl).1, hframe.started _ (h.launches l hl).2.1, (h.launches l hl).2.2⟩
  starting := h.starting
  dated := ⟨h.dated.once, h.dated.window, h.dated.distinct, hmanager.single⟩

theorem Sound.manual (h : w.Sound registry schedules) {manager : Manager} {announces : Prop}
    (hmanager : manager.Sound registry) (hframe : w.manager.Frame manager announces)
    (hallowed : announces → w.following = none) : Sound registry schedules { w with manager } where
  toCourse := h.toCourse.manual hmanager hframe
  follow i hi := by
    obtain ⟨hstarted, hid⟩ := h.follow i hi
    refine ⟨hframe.started i hstarted, ?_⟩
    have hquiet : ¬announces := fun hannounces => by
      rw [hallowed hannounces] at hi
      cases hi
    dsimp only
    rw [hframe.id hquiet, hframe.starts]
    exact hid
  recording := h.recording
  inFlight := h.inFlight
  own name id hid := ⟨(h.own name id hid).1, (h.own name id hid).2.mono hframe.outcomes⟩

/-! ### A step of `evaluate` that only goes on -/

theorem Course.goto (h : w.Course registry schedules) {pc : EvaluatePc}
    (hpc : ∀ l, w.pc ≠ .recording l) (hidle : ∀ name now, w.pc ≠ .starting name now)
    (hpc' : ∀ l, pc ≠ .recording l) (hidle' : ∀ name now, pc ≠ .starting name now) :
    Course registry schedules { w with pc } where
  manager := h.manager
  starter _ := h.starter hidle
  recorded l hl := absurd hl (hpc' l)
  attempted := h.attempted
  launches l hl := ⟨(h.launches l hl).1, (h.launches l hl).2.1,
    Or.inl ((h.launches l hl).2.2.resolve_right (hpc l))⟩
  starting name now hname := absurd hname (hidle' name now)
  dated := ⟨h.dated.once, h.dated.window, h.dated.distinct, h.dated.single⟩

theorem Sound.goto (h : w.Sound registry schedules) {pc : EvaluatePc} (hpc : ∀ l, w.pc ≠ .recording l)
    (hidle : ∀ name now, w.pc ≠ .starting name now) (hpc' : ∀ l, pc ≠ .recording l)
    (hidle' : ∀ name now, pc ≠ .starting name now) : Sound registry schedules { w with pc } where
  toCourse := h.toCourse.goto hpc hidle hpc' hidle'
  follow := h.follow
  recording l hl := absurd hl (hpc' l)
  inFlight name hname _ := h.inFlight name hname hpc
  own := h.own

/-! ### The poll -/

theorem Course.poll (h : w.Course registry schedules) (hpc : w.pc = .idle) :
    w.poll.Course registry schedules := by
  have hlooking : Course registry schedules { w with pc := .looking } :=
    h.goto (by simp [hpc]) (by simp [hpc]) (by simp) (by simp)
  unfold World.poll
  split
  · exact hlooking
  · dsimp only
    split
    · exact hlooking
    · exact {
        manager := h.manager
        starter := hlooking.starter
        recorded := by simp
        attempted := h.attempted
        launches := hlooking.launches
        starting := by simp
        dated := ⟨h.dated.once, h.dated.window, h.dated.distinct, h.dated.single⟩ }

theorem Sound.poll (h : w.Sound registry schedules) (hpc : w.pc = .idle) :
    w.poll.Sound registry schedules := by
  have hcourse := h.toCourse.poll hpc
  have hlooking : Sound registry schedules { w with pc := .looking } :=
    h.goto (by simp [hpc]) (by simp [hpc]) (by simp) (by simp)
  unfold World.poll at hcourse ⊢
  split at hcourse
  · exact hlooking
  · next model hmodel =>
    dsimp only at hcourse ⊢
    split at hcourse
    · next hactive =>
      rw [if_pos hactive]
      exact hlooking
    · next hactive =>
      rw [if_neg hactive]
      obtain ⟨i, hlaunched, hfollowing⟩ := h.inFlight model hmodel (by simp [hpc])
      obtain ⟨hstarted, hid⟩ := h.follow i hfollowing
      have hid : w.manager.world.state.id = i := by
        refine hid.resolve_right ?_
        rintro ⟨job, id, hspawning⟩
        rw [h.starter (by simp [hpc])] at hspawning
        cases hspawning
      have hresult := (h.manager.results i hstarted hid).resolve_left hactive
      exact {
        toCourse := hcourse
        follow := by simp
        recording := by simp
        inFlight := by simp
        own := fun name id hname => by
          refine ⟨(h.own name id hname).1, ?_⟩
          by_cases hsame : name = model
          · subst hsame
            obtain rfl : i = id := by
              have hname : w.launched name = some id := hname
              simpa [hlaunched] using hname
            exact Or.inr ⟨_, hresult, by simp⟩
          · simp only [Function.update_of_ne hsame]
            exact (h.own name id hname).2 }

/-! ### The record of a start -/

theorem Course.record (h : w.Course registry schedules) {launch : Launch}
    (hpc : w.pc = .recording launch) : (w.record launch).Course registry schedules where
  manager := h.manager
  starter _ := h.starter (by simp [hpc])
  recorded := by simp [World.record]
  attempted name d hd := by
    simp only [World.record] at hd ⊢
    by_cases hname : name = launch.model
    · subst hname
      rw [Function.update_self, Option.some.injEq] at hd
      rw [← hd, (h.recorded launch hpc).2]
    · rw [Function.update_of_ne hname] at hd
      exact h.attempted name d hd
  launches l hl := by
    obtain ⟨hnow, hid, hcovered⟩ := h.launches l hl
    refine ⟨hnow, hid, Or.inl ?_⟩
    simp only [World.record]
    by_cases hname : l.model = launch.model
    · rw [hname, Function.update_self]
      exact ⟨_, rfl, dateKey_mono (by rw [(h.recorded launch hpc).2]; exact hnow)⟩
    · rw [Function.update_of_ne hname]
      refine hcovered.resolve_right fun hrecording => hname ?_
      rw [hpc, EvaluatePc.recording.injEq] at hrecording
      rw [hrecording]
  starting := by simp [World.record]
  dated := ⟨h.dated.once, h.dated.window, h.dated.distinct, h.dated.single⟩

theorem Sound.record (h : w.Sound registry schedules) {launch : Launch}
    (hpc : w.pc = .recording launch) : (w.record launch).Sound registry schedules where
  toCourse := h.toCourse.record hpc
  follow := h.follow
  recording := by simp [World.record]
  inFlight name hname _ := by
    have hname : launch.model = name := Option.some.inj hname
    exact ⟨launch.id, by simp [World.record, hname], h.recording launch hpc⟩
  own name id hname := by
    simp only [World.record] at hname ⊢
    by_cases hsame : name = launch.model
    · subst hsame
      rw [Function.update_self, Option.some.injEq] at hname
      exact ⟨⟨launch, (h.recorded launch hpc).1, rfl, hname⟩, Or.inl (by simp)⟩
    · rw [Function.update_of_ne hsame] at hname ⊢
      exact h.own name id hname

/-! ### The step of `start` that returns Ok -/

theorem Course.launch (h : w.Course registry schedules) {name : String} {now : LocalTime}
    (hpc : w.pc = .starting name now) {manager : Manager} (hmanager : manager.Sound registry)
    {job : Job} {id : ℕ} (hspawning : w.manager.world.starts 0 = .spawning job id)
    (hidle : manager.world.starts 0 = .idle)
    (hstarted : manager.world.started = w.manager.world.started ++ [id]) :
    Course registry schedules { w with
      manager
      pc := .recording ⟨name, now, id⟩
      launches := w.launches ++ [⟨name, now, id⟩]
      following := some id } := by
  obtain ⟨hclock, hattempted, hwindow⟩ := h.starting name now hpc
  have hannounced : w.manager.world.announced (.starter 0) = some id := by
    simp [ProfileBenchmark.World.announced, hspawning, StartPc.announced]
  have hnew : id ∉ w.manager.world.started := (h.manager.inv.identity.quiet 0 id hannounced).1
  have hcovered (l : Launch) (hl : l ∈ w.launches) :
      ∃ d, w.attemptedDate l.model = some d ∧ dateKey l.now ≤ d :=
    (h.launches l hl).2.2.resolve_right (by simp [hpc])
  -- a start on the same date would have left that date behind
  have hdate (l : Launch) (hl : l ∈ w.launches) : (l.model, dateKey l.now) ≠ (name, dateKey now) := by
    intro heq
    obtain ⟨hmodel, hday⟩ := Prod.mk.inj heq
    obtain ⟨d, hd, hle⟩ := hcovered l hl
    rw [hmodel] at hd
    have hbound := h.attempted name d hd
    rw [hclock] at hday hattempted
    exact hattempted (by rw [hd, le_antisymm hbound (hday ▸ hle)])
  exact {
    manager := hmanager
    starter := fun _ => hidle
    recorded := fun l hl => by
      obtain rfl := EvaluatePc.recording.inj hl
      exact ⟨by simp, hclock⟩
    attempted := h.attempted
    launches := fun l hl => by
      obtain hl | hl := List.mem_append.1 hl
      · exact ⟨(h.launches l hl).1, by simp [hstarted, (h.launches l hl).2.1], Or.inl (hcovered l hl)⟩
      · obtain rfl := List.mem_singleton.1 hl
        exact ⟨hclock.le, by simp [hstarted], Or.inr rfl⟩
    starting := by simp
    dated := {
      once := by
        rw [List.map_append, List.nodup_append]
        refine ⟨h.dated.once, by simp, fun a ha b hb => ?_⟩
        obtain ⟨l, hl, rfl⟩ := List.mem_map.1 ha
        obtain rfl : b = (name, dateKey now) := by simpa using hb
        exact hdate l hl
      window := fun l hl => by
        obtain hl | hl := List.mem_append.1 hl
        · exact h.dated.window l hl
        · obtain rfl := List.mem_singleton.1 hl
          exact hwindow
      distinct := by
        rw [List.map_append, List.nodup_append]
        refine ⟨h.dated.distinct, by simp, fun a ha b hb => ?_⟩
        obtain ⟨l, hl, rfl⟩ := List.mem_map.1 ha
        obtain rfl : b = id := by simpa using hb
        rintro rfl
        exact hnew (h.launches l hl).2.1
      single := hmanager.single } }

theorem Sound.launch (h : w.Sound registry schedules) {name : String} {now : LocalTime}
    (hpc : w.pc = .starting name now) {manager : Manager} (hmanager : manager.Sound registry)
    {job : Job} {id : ℕ} (hspawning : w.manager.world.starts 0 = .spawning job id)
    (hidle : manager.world.starts 0 = .idle) (hstate : manager.world.state = w.manager.world.state)
    (hstarted : manager.world.started = w.manager.world.started ++ [id])
    (houtcomes : manager.outcomes = w.manager.outcomes) :
    Sound registry schedules { w with
      manager
      pc := .recording ⟨name, now, id⟩
      launches := w.launches ++ [⟨name, now, id⟩]
      following := some id } where
  toCourse := h.toCourse.launch hpc hmanager hspawning hidle hstarted
  follow i hi := by
    obtain rfl := Option.some.inj hi
    have hannounced : w.manager.world.announced (.starter 0) = some id := by
      simp [ProfileBenchmark.World.announced, hspawning, StartPc.announced]
    exact ⟨by simp [hstarted], Or.inl (by rw [hstate, (h.manager.active hannounced).2])⟩
  recording l hl := by
    obtain rfl := EvaluatePc.recording.inj hl
    rfl
  inFlight _ _ hpc' := absurd rfl (hpc' _)
  own name' id' hname := by
    obtain ⟨⟨l, hl, hmodel⟩, htells⟩ := h.own name' id' hname
    exact ⟨⟨l, List.mem_append_left _ hl, hmodel⟩, houtcomes ▸ htells⟩

/-! ### A step of `start` that does not return Ok -/

theorem Course.starts (h : w.Course registry schedules) {name : String} {now : LocalTime}
    (hpc : w.pc = .starting name now) {manager : Manager} (hmanager : manager.Sound registry)
    (hstarted : ∀ i ∈ w.manager.world.started, i ∈ manager.world.started) :
    Course registry schedules { w with
      manager
      pc := if manager.world.starts 0 = .idle then .idle else .starting name now } where
  manager := hmanager
  starter hpc' := by
    by_contra hbusy
    exact hpc' name now (if_neg hbusy)
  recorded l hl := by
    dsimp only at hl
    split at hl <;> cases hl
  attempted := h.attempted
  launches l hl := ⟨(h.launches l hl).1, hstarted _ (h.launches l hl).2.1,
    Or.inl ((h.launches l hl).2.2.resolve_right (by simp [hpc]))⟩
  starting name' now' hpc' := by
    dsimp only at hpc'
    split at hpc'
    · cases hpc'
    · obtain ⟨rfl, rfl⟩ := EvaluatePc.starting.inj hpc'
      exact h.starting _ _ hpc
  dated := ⟨h.dated.once, h.dated.window, h.dated.distinct, hmanager.single⟩

theorem Sound.starts (h : w.Sound registry schedules) {name : String} {now : LocalTime}
    (hpc : w.pc = .starting name now) {manager : Manager} (hmanager : manager.Sound registry)
    (hfollow : ∀ i, w.following = some i → i ∈ manager.world.started ∧
      (manager.world.state.id = i ∨ ∃ job id, manager.world.starts 0 = .spawning job id))
    (hstarted : ∀ i ∈ w.manager.world.started, i ∈ manager.world.started)
    (houtcomes : manager.outcomes = w.manager.outcomes) :
    Sound registry schedules { w with
      manager
      pc := if manager.world.starts 0 = .idle then .idle else .starting name now } where
  toCourse := h.toCourse.starts hpc hmanager hstarted
  follow := hfollow
  recording l hl := by
    dsimp only at hl
    split at hl <;> cases hl
  inFlight name' hname _ := h.inFlight name' hname (by simp [hpc])
  own name' id' hname := by
    obtain ⟨hlaunch, htells⟩ := h.own name' id' hname
    exact ⟨hlaunch, houtcomes ▸ htells⟩

theorem Course.startStep (h : w.Course registry schedules) {name : String} {now : LocalTime}
    {ok : Bool} {written : Details} (hpc : w.pc = .starting name now)
    (hstep : w.startStep registry name now ok written = some w') : w'.Course registry schedules := by
  obtain ⟨manager, hmanager, rfl⟩ := Option.map_eq_some_iff.1 hstep
  have hsound := h.manager.next hmanager
  obtain ⟨-, hstarted, -⟩ := Manager.startStep_frame hmanager
  cases hstarted with
  | spawning job id hspawning hok hidle hstate hstarted hended =>
      subst hok
      rw [hspawning]
      exact h.launch hpc hsound hspawning hidle hstarted
  | announcing job hannouncing hspawning hid hstarted hended =>
      rw [hannouncing]
      exact h.starts hpc hsound fun i hi => hstarted ▸ hi
  | unspawned job id hspawning hok hfailing hstate hstarted hended =>
      subst hok
      rw [hspawning]
      exact h.starts hpc hsound fun i hi => hstarted ▸ hi
  | failing job id hfailing hbusy hid hstarted hended =>
      rw [hfailing]
      exact h.starts hpc hsound fun i hi => hstarted ▸ hi
  | other hother hother' hstate hstarted hended =>
      have hgoes := h.starts hpc hsound fun i hi => hstarted ▸ hi
      split
      · next job id hspawning => exact absurd hspawning (hother.2.2 job id)
      · exact hgoes

theorem Sound.startStep (h : w.Sound registry schedules) {name : String} {now : LocalTime} {ok : Bool}
    {written : Details} (hpc : w.pc = .starting name now)
    (hallowed : w.Undisturbed (.startStep ok written))
    (hstep : w.startStep registry name now ok written = some w') : w'.Sound registry schedules := by
  obtain ⟨manager, hmanager, rfl⟩ := Option.map_eq_some_iff.1 hstep
  have hsound := h.manager.next hmanager
  obtain ⟨-, hstarted, houtcomes⟩ := Manager.startStep_frame hmanager
  cases hstarted with
  | spawning job id hspawning hok hidle hstate hstarted hended =>
      subst hok
      rw [hspawning]
      exact h.launch hpc hsound hspawning hidle hstate hstarted houtcomes
  | announcing job hannouncing hspawning hid hstarted hended =>
      rw [hannouncing]
      refine h.starts hpc hsound (fun i hi => ?_) (fun i hi => hstarted ▸ hi) houtcomes
      exact ⟨hstarted ▸ (h.follow i hi).1, Or.inr ⟨job, _, hspawning⟩⟩
  | unspawned job id hspawning hok hfailing hstate hstarted hended =>
      subst hok
      rw [hspawning]
      refine h.starts hpc hsound (fun i hi => ?_) (fun i hi => hstarted ▸ hi) houtcomes
      rw [hallowed rfl ⟨job, id, hspawning⟩] at hi
      cases hi
  | failing job id hfailing hbusy hid hstarted hended =>
      rw [hfailing]
      refine h.starts hpc hsound (fun i hi => ?_) (fun i hi => hstarted ▸ hi) houtcomes
      refine ⟨hstarted ▸ (h.follow i hi).1, Or.inl (hid.trans ((h.follow i hi).2.resolve_right ?_))⟩
      rintro ⟨job', id', hspawning⟩
      rw [hfailing] at hspawning
      cases hspawning
  | other hother hother' hstate hstarted hended =>
      have hgoes : Sound registry schedules { w with
          manager
          pc := if manager.world.starts 0 = .idle then .idle else .starting name now } := by
        refine h.starts hpc hsound (fun i hi => ?_) (fun i hi => hstarted ▸ hi) houtcomes
        refine ⟨hstarted ▸ (h.follow i hi).1, Or.inl ?_⟩
        rw [hstate]
        refine (h.follow i hi).2.resolve_right ?_
        rintro ⟨job', id', hspawning⟩
        exact hother.2.2 job' id' hspawning
      split
      · next job id hspawning => exact absurd hspawning (hother.2.2 job id)
      · exact hgoes

/-! ### The decision -/

theorem Course.read (h : w.Course registry schedules) (hpc : w.pc = .deciding) {now : LocalTime}
    (hnow : w.clock ≤ now) : Course registry schedules { w with clock := now } where
  manager := h.manager
  starter := h.starter
  recorded := by simp [hpc]
  attempted name d hd := (h.attempted name d hd).trans (dateKey_mono hnow)
  launches l hl := ⟨(h.launches l hl).1.trans hnow, (h.launches l hl).2⟩
  starting := by simp [hpc]
  dated := ⟨h.dated.once, h.dated.window, h.dated.distinct, h.dated.single⟩

theorem Sound.read (h : w.Sound registry schedules) (hpc : w.pc = .deciding) {now : LocalTime}
    (hnow : w.clock ≤ now) : Sound registry schedules { w with clock := now } where
  toCourse := h.toCourse.read hpc hnow
  follow := h.follow
  recording := by simp [hpc]
  inFlight := h.inFlight
  own := h.own

theorem Course.due (h : w.Course registry schedules) (hpc : w.pc = .deciding) {name : String}
    (hattempted : w.attemptedDate name ≠ some (dateKey w.clock))
    (hwindow : windowOpen schedules name w.clock = true) :
    Course registry schedules { w with pc := .starting name w.clock } where
  manager := h.manager
  starter hpc' := absurd rfl (hpc' name w.clock)
  recorded := by simp
  attempted := h.attempted
  launches l hl := ⟨(h.launches l hl).1, (h.launches l hl).2.1,
    Or.inl ((h.launches l hl).2.2.resolve_right (by simp [hpc]))⟩
  starting name' now' hpc' := by
    obtain ⟨rfl, rfl⟩ := EvaluatePc.starting.inj hpc'
    exact ⟨rfl, hattempted, hwindow⟩
  dated := ⟨h.dated.once, h.dated.window, h.dated.distinct, h.dated.single⟩

theorem Sound.due (h : w.Sound registry schedules) (hpc : w.pc = .deciding) {name : String}
    (hattempted : w.attemptedDate name ≠ some (dateKey w.clock))
    (hwindow : windowOpen schedules name w.clock = true) :
    Sound registry schedules { w with pc := .starting name w.clock } where
  toCourse := h.toCourse.due hpc hattempted hwindow
  follow := h.follow
  recording := by simp
  inFlight name' hname _ := h.inFlight name' hname (by simp [hpc])
  own := h.own

/-- What the decision does: it goes on, or it calls `start` for a model that is due. -/
inductive Decided (registry : ModelRegistry) (schedules : String → Schedule) (w w' : World) : Prop
  | stays (heq : w' = { w with pc := .idle })
  | goes (now : LocalTime) (hnow : w.clock ≤ now) (heq : w' = { w with clock := now, pc := .idle })
  | starts (name : String) (now : LocalTime) (hnow : w.clock ≤ now) (manager : Manager)
      (hmanager : manager.Sound registry) (hstate : manager.world.state = w.manager.world.state)
      (hstarted : manager.world.started = w.manager.world.started)
      (houtcomes : manager.outcomes = w.manager.outcomes)
      (hattempted : w.attemptedDate name ≠ some (dateKey now))
      (hwindow : windowOpen schedules name now = true)
      (heq : w' = { w with
        clock := now
        manager
        pc := if manager.world.starts 0 = .idle then .idle else .starting name now })

theorem decided_of_decide (hmanager : w.manager.Sound registry) {now : LocalTime} {ready : Bool}
    {choice : Option String} (hstep : w.decide registry schedules now ready choice = some w') :
    Decided registry schedules w w' := by
  unfold World.decide at hstep
  split at hstep
  · cases hstep
  · next hnow =>
    have hnow : w.clock ≤ now := Nat.le_of_not_lt hnow
    split at hstep
    · exact .stays (Option.some.inj hstep).symm
    · split at hstep
      · split at hstep
        · cases hstep
        · exact .goes now hnow (Option.some.inj hstep).symm
      · next name =>
        split at hstep
        · next hdue =>
          unfold World.startModel at hstep
          unfold World.due at hdue
          cases hinfo : registry.getInfoResult name with
          | error e => simp [hinfo] at hstep
          | ok info =>
              simp only [hinfo, Bool.and_eq_true, decide_eq_true_eq] at hdue hstep
              obtain ⟨⟨-, hwindow⟩, hattempted⟩ := hdue
              obtain ⟨manager, hnext, rfl⟩ := Option.map_eq_some_iff.1 hstep
              have hsound := hmanager.next hnext
              obtain ⟨world, hworld, rfl⟩ := Option.map_eq_some_iff.1 hnext
              have hstart : w.manager.world.start 0 info 3 = some world := hworld
              have hsame : world.state = w.manager.world.state ∧
                  world.started = w.manager.world.started := by
                unfold ProfileBenchmark.World.start at hstart
                split_ifs at hstart <;> obtain rfl := Option.some.inj hstart <;> exact ⟨rfl, rfl⟩
              exact .starts name now hnow _ hsound hsame.1 hsame.2 rfl hattempted hwindow rfl
        · cases hstep

theorem Course.decide (h : w.Course registry schedules) {now : LocalTime} {ready : Bool}
    {choice : Option String} (hpc : w.pc = .deciding)
    (hstep : w.decide registry schedules now ready choice = some w') :
    w'.Course registry schedules := by
  cases decided_of_decide h.manager hstep with
  | stays heq =>
      rw [heq]
      exact h.goto (by simp [hpc]) (by simp [hpc]) (by simp) (by simp)
  | goes now hnow heq =>
      rw [heq]
      exact (h.read hpc hnow).goto (by simp [hpc]) (by simp [hpc]) (by simp) (by simp)
  | starts name now hnow manager hmanager hstate hstarted houtcomes hattempted hwindow heq =>
      rw [heq]
      exact ((h.read hpc hnow).due hpc hattempted hwindow).starts rfl hmanager
        fun i hi => hstarted ▸ hi

theorem Sound.decide (h : w.Sound registry schedules) {now : LocalTime} {ready : Bool}
    {choice : Option String} (hpc : w.pc = .deciding)
    (hstep : w.decide registry schedules now ready choice = some w') :
    w'.Sound registry schedules := by
  cases decided_of_decide h.manager hstep with
  | stays heq =>
      rw [heq]
      exact h.goto (by simp [hpc]) (by simp [hpc]) (by simp) (by simp)
  | goes now hnow heq =>
      rw [heq]
      exact (h.read hpc hnow).goto (by simp [hpc]) (by simp [hpc]) (by simp) (by simp)
  | starts name now hnow manager hmanager hstate hstarted houtcomes hattempted hwindow heq =>
      rw [heq]
      refine ((h.read hpc hnow).due hpc hattempted hwindow).starts rfl hmanager (fun i hi => ?_)
        (fun i hi => hstarted ▸ hi) houtcomes
      obtain ⟨hmem, hid⟩ := h.follow i hi
      refine ⟨hstarted ▸ hmem, Or.inl ?_⟩
      rw [hstate]
      refine hid.resolve_right ?_
      rintro ⟨job, id, hspawning⟩
      rw [h.starter (by simp [hpc])] at hspawning
      cases hspawning

/-! ### All steps -/

theorem course_next {action : ScheduleAction} (h : w.Course registry schedules)
    (hstep : w.next registry schedules action = some w') : w'.Course registry schedules := by
  cases action with
  | manual action written =>
      simp only [World.next] at hstep
      split at hstep
      · cases hstep
      · next hown =>
        obtain ⟨manager, hmanager, rfl⟩ := Option.map_eq_some_iff.1 hstep
        exact h.manual (h.manager.next hmanager)
          (Manager.frame_of_next (by simpa using hown) hmanager)
  | poll =>
      simp only [World.next] at hstep
      split at hstep
      · next hpc =>
        obtain rfl := Option.some.inj hstep
        exact h.poll hpc
      · cases hstep
  | look =>
      simp only [World.next] at hstep
      split at hstep
      · next hpc =>
        obtain rfl := Option.some.inj hstep
        split_ifs <;> exact h.goto (by simp [hpc]) (by simp [hpc]) (by simp) (by simp)
      · next hpc =>
        obtain rfl := Option.some.inj hstep
        split_ifs <;> exact h.goto (by simp [hpc]) (by simp [hpc]) (by simp) (by simp)
      · cases hstep
  | decide now ready choice =>
      simp only [World.next] at hstep
      split at hstep
      · next hpc => exact h.decide hpc hstep
      · cases hstep
  | startStep ok written =>
      simp only [World.next] at hstep
      split at hstep
      · next hpc => exact h.startStep hpc hstep
      · cases hstep
  | record =>
      simp only [World.next] at hstep
      split at hstep
      · next launch hpc =>
        obtain rfl := Option.some.inj hstep
        exact h.record hpc
      · cases hstep

theorem sound_next {action : ScheduleAction} (h : w.Sound registry schedules)
    (hallowed : w.Undisturbed action) (hstep : w.next registry schedules action = some w') :
    w'.Sound registry schedules := by
  cases action with
  | manual action written =>
      simp only [World.next] at hstep
      split at hstep
      · cases hstep
      · next hown =>
        obtain ⟨manager, hmanager, rfl⟩ := Option.map_eq_some_iff.1 hstep
        exact h.manual (h.manager.next hmanager)
          (Manager.frame_of_next (by simpa using hown) hmanager) hallowed
  | poll =>
      simp only [World.next] at hstep
      split at hstep
      · next hpc =>
        obtain rfl := Option.some.inj hstep
        exact h.poll hpc
      · cases hstep
  | look =>
      simp only [World.next] at hstep
      split at hstep
      · next hpc =>
        obtain rfl := Option.some.inj hstep
        split_ifs <;> exact h.goto (by simp [hpc]) (by simp [hpc]) (by simp) (by simp)
      · next hpc =>
        obtain rfl := Option.some.inj hstep
        split_ifs <;> exact h.goto (by simp [hpc]) (by simp [hpc]) (by simp) (by simp)
      · cases hstep
  | decide now ready choice =>
      simp only [World.next] at hstep
      split at hstep
      · next hpc => exact h.decide hpc hstep
      · cases hstep
  | startStep ok written =>
      simp only [World.next] at hstep
      split at hstep
      · next hpc => exact h.startStep hpc hallowed hstep
      · cases hstep
  | record =>
      simp only [World.next] at hstep
      split at hstep
      · next launch hpc =>
        obtain rfl := Option.some.inj hstep
        exact h.record hpc
      · cases hstep

end World

/-- In every run the starts are dated, and where no manual run is announced and no thread of a next
run fails to start while the end of a started run has not been seen, the statuses tell of them. -/
theorem scheduler_lawful (registry : ModelRegistry) (schedules : String → Schedule)
    (actions : List ScheduleAction) :
    Always (World.next registry schedules) (World.Dated schedules) {} actions ∧
      (Meets (World.next registry schedules) World.Undisturbed {} actions →
        Always (World.next registry schedules) (World.Lawful schedules) {} actions) := by
  refine ⟨fun done w _ hexec => ?_, fun hquiet => ?_⟩
  · have hcourse : w.Course registry schedules :=
      invariant_of_step (fun _ _ _ h hstep => World.course_next h hstep) World.course_initial hexec
    exact hcourse.dated
  · exact hquiet.always (I := World.Sound registry schedules) (fun _ h => ⟨h.dated, h.own⟩)
      (fun _ _ _ h hallowed hstep => World.sound_next h hallowed hstep) World.sound_initial

instance (w : World) (action : ScheduleAction) : Decidable (w.Undisturbed action) :=
  match action with
  | .manual (.startStep k ok) _ =>
      decidable_of_iff ((match w.manager.world.starts k with | .announcing _ => true | _ => false) = true →
          w.following = none) (by
        refine imp_congr_left ⟨fun h => ?_, fun ⟨k', ok', job, heq, hpc⟩ => ?_⟩
        · cases hpc : w.manager.world.starts k with
          | announcing job => exact ⟨k, ok, job, rfl, hpc⟩
          | _ => simp [hpc] at h
        · obtain ⟨rfl, rfl⟩ := Action.startStep.inj heq
          simp [hpc])
  | .manual (.start _ _ _) _ | .manual (.run _) _ | .manual .cancel _ | .manual .storeReserve _
  | .manual .storeRelease _ => .isTrue fun ⟨_, _, _, heq, _⟩ => by cases heq
  | .startStep ok _ =>
      decidable_of_iff (ok = false →
          (match w.manager.world.starts 0 with | .spawning _ _ => true | _ => false) = true →
            w.following = none) (by
        refine imp_congr_right fun _ => imp_congr_left ⟨fun h => ?_, fun ⟨job, id, hpc⟩ => ?_⟩
        · cases hpc : w.manager.world.starts 0 with
          | spawning job id => exact ⟨job, id, rfl⟩
          | _ => simp [hpc] at h
        · simp [hpc])
  | .poll | .look | .decide _ _ _ | .record => .isTrue trivial

def nightly : ModelRegistry := ⟨(∅ : Map String ModelInfo).insert "m" { name := "m" }, [], ∅⟩

def nightlySchedule : String → Schedule := fun _ => { enabled := true }

/-- `evaluate` at 03:10 up to the last critical section. -/
def evaluateNightly : List ScheduleAction :=
  [.poll, .look, .look, .decide 190 true (some "m")] ++ List.replicate 7 (.startStep true {}) ++ [.record]

/-- The worker finds no candidate, writes a message and gives back the resource. -/
def runOut (message : String) : List ScheduleAction :=
  ([.residents [] none, .step, .step, .select 0, .step, .step, .step, .step] : List RunInput).map
    fun input => .manual (.run input) { message, finishedUnixMs := message.length }

def manualStart : List ScheduleAction :=
  .manual (.start 1 { name := "m" } 1) {} :: List.replicate 7 (.manual (.startStep 1 true) {})

theorem scheduler_lawful_nightly :
    Always (World.next nightly nightlySchedule) (World.Lawful nightlySchedule) {}
      (evaluateNightly ++ runOut "no candidate" ++ [.poll] ++ manualStart ++ runOut "manual") :=
  (scheduler_lawful _ _ _).2 (by decide +kernel)

/-- A manual run takes the place of the scheduled one before the poll. -/
theorem poll_takes_manual :
    ¬∀ registry schedules actions,
      Always (World.next registry schedules) (World.Lawful schedules) {} actions := by
  intro h
  have hrun : (exec (World.next nightly nightlySchedule) {}
      (evaluateNightly ++ runOut "no candidate" ++ manualStart ++ runOut "manual" ++ [.poll])).map
        (fun w => (w.launched "m", (w.state "m").lastOutcome, (w.state "m").lastMessage,
          w.manager.outcomes)) =
      some (some 1, some .failed, "manual",
        [(1, ⟨.failed, "no candidate", 12⟩), (2, ⟨.failed, "manual", 6⟩)]) := by
    decide +kernel
  obtain ⟨w, hexec, hw⟩ := Option.map_eq_some_iff.1 hrun
  obtain ⟨hlaunched, houtcome, hmessage, houtcomes⟩ : w.launched "m" = some 1 ∧
      (w.state "m").lastOutcome = some .failed ∧ (w.state "m").lastMessage = "manual" ∧
      w.manager.outcomes = [(1, ⟨.failed, "no candidate", 12⟩), (2, ⟨.failed, "manual", 6⟩)] := by
    simpa using hw
  have hlawful := h nightly nightlySchedule _ _ w List.prefix_rfl hexec
  obtain ⟨hrunning, -⟩ | ⟨o, ho, hstatus⟩ := (hlawful.own "m" 1 hlaunched).2
  · rw [houtcome] at hrunning
    cases hrunning
  · rw [houtcomes] at ho
    obtain rfl : o = ⟨.failed, "no candidate", 12⟩ := by simpa using ho
    rw [hstatus] at hmessage
    simp at hmessage

end InferDeck.Gateway.ProfileScheduler
