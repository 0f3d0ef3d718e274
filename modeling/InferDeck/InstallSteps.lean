import InferDeck.InstallStages

/-!
# Steps of the install workers

What a worker has found out about its artifacts at each point, and the few things that its steps do
to the store.
-/

namespace InferDeck.Gateway.InstallJobs

open Function InferDeck.Foundation InferDeck.Model ModelStore

/-- In the start that made the flag the artifact's size and checksum have been as declared. -/
def Verified (log : List Event) (flag : ℕ) (artifact : StoreFile) : Prop :=
  ∃ size checksum, Event.matched flag artifact size checksum ∈ log ∧ size = artifact.size ∧
    lowered checksum = lowered artifact.sha256

theorem Verified.cons {log : List Event} {flag : ℕ} {artifact : StoreFile}
    (h : Verified log flag artifact) (event : Event) : Verified (event :: log) flag artifact := by
  obtain ⟨size, checksum, hmem, hmatch⟩ := h
  exact ⟨size, checksum, List.mem_cons_of_mem _ hmem, hmatch⟩

namespace Store

variable (s : Store)

/-- The run is that of the job's last start. -/
def Current (id : ℕ) (run : Run) : Prop :=
  s.cancellations.lookup id = some run.cancelled ∧
    ∃ job, s.downloads.lookup id = some job ∧ job.modelName = run.job.modelName ∧
      job.artifacts = run.job.artifacts

/-- The artifacts before `rest` are verified. -/
def Progress (id : ℕ) (run : Run) (rest : List StoreFile) : Prop :=
  s.Current id run ∧ ∃ done, run.job.artifacts = done ++ rest ∧
    ∀ artifact ∈ done, Verified s.log run.cancelled artifact

def Committed (id : ℕ) (run : Run) : Prop :=
  s.Progress id run [] ∧ .committed run.cancelled ∈ s.log

/-- What a worker knows where it is. -/
def Checked (id : ℕ) : WorkerPc → Prop
  | .begin => True
  | .inspect run => s.Current id run ∧ run.job.artifacts = [run.job.file]
  | .transfer run _ => s.Current id run ∧ run.job.artifacts = [run.job.file]
  | .verify run => s.Current id run ∧ run.job.artifacts = [run.job.file]
  | .stage run => s.Current id run
  | .nextArtifact run rest _ => s.Progress id run rest
  | .transferArtifact run artifact rest _ => s.Progress id run (artifact :: rest)
  | .verifyArtifact run artifact rest _ => s.Progress id run (artifact :: rest)
  | .placeArtifact run _ rest _ => s.Progress id run rest
  | .finishArtifact run _ rest _ => s.Progress id run rest
  | .commit run => s.Progress id run []
  | .place run => s.Committed id run
  | .publish run => s.Committed id run
  | .save run => s.Committed id run
  | .register run => s.Committed id run
  | .withdraw run _ => s.Committed id run
  | .finish state _ => state.terminal = true ∧ (state = .installed → ∃ run : Run,
      s.Current id run ∧ .registered run.cancelled run.job.modelName run.job.artifacts ∈ s.log)
  | .quantizing _ => True
  | .leaving => True
  | .exited => True

/-- What a step of a working thread does to the store. -/
inductive Advances (t id : ℕ) (pc : WorkerPc) : Store → Prop
  | stays : Advances t id pc s
  | goes (pc' : WorkerPc) (installed : Map String Json) (hphase : pc'.phase = .working)
      (hchecked : s.Checked id pc → s.Checked id pc') :
      Advances t id pc ({ s with installed }.goto t ⟨id, pc'⟩)
  | fills (job job' : StoreDownload) (hjob : s.downloads.lookup id = some job)
      (hstate : job'.state = job.state) (hname : job'.modelName = job.modelName)
      (hartifacts : job'.artifacts = job.artifacts ∧ job'.file = job.file) :
      Advances t id pc (s.setJob id job')
  | writes (job job' : StoreDownload) (pc' : WorkerPc) (installed : Map String Json)
      (hjob : s.downloads.lookup id = some job) (hstate : job'.state = job.state)
      (hname : job'.modelName = job.modelName)
      (hartifacts : job'.artifacts = job.artifacts ∧ job'.file = job.file)
      (hphase : pc'.phase = .working) (hchecked : s.Checked id pc → s.Checked id pc') :
      Advances t id pc (({ s with installed }.setJob id job').goto t ⟨id, pc'⟩)
  | matches (pc' : WorkerPc) (flag : ℕ) (artifact : StoreFile) (size : UInt64) (checksum : String)
      (hphase : pc'.phase = .working)
      (hchecked : s.Checked id pc →
        (s.record (.matched flag artifact size checksum)).Checked id pc') :
      Advances t id pc ((s.record (.matched flag artifact size checksum)).goto t ⟨id, pc'⟩)
  | commits (run : Run) (flag : ℕ) (hpc : pc = .commit run)
      (hflag : s.cancellations.lookup id = some flag) (hraised : s.flags flag = false) :
      Advances t id pc (({ s with committingInstalls := insert id s.committingInstalls }.record
        (.committed flag)).goto t ⟨id, .place run⟩)
  | registers (run : Run) (registry : ModelRegistry) (hpc : pc = .register run) :
      Advances t id pc (({ s with registry }.record
        (.registered run.cancelled run.job.modelName run.job.artifacts)).goto t
          ⟨id, .finish .installed ""⟩)
  | finishes (state : JobState) (error : String) (hpc : pc = .finish state error) :
      Advances t id pc ((s.finishJob id state error).goto t ⟨id, .leaving⟩)

end Store

/-- A step that is possible leads to where the condition holds. -/
def Gives (step : Option Store) (P : Store → Prop) : Prop := ∀ s', step = some s' → P s'

section Gives

variable {s : Store} {P : Store → Prop} {p : Prop} [Decidable p] {x y : Option Store}

@[simp] theorem gives_some : Gives (some s) P ↔ P s := by simp [Gives]

@[simp] theorem gives_none : Gives none P := by simp [Gives]

@[simp] theorem gives_ite : Gives (if p then x else y) P ↔ (p → Gives x P) ∧ (¬p → Gives y P) := by
  split_ifs with h <;> simp [h]

end Gives

namespace Store

variable {s : Store} {t id : ℕ} {pc : WorkerPc} {seen : Seen}

theorem Advances.go {pc' : WorkerPc} (hphase : pc'.phase = .working)
    (hchecked : s.Checked id pc → s.Checked id pc') : s.Advances t id pc (s.goto t ⟨id, pc'⟩) :=
  .goes pc' s.installed hphase hchecked

/-- An attempt that fails. -/
@[simp] theorem advances_failed {error : String} :
    s.Advances t id pc (s.goto t ⟨id, .finish .failed error⟩) :=
  .go rfl fun _ => ⟨rfl, fun h => by cases h⟩

@[simp] theorem advances_cancelled {error : String} :
    s.Advances t id pc (s.goto t ⟨id, .finish .cancelled error⟩) :=
  .go rfl fun _ => ⟨rfl, fun h => by cases h⟩

@[simp] theorem advances_unexpected {what : Option String} :
    s.Advances t id pc (s.goto t ⟨id, unexpected what⟩) := advances_failed

@[simp] theorem advances_interrupted {run : Run} {e : Error} :
    s.Advances t id pc (s.goto t ⟨id, s.interrupted run e⟩) := by
  unfold interrupted
  split_ifs
  · exact advances_cancelled
  · exact advances_failed

/-- A step on the job's entry, or the exception that there is none. -/
theorem advances_withJob {f : StoreDownload → Store}
    (h : ∀ job, s.downloads.lookup id = some job → s.Advances t id pc (f job)) :
    s.Advances t id pc (s.withJob t id f) := by
  unfold withJob
  split
  · exact advances_unexpected
  next job hjob => exact h job hjob

theorem Progress.next {run : Run} {artifact : StoreFile} {rest : List StoreFile}
    (h : s.Progress id run (artifact :: rest)) {size : UInt64} {checksum : String}
    (hsize : size = artifact.size) (hchecksum : lowered checksum = lowered artifact.sha256) :
    (s.record (.matched run.cancelled artifact size checksum)).Progress id run rest := by
  obtain ⟨hcurrent, done, hartifacts, hdone⟩ := h
  refine ⟨hcurrent, done ++ [artifact], by rw [hartifacts]; simp, fun other hother => ?_⟩
  rcases List.mem_append.1 hother with hother | hother
  · exact (hdone other hother).cons _
  · obtain rfl := List.mem_singleton.1 hother
    exact ⟨size, checksum, List.mem_cons_self, hsize, hchecksum⟩

attribute [local simp] workStep

theorem workStep_inspect {run : Run} :
    Gives (s.workStep t id (.inspect run) seen) (s.Advances t id (.inspect run)) := by
  cases seen
  case partialSize size =>
    simp only [workStep, gives_some, gives_ite, advances_failed, implies_true, true_and]
    exact fun _ => ⟨fun _ => .go rfl fun h => h, fun _ => .go rfl fun h => h⟩
  all_goals simp

theorem workStep_transfer {run : Run} {exceeded : Bool} :
    Gives (s.workStep t id (.transfer run exceeded) seen)
      (s.Advances t id (.transfer run exceeded)) := by
  cases seen
  case progress bytes =>
    simp only [workStep, gives_some, gives_ite]
    refine ⟨fun _ => .go rfl fun h => h, fun _ => advances_withJob fun job hjob => ?_⟩
    exact .fills job _ hjob rfl rfl ⟨rfl, rfl⟩
  case transferred result =>
    rcases result with e | ⟨⟩
    · simp
    · simp only [workStep, gives_some]
      exact .go rfl fun h => h
  all_goals simp

theorem workStep_verify {run : Run} :
    Gives (s.workStep t id (.verify run) seen) (s.Advances t id (.verify run)) := by
  cases seen
  case file size checksum =>
    rcases checksum with e | checksum
    · simp only [workStep, gives_some, gives_ite, advances_failed, implies_true, true_and]
      intro _
      split_ifs
      · exact advances_cancelled
      · exact advances_failed
    · simp only [workStep, gives_some, gives_ite, advances_failed, implies_true, true_and,
        not_not]
      rintro rfl hchecksum
      refine .matches _ _ _ _ _ rfl fun hchecked => ?_
      have hprogress : s.Progress id run [run.job.file] :=
        ⟨hchecked.1, [], hchecked.2, fun _ h => absurd h List.not_mem_nil⟩
      exact hprogress.next rfl hchecksum
  all_goals simp

theorem workStep_stage {run : Run} :
    Gives (s.workStep t id (.stage run) seen) (s.Advances t id (.stage run)) := by
  cases seen
  case staged failure =>
    cases failure with
    | some error => simp
    | none =>
        simp only [workStep, gives_some]
        exact .go rfl fun h => ⟨h, [], rfl, fun _ h => absurd h List.not_mem_nil⟩
  all_goals simp

theorem workStep_nextArtifact {run : Run} {rest : List StoreFile} {completed : UInt64} :
    Gives (s.workStep t id (.nextArtifact run rest completed) seen)
      (s.Advances t id (.nextArtifact run rest completed)) := by
  cases rest with
  | nil =>
      simp only [workStep, gives_some]
      exact .go rfl fun h => h
  | cons artifact rest =>
      cases seen
      case present checksum =>
        rcases checksum with _ | (e | checksum)
        · simp only [workStep, gives_ite, gives_some, advances_cancelled, implies_true, true_and]
          exact fun _ => .go rfl fun h => h
        · simp only [workStep, gives_ite, gives_some, advances_cancelled, implies_true, true_and]
          exact fun _ _ => .go rfl fun h => h
        · simp only [workStep, gives_ite, gives_some, advances_cancelled, implies_true, true_and]
          refine fun _ => ⟨fun hchecksum => ?_, fun _ => .go rfl fun h => h⟩
          exact .matches _ _ _ _ _ rfl fun hchecked => Progress.next hchecked rfl hchecksum
      all_goals simp

theorem workStep_transferArtifact {run : Run} {artifact : StoreFile} {rest : List StoreFile}
    {completed : UInt64} :
    Gives (s.workStep t id (.transferArtifact run artifact rest completed) seen)
      (s.Advances t id (.transferArtifact run artifact rest completed)) := by
  cases seen
  case progress bytes =>
    simp only [workStep, gives_some, gives_ite]
    refine ⟨fun _ => .stays, fun _ => advances_withJob fun job hjob => ?_⟩
    exact .fills job _ hjob rfl rfl ⟨rfl, rfl⟩
  case transferred result =>
    rcases result with e | ⟨⟩
    · simp
    · simp only [workStep, gives_some]
      exact .go rfl fun h => h
  all_goals simp

theorem workStep_verifyArtifact {run : Run} {artifact : StoreFile} {rest : List StoreFile}
    {completed : UInt64} :
    Gives (s.workStep t id (.verifyArtifact run artifact rest completed) seen)
      (s.Advances t id (.verifyArtifact run artifact rest completed)) := by
  cases seen
  case file size checksum =>
    rcases checksum with e | checksum
    · simp only [workStep, gives_some]
      split_ifs
      · exact advances_cancelled
      · exact advances_failed
    · simp only [workStep, gives_some, gives_ite, advances_failed, implies_true, true_and,
        not_or, not_not]
      rintro ⟨hsize, hchecksum⟩
      exact .matches _ _ _ _ _ rfl fun hchecked => Progress.next hchecked hsize hchecksum
  all_goals simp

theorem workStep_placeArtifact {run : Run} {artifact : StoreFile} {rest : List StoreFile}
    {completed : UInt64} :
    Gives (s.workStep t id (.placeArtifact run artifact rest completed) seen)
      (s.Advances t id (.placeArtifact run artifact rest completed)) := by
  cases seen
  case moved occupied result =>
    rcases result with e | ⟨⟩
    · simp
    · simp only [workStep, gives_some]
      exact .go rfl fun h => h
  all_goals simp

theorem workStep_commit {run : Run} :
    Gives (s.workStep t id (.commit run) seen) (s.Advances t id (.commit run)) := by
  unfold workStep beginInstallCommit
  dsimp only
  split
  · simp
  next flag hflag =>
    cases hraised : s.flags flag
    · simp only [Bool.false_eq_true, if_false, gives_some]
      exact .commits run flag rfl hflag hraised
    · simp [err]

theorem workStep_place {run : Run} :
    Gives (s.workStep t id (.place run) seen) (s.Advances t id (.place run)) := by
  cases seen
  case moved occupied result =>
    rcases result with e | ⟨⟩
    · simp
    · simp only [workStep, gives_some, gives_ite, advances_failed, implies_true, true_and]
      exact fun _ => .go rfl fun h => h
  all_goals simp

theorem workStep_publish {run : Run} :
    Gives (s.workStep t id (.publish run) seen) (s.Advances t id (.publish run)) := by
  unfold workStep withJob
  dsimp only
  rw [gives_some]
  split
  · exact .goes _ _ rfl fun _ => ⟨rfl, fun h => by cases h⟩
  next job hjob => exact .writes job _ _ _ hjob rfl rfl ⟨rfl, rfl⟩ rfl fun h => h

theorem workStep_save {run : Run} :
    Gives (s.workStep t id (.save run) seen) (s.Advances t id (.save run)) := by
  cases seen
  case saved result =>
    rcases result with e | ⟨⟩
    all_goals
      simp only [workStep, gives_some]
      exact .go rfl fun h => h
  all_goals simp

theorem workStep_register {run : Run} :
    Gives (s.workStep t id (.register run) seen) (s.Advances t id (.register run)) := by
  unfold workStep
  dsimp only
  rcases s.registry.registerModel (info s.root run.job) with ⟨e | ⟨⟩, registry⟩
  · rw [gives_some]
    exact .go rfl fun h => h
  · rw [gives_some]
    exact .registers run registry rfl

/-- What a step of a working thread does. -/
theorem workStep_advances (hphase : pc.phase = .working) :
    Gives (s.workStep t id pc seen) (s.Advances t id pc) := by
  cases pc with
  | begin => cases hphase
  | quantizing name => cases hphase
  | leaving => cases hphase
  | exited => cases hphase
  | inspect run => exact workStep_inspect
  | transfer run exceeded => exact workStep_transfer
  | verify run => exact workStep_verify
  | stage run => exact workStep_stage
  | nextArtifact run rest completed => exact workStep_nextArtifact
  | transferArtifact run artifact rest completed => exact workStep_transferArtifact
  | verifyArtifact run artifact rest completed => exact workStep_verifyArtifact
  | placeArtifact run artifact rest completed => exact workStep_placeArtifact
  | finishArtifact run artifact rest completed =>
      rw [workStep, gives_some]
      refine advances_withJob fun job hjob => ?_
      exact .writes job _ _ _ hjob rfl rfl ⟨rfl, rfl⟩ rfl fun h => h
  | commit run => exact workStep_commit
  | place run => exact workStep_place
  | publish run => exact workStep_publish
  | save run => exact workStep_save
  | register run => exact workStep_register
  | withdraw run error =>
      rw [workStep, gives_some]
      exact .goes _ _ rfl fun _ => ⟨rfl, fun h => by cases h⟩
  | finish state error =>
      rw [workStep, gives_some]
      exact .finishes state error rfl

end Store

end InferDeck.Gateway.InstallJobs
