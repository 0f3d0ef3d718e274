import InferDeck.InstallRecords

/-!
# The install jobs keep to their laws

Every step keeps the jobs to their stages and true to what the store has told.
-/

namespace InferDeck.Gateway.InstallJobs

open Function InferDeck.Foundation InferDeck.Model ModelStore

namespace Store

variable {s s' : Store} {id j t k : ℕ} {pc pc' : WorkerPc}

/-- Nobody works on a job that is not downloading. -/
theorem Staged.idle (h : s.Staged)
    (hstate : ∀ job, s.downloads.lookup id = some job → job.state ≠ .downloading) (t : ℕ)
    (worker : Worker) (hthread : s.threads t = some worker) (hid : worker.id = id) :
    worker.pc.phase ≠ .working := by
  subst hid
  intro hworking
  have hphase : (s.view worker.id).thread t = some .working :=
    thread_eq_some.2 ⟨worker.pc, hthread, hworking⟩
  obtain ⟨state, name, hrunning, hjob, -⟩ := (h.stage worker.id).of_working hphase (.inr rfl)
  obtain ⟨job, hlookup, hkey⟩ := Option.map_eq_some_iff.1 hjob
  obtain ⟨rfl, -⟩ := Prod.mk.inj hkey
  rcases hrunning with ⟨hphase', -⟩ | ⟨-, hdownloading⟩
  · cases hphase'
  · exact hstate job hlookup hdownloading

theorem not_downloading {state : JobState} (h : state.active = false) : state ≠ .downloading := by
  rintro rfl
  cases h

theorem Told.prune (h : s.Told) (hstaged : s.Staged) (fuel : ℕ) :
    (pruneCompletedJobs fuel s).Told := by
  induction fuel generalizing s with
  | zero => exact h
  | succ fuel ih =>
      rw [pruneCompletedJobs]
      split_ifs
      · exact h
      split
      · exact h
      next oldest holdest =>
        obtain ⟨entry, hentry, rfl⟩ := List.mem_map.1 (List.min?_mem holdest)
        obtain ⟨hmem, hterminal⟩ := List.mem_filter.1 hentry
        have hlookup := Map.mem_entries_iff.1 hmem
        have hstate := active_of_terminal hterminal
        have hborn : entry.1 < s.nextId := by
          by_contra hnot
          have hjob : (s.view entry.1).job = none := by
            rw [hstaged.unborn entry.1 (by omega)]
            rfl
          cases (Option.map_eq_none_iff.1 hjob).symm.trans hlookup
        refine ih (h.erase hborn (hstaged.idle fun job hjob => ?_) s.reservedNames)
          (hstaged.forget hlookup hstate _)
        obtain rfl := Option.some.inj (hlookup.symm.trans hjob)
        exact not_downloading hstate

theorem Told.add (h : s.Told) (hstaged : s.Staged) {request : InstallRequest}
    (hcount : s.activeInstalls < maxActiveInstalls) : (s.addJob request).Told := by
  have hnone : s.downloads.lookup s.nextId = none :=
    Option.map_eq_none_iff.1 (congrArg View.job (hstaged.unborn s.nextId le_rfl))
  refine h.enter (Nat.le_succ _) (Nat.lt_succ_self _) rfl ?_ (fun hmem => ?_) ?_
    (hstaged.idle fun job hjob => ?_) _ s.workers
  · unfold newJob
    cases request.rest with
    | nil => exact fun _ => rfl
    | cons artifact rest => exact fun h => absurd h (by simp)
  · exact absurd (h.ended _ _ hmem) (Nat.lt_irrefl _)
  · refine lt_of_le_of_lt ?_ hcount
    exact Map.count_le_count fun _ _ _ hactive => (Bool.and_eq_true _ _ ▸ hactive).2
  · cases hnone.symm.trans hjob

/-- A job that can be started has not been installed. -/
theorem Staged.uninstalled (h : s.Staged) {origin : Origin} {job : StoreDownload}
    (hcall : s.calls k = some (.startCheck id origin))
    (hlookup : s.downloads.lookup id = some job) : job.state ≠ .installed := by
  have hview : (s.view id).call k = some (.startCheck id origin) := call_eq_some.2 ⟨hcall, rfl⟩
  have hjob : (s.view id).job = some (job.state, job.modelName) := by
    rw [view, hlookup, Option.map_some]
  intro hinstalled
  rw [hinstalled] at hjob
  cases origin with
  | install modelName =>
      obtain ⟨name, hqueued, -⟩ := (h.stage id).of_starts hview rfl
      cases hqueued.symm.trans hjob
  | resume =>
      have hcalls : ∀ call, call = Call.startCheck id .resume → ¬call.resumes = true := by
        rintro call rfl hresumes
        cases hresumes
      cases h.stage id with
      | vacant hnone => cases hnone.symm.trans hjob
      | starting k' call name hqueued => cases hqueued.symm.trans hjob
      | undoing k' id' name e hqueued hworker hother halone =>
          obtain rfl := halone.eq hview
          cases hview.symm.trans hother
      | reserving k' call name hnone => cases hnone.symm.trans hjob
      | running t phase state name hthread hphase hrunning hnamed hworker hothers hall =>
          exact absurd (hall k _ hview) (hcalls _ rfl)
      | quantizing t name hthread hnone => cases hnone.symm.trans hjob
      | ended state name hended hstate hnamed hthreads hall =>
          obtain ⟨rfl, -⟩ := Prod.mk.inj (Option.some.inj (hended.symm.trans hjob))
          rcases hall k _ hview with hresumes | ⟨-, hfailed | hcancelled⟩
          · exact hcalls _ rfl hresumes
          · cases hfailed
          · cases hcancelled

theorem Told.queue (h : s.Told) (hstaged : s.Staged) {origin : Origin} {job : StoreDownload}
    (hcall : s.calls k = some (.startCheck id origin))
    (hlookup : s.downloads.lookup id = some job) (hstate : job.state ≠ .downloading)
    (hcount : Map.count s.downloads (fun other job => decide (other ≠ id) && job.state.active) <
      maxActiveInstalls) : (s.queueJob id job).Told := by
  have hsound := h.sound id job hlookup
  have hqueued : ({ job with state := .queued, error := "" } : StoreDownload).state = .queued := rfl
  refine h.enter le_rfl (hstaged.called hcall rfl) hqueued hsound.single (fun hmem => ?_) hcount
    (hstaged.idle fun job' hjob' => ?_) _ (s.workers.erase id)
  · exact hstaged.uninstalled hcall hlookup (hsound.final hmem)
  · obtain rfl := Option.some.inj (hlookup.symm.trans hjob')
    exact hstate

theorem Told.setCall (h : s.Told) (call : Call) : (s.setCall k call).Told := h.same

theorem Told.spawn (h : s.Told) (hidle : pc.phase ≠ .working) : (s.spawn id pc).Told := by
  refine h.tacit ⟨rfl, rfl, rfl, rfl, rfl, le_rfl, List.Subset.refl _, fun _ hmem => .inl hmem⟩
    fun t worker hworker => ?_
  by_cases ht : t = s.nextThread
  · subst ht
    obtain rfl := Option.some.inj ((update_self s.nextThread _ s.threads).symm.trans hworker)
    exact .inr (checked_of_idle hidle)
  · exact .inl ((update_of_ne ht _ _).symm.trans hworker)

theorem Told.rename (h : s.Told) {nextId : ℕ} (hnextId : s.nextId ≤ nextId)
    (reservedNames : Map String ℕ) : Told { s with nextId, reservedNames } :=
  h.tacit ⟨rfl, rfl, rfl, rfl, rfl, hnextId, List.Subset.refl _, fun _ hmem => .inl hmem⟩
    fun _ _ hworker => .inl hworker

theorem Told.startFails (h : s.Told) (origin : Origin) (e : Error) :
    (s.startFails k id origin e).Told := by
  cases origin with
  | install modelName => exact h.setCall _
  | resume => exact h.answer _

theorem Told.callStep (h : s.Told) (hstaged : s.Staged) {call : Call}
    (hcall : s.calls k = some call) (failure : Option String) :
    Gives (s.callStep k call failure) Told := by
  have hview : ∀ {id}, call.job = some id → (s.view id).call k = some call := fun hjob =>
    call_eq_some.2 ⟨hcall, hjob⟩
  cases call with
  | installReap request =>
      rw [Store.callStep, gives_some]
      exact h.same.setCall _
  | installReserve request =>
      have hpruned := h.prune hstaged s.downloads.entries.length
      rw [Store.callStep]
      rcases reserve_spec (s := s) request with ⟨e, hspec⟩ | ⟨hcount, -, hspec⟩
      · rw [hspec, gives_some]
        exact hpruned.answer _
      · rw [hspec, gives_some]
        exact (hpruned.add (hstaged.prune _) hcount).setCall _
  | startReap id origin =>
      rw [Store.callStep, gives_some]
      exact h.same.setCall _
  | startCheck id origin =>
      rw [Store.callStep]
      rcases startCheck_spec (s := s) id with
        ⟨e, hspec⟩ | ⟨job, hlookup, hstate, hcount, -, hspec⟩
      · rw [hspec, gives_some]
        exact h.startFails _ _
      · rw [hspec, gives_some]
        exact (h.queue hstaged hcall hlookup hstate hcount).setCall _
  | startJoin id origin previous =>
      rw [Store.callStep, gives_ite, gives_some]
      exact ⟨fun _ => h.setCall _, fun _ => gives_none⟩
  | startSpawn id origin =>
      obtain ⟨name, hjob, -, hworker, -⟩ := (hstaged.stage id).of_starts (hview rfl) rfl
      obtain ⟨job, hlookup, hkey⟩ := Option.map_eq_some_iff.1 hjob
      have hqueued : job.state = .queued := (Prod.mk.inj hkey).1
      have hnone : s.workers.lookup id = none := hworker
      rw [Store.callStep]
      cases failure with
      | none =>
          rw [startSpawn, gives_some, Map.contains, hnone, Option.isSome_none,
            if_neg Bool.false_ne_true]
          exact (h.spawn fun hphase => by cases hphase).answer _
      | some what =>
          rw [startSpawn, hlookup, Option.elim_some, err, gives_some]
          have hfail : (s.failStart id job what).Told := by
            refine h.rewrite (hstaged.called hcall rfl) hlookup ?_ ⟨?_, ?_⟩ (fun hactive => ?_) ?_ _
            · rfl
            · rfl
            · rfl
            · cases hactive
            · rw [hqueued]
              exact ⟨fun hstate => (by cases hstate), fun hstate => (by cases hstate)⟩
          exact hfail.startFails _ _
  | installUndo id modelName e =>
      rw [Store.callStep, gives_some]
      obtain ⟨hjob, -⟩ := (hstaged.stage id).of_undoes (hview rfl)
      refine (h.erase (hstaged.called hcall rfl) (hstaged.idle fun job hlookup => ?_) _).answer _
      have hentry : (s.view id).job = some (job.state, job.modelName) := by
        rw [view, hlookup, Option.map_some]
      rcases hjob with ⟨hjob, -⟩ | ⟨hjob | hjob, -⟩
      · obtain ⟨hstate, -⟩ := Prod.mk.inj (Option.some.inj (hentry.symm.trans hjob))
        rw [hstate]
        exact fun h => by cases h
      · cases hentry.symm.trans hjob
      · obtain ⟨hstate, -⟩ := Prod.mk.inj (Option.some.inj (hentry.symm.trans hjob))
        rw [hstate]
        exact fun h => by cases h
  | resumeReap id =>
      rw [Store.callStep, gives_some]
      exact h.same.setCall _
  | resumeCheck id =>
      rw [Store.callStep]
      cases s.resumeCheck id with
      | error e =>
          rw [gives_some]
          exact h.answer _
      | ok =>
          rw [gives_some]
          exact h.setCall _
  | quantizeReserve source name =>
      rw [Store.callStep, gives_ite, gives_ite, gives_ite, gives_some, gives_some, gives_some,
        gives_some]
      exact ⟨fun _ => h.answer _, fun _ => ⟨fun _ => h.answer _, fun _ => ⟨fun _ => h.answer _,
        fun _ => (h.rename (Nat.le_succ _) _).setCall _⟩⟩⟩
  | quantizeReap id name =>
      rw [Store.callStep, gives_some]
      exact h.same.setCall _
  | quantizeStart id name =>
      cases failure with
      | none =>
          rw [Store.callStep, gives_ite, gives_ite, gives_some, gives_some, gives_some]
          exact ⟨fun _ => h.setCall _, fun _ => ⟨fun _ => h.setCall _,
            fun _ => (h.spawn fun hphase => by cases hphase).answer _⟩⟩
      | some what =>
          rw [Store.callStep, gives_ite, gives_ite, gives_some, gives_some, gives_some]
          exact ⟨fun _ => h.setCall _, fun _ => ⟨fun _ => h.setCall _,
            fun _ => (h.rename le_rfl _).setCall _⟩⟩
  | quantizeUndo id name e =>
      rw [Store.callStep, gives_some]
      exact (h.rename le_rfl _).answer _

theorem Current.rewrite {run : Run} {job job' : StoreDownload} (h : s.Current id run)
    (hlookup : s.downloads.lookup id = some job) (hname : job'.modelName = job.modelName)
    (hartifacts : job'.artifacts = job.artifacts) : (s.setJob id job').Current id run := by
  obtain ⟨hflag, before, hbefore, hrun⟩ := h
  obtain rfl := Option.some.inj (hlookup.symm.trans hbefore)
  exact ⟨hflag, job', AList.lookup_insert _, hname.trans hrun.1, hartifacts.trans hrun.2⟩

theorem Told.advance (h : s.Told) (hstaged : s.Staged) (hthread : s.threads t = some ⟨id, pc⟩)
    (hphase : pc.phase = .working) (hstep : s.Advances t id pc s') : s'.Told := by
  have hchecked : s.Checked id pc := h.checked t ⟨id, pc⟩ hthread
  have hborn := hstaged.born hthread
  have htacit : ∀ installed registry, s.Tacit { s with installed, registry } := fun _ _ =>
    ⟨rfl, rfl, rfl, rfl, rfl, le_rfl, List.Subset.refl _, fun _ hmem => .inl hmem⟩
  cases hstep with
  | stays => exact h
  | goes pc' installed _ hgoes =>
      have hsame : Told { s with installed } := h.same
      exact hsame.goto ((htacit installed s.registry).checked (hgoes hchecked))
  | fills job job' hjob hstate hname hartifacts =>
      exact h.rewrite hborn hjob hname hartifacts (fun hactive => hstate ▸ hactive) (by rw [hstate])
        s.reservedNames
  | writes job job' pc' installed hjob hstate hname hartifacts _ hgoes =>
      have hsame : Told { s with installed } := h.same
      have hwritten : Told ({ s with installed }.setJob id job') :=
        hsame.rewrite hborn hjob hname hartifacts (fun hactive => hstate ▸ hactive) (by rw [hstate])
          s.reservedNames
      refine hwritten.goto ((hgoes hchecked).mono (List.Subset.refl _) fun run hrun => ?_)
      exact Current.rewrite (s := s) hrun hjob hname hartifacts.1
  | «matches» pc' flag artifact size checksum _ hgoes => exact (h.record rfl).goto (hgoes hchecked)
  | commits run flag hpc hflag hraised =>
      subst hpc
      have hmono := List.subset_cons_self (Event.committed flag) s.log
      refine (h.commit hflag hraised).goto ⟨Progress.mono hchecked hmono fun hrun => hrun, ?_⟩
      have hrun : s.Current id run := hchecked.1
      obtain rfl := Option.some.inj (hrun.1.symm.trans hflag)
      exact List.mem_cons_self
  | registers run registry hpc =>
      subst hpc
      have hcurrent : s.Current id run := hchecked.1.1
      exact (h.register hchecked registry).goto
        ⟨rfl, fun _ => ⟨run, hcurrent, List.mem_cons_self⟩⟩
  | finishes state error hpc =>
      subst hpc
      have hworking : (s.view id).thread t = some .working := thread_eq_some.2 ⟨_, hthread, rfl⟩
      obtain ⟨before, name, hrunning, hjob, -⟩ := (hstaged.stage id).of_working hworking (.inr rfl)
      obtain ⟨job, hlookup, hkey⟩ := Option.map_eq_some_iff.1 hjob
      obtain ⟨rfl, -⟩ := Prod.mk.inj hkey
      refine (h.finish hborn hlookup ?_ hchecked).goto trivial
      rcases hrunning with ⟨-, hstate⟩ | ⟨-, hstate⟩ <;> rw [hstate] <;> exact fun h => by cases h

theorem Told.work (h : s.Told) (hstaged : s.Staged) {seen : Seen}
    (hthread : s.threads t = some ⟨id, pc⟩) : Gives (s.workStep t id pc seen) Told := by
  intro s' hstep
  have hphase : (s.view id).thread t = some pc.phase := thread_eq_some.2 ⟨pc, hthread, rfl⟩
  have hworking : pc.phase = .working → s'.Told := fun hworking =>
    h.advance hstaged hthread hworking (workStep_advances hworking s' hstep)
  cases pc with
  | begin =>
      obtain ⟨state, name, hbegun, hjob, -⟩ := (hstaged.stage id).of_working hphase (.inl rfl)
      obtain ⟨job, hlookup, hkey⟩ := Option.map_eq_some_iff.1 hjob
      obtain ⟨rfl, -⟩ := Prod.mk.inj hkey
      have hqueued : job.state = .queued := by
        rcases hbegun with ⟨-, hstate⟩ | ⟨hworking, -⟩
        · exact hstate
        · cases hworking
      have hsound := h.sound id job hlookup
      obtain ⟨flag, hflag⟩ := Option.isSome_iff_exists.1 hsound.flagged
      simp only [workStep, hlookup, hflag, Option.some.injEq] at hstep
      rw [← hstep]
      have hwritten : (s.setJob id { job with state := .downloading }).Told := by
        refine h.rewrite (hstaged.born hthread) hlookup ?_ ⟨?_, ?_⟩ (fun _ => ?_) ?_ s.reservedNames
        · rfl
        · rfl
        · rfl
        · rw [hqueued]
          rfl
        · rw [hqueued]
          exact ⟨fun hstate => (by cases hstate), fun hstate => (by cases hstate)⟩
      have hcurrent : (s.setJob id { job with state := .downloading }).Current id ⟨job, flag⟩ :=
        ⟨hflag, _, AList.lookup_insert _, rfl, rfl⟩
      refine hwritten.goto ?_
      split_ifs with hbundle
      · exact hcurrent
      · refine ⟨hcurrent, hsound.single ?_⟩
        rw [isBundle, decide_eq_true_eq] at hbundle
        exact Nat.not_lt.1 hbundle
  | quantizing name =>
      obtain rfl := Option.some.inj hstep
      have hrenamed : Told { s with reservedNames := s.releaseName name id } :=
        h.rename le_rfl _
      exact hrenamed.goto trivial
  | leaving =>
      obtain rfl := Option.some.inj hstep
      exact h.goto trivial
  | exited => cases hstep
  | _ => exact hworking rfl

theorem Told.next (h : s.Told) (hstaged : s.Staged) {action : Action} :
    Gives (s.next action) Told := by
  unfold Store.next
  rw [hstaged.alive, if_neg Bool.false_ne_true]
  cases action with
  | install caller repo filename runtime modelName resolved available =>
      refine gives_ite.2 ⟨fun _ => gives_none, fun _ => ?_⟩
      split
      · exact gives_some.2 (h.answer _)
      · exact gives_some.2 (h.setCall _)
  | resume caller id =>
      exact gives_ite.2 ⟨fun _ => gives_none, fun _ => gives_some.2 (h.setCall _)⟩
  | cancel id => exact gives_some.2 (h.cancel id)
  | call caller failure =>
      dsimp only
      cases hcall : s.calls caller with
      | none => exact gives_none
      | some call => exact h.callStep hstaged hcall failure
  | work t seen =>
      dsimp only
      cases hthread : s.threads t with
      | none => exact gives_none
      | some worker => exact h.work hstaged hthread
  | quantize caller source name =>
      exact gives_ite.2 ⟨fun _ => gives_none, fun _ => gives_some.2 (h.setCall _)⟩
  | elsewhere installed registry =>
      exact gives_some.2 (h.tacit ⟨rfl, rfl, rfl, rfl, rfl, le_rfl, List.Subset.refl _,
        fun _ hmem => .inl hmem⟩ fun _ _ hworker => .inl hworker)

/-- What holds of the install jobs in every state of a run. -/
structure Lawful (s : Store) : Prop where
  /-- No thread is destroyed that still runs. -/
  alive : s.terminated = false
  bounded : s.activeInstalls ≤ maxActiveInstalls
  /-- A job has one thread at a time that works on it. -/
  single : ∀ t t' worker worker', s.threads t = some worker → s.threads t' = some worker' →
    worker.id = worker'.id → worker.pc.phase.busy = true → worker'.pc.phase.busy = true → t = t'
  /-- A job that is queued or downloading has a call or a worker that sees to it, and its name. -/
  attended : ∀ id job, s.downloads.lookup id = some job → job.state.active = true →
    s.reservedNames.lookup job.modelName = some id ∧
      ((∃ k call, s.calls k = some call ∧ call.job = some id) ∨
        ∃ t pc, s.threads t = some ⟨id, pc⟩ ∧ pc.phase.busy = true)
  /-- Nobody else has reserved a name. -/
  reserved : ∀ name id, s.reservedNames.lookup name = some id →
    (∃ job, s.downloads.lookup id = some job ∧ job.state.active = true ∧ job.modelName = name) ∨
      (∃ k call, s.calls k = some call ∧ call.job = some id ∧ call.quantizes = some name) ∨
      ∃ t, s.threads t = some ⟨id, .quantizing name⟩
  /-- A start whose cancel has been accepted never registers its model. -/
  cancelled : ∀ flag, .accepted flag ∈ s.log →
    .committed flag ∉ s.log ∧ ∀ name artifacts, .registered flag name artifacts ∉ s.log
  registered : ∀ flag name artifacts, .registered flag name artifacts ∈ s.log →
    ∀ artifact ∈ artifacts, Verified s.log flag artifact
  /-- A job that is installed has been registered by its last start. -/
  installed : ∀ id job, s.downloads.lookup id = some job → job.state = .installed →
    ∃ flag, s.cancellations.lookup id = some flag ∧
      .registered flag job.modelName job.artifacts ∈ s.log
  /-- It stays installed. -/
  final : ∀ id job, .ended id .installed ∈ s.log → s.downloads.lookup id = some job →
    job.state = .installed

end Store

theorem View.Stage.busy_unique {v : View} (h : v.Stage) {t t' : ℕ} {phase phase' : Phase}
    (hthread : v.thread t = some phase) (hthread' : v.thread t' = some phase')
    (hbusy : phase.busy = true) (hbusy' : phase'.busy = true) : t = t' := by
  have hnot : ∀ found, v.Leaving found → False := by
    intro found hleaving
    rcases hleaving t phase hthread with rfl | ⟨rfl, -⟩ <;> cases hbusy
  have hothers : ∀ t'', v.OthersExited t'' → t = t' := by
    intro t'' hothers
    have hone : t = t'' := by
      by_contra hne
      obtain rfl := hothers t phase hne hthread
      cases hbusy
    have htwo : t' = t'' := by
      by_contra hne
      obtain rfl := hothers t' phase' hne hthread'
      cases hbusy'
    exact hone.trans htwo.symm
  cases h with
  | vacant hjob hnamed hthreads => exact (hnot _ hthreads).elim
  | starting k call name hjob hnamed hworker hcall hstarts hreserved halone hthreads =>
      exact (hnot _ hthreads).elim
  | undoing k id name e hjob hworker hcall halone hthreads => exact (hnot _ hthreads).elim
  | reserving k call name hjob hnamed hworker hcall hquantizes halone hthreads =>
      exact (hnot _ hthreads).elim
  | running t'' phase'' state name hthread'' hphase hjob hnamed hworker hall =>
      exact hothers t'' hall
  | quantizing t'' name hthread'' hjob hnamed hworker hall => exact hothers t'' hall
  | ended state name hjob hstate hnamed hthreads => exact (hnot _ hthreads).elim

/-- An active job. -/
theorem View.Stage.of_active {v : View} (h : v.Stage) {state : JobState} {name : String}
    (hjob : v.job = some (state, name)) (hactive : state.active = true) : v.named name ∧
      ((∃ k call, v.call k = some call) ∨
        ∃ t phase, v.thread t = some phase ∧ phase.busy = true) := by
  cases h with
  | vacant hjob' => cases hjob'.symm.trans hjob
  | starting k call name' hjob' hnamed hworker hcall =>
      obtain ⟨rfl, rfl⟩ := Prod.mk.inj (Option.some.inj (hjob'.symm.trans hjob))
      exact ⟨(hnamed name').2 rfl, .inl ⟨k, call, hcall⟩⟩
  | undoing k id name' e hjob' hworker hcall =>
      rcases hjob' with ⟨hjob', hnamed⟩ | ⟨hjob' | hjob', -⟩
      · obtain ⟨rfl, rfl⟩ := Prod.mk.inj (Option.some.inj (hjob'.symm.trans hjob))
        exact ⟨(hnamed name').2 rfl, .inl ⟨k, _, hcall⟩⟩
      · cases hjob'.symm.trans hjob
      · obtain ⟨rfl, rfl⟩ := Prod.mk.inj (Option.some.inj (hjob'.symm.trans hjob))
        cases hactive
  | reserving k call name' hjob' => cases hjob'.symm.trans hjob
  | running t phase state' name' hthread hphase hjob' hnamed =>
      obtain ⟨rfl, rfl⟩ := Prod.mk.inj (Option.some.inj (hjob'.symm.trans hjob))
      refine ⟨(hnamed name').2 rfl, .inr ⟨t, phase, hthread, ?_⟩⟩
      rcases hphase with ⟨rfl, -⟩ | ⟨rfl, -⟩ <;> rfl
  | quantizing t name' hthread hjob' => cases hjob'.symm.trans hjob
  | ended state' name' hjob' hstate =>
      obtain ⟨rfl, rfl⟩ := Prod.mk.inj (Option.some.inj (hjob'.symm.trans hjob))
      exact absurd (hstate.symm.trans hactive) Bool.false_ne_true

/-- A reserved name. -/
theorem View.Stage.of_named {v : View} (h : v.Stage) {name : String} (hnamed : v.named name) :
    (∃ state, v.job = some (state, name) ∧ state.active = true) ∨
      (∃ k call, v.call k = some call ∧ call.quantizes = some name) ∨
      ∃ t, v.thread t = some (.quantizing name) := by
  cases h with
  | vacant hjob hunnamed => exact absurd hnamed (hunnamed name)
  | starting k call name' hjob hnames =>
      obtain rfl := (hnames name).1 hnamed
      exact .inl ⟨.queued, hjob, rfl⟩
  | undoing k id name' e hjob =>
      rcases hjob with ⟨hjob, hnames⟩ | ⟨-, hunnamed⟩
      · obtain rfl := (hnames name).1 hnamed
        exact .inl ⟨.queued, hjob, rfl⟩
      · exact absurd hnamed (hunnamed name)
  | reserving k call name' hjob hnames hworker hcall hquantizes =>
      obtain rfl := (hnames name).1 hnamed
      exact .inr (.inl ⟨k, call, hcall, hquantizes⟩)
  | running t phase state name' hthread hphase hjob hnames =>
      obtain rfl := (hnames name).1 hnamed
      refine .inl ⟨state, hjob, ?_⟩
      rcases hphase with ⟨-, rfl⟩ | ⟨-, rfl⟩ <;> rfl
  | quantizing t name' hthread hjob hnames =>
      obtain rfl := (hnames name).1 hnamed
      exact .inr (.inr ⟨t, hthread⟩)
  | ended state name' hjob hstate hunnamed => exact absurd hnamed (hunnamed name)

namespace Store

variable {s : Store}

theorem lawful (hstaged : s.Staged) (htold : s.Told) : s.Lawful where
  alive := hstaged.alive
  bounded := htold.active
  single t t' worker worker' hthread hthread' hid hbusy hbusy' := by
    have hphase : (s.view worker.id).thread t = some worker.pc.phase :=
      thread_eq_some.2 ⟨worker.pc, hthread, rfl⟩
    have hphase' : (s.view worker.id).thread t' = some worker'.pc.phase :=
      thread_eq_some.2 ⟨worker'.pc, hid ▸ hthread', rfl⟩
    exact (hstaged.stage worker.id).busy_unique hphase hphase' hbusy hbusy'
  attended id job hlookup hactive := by
    have hjob : (s.view id).job = some (job.state, job.modelName) := by
      rw [view, hlookup, Option.map_some]
    obtain ⟨hnamed, hattended⟩ := (hstaged.stage id).of_active hjob hactive
    refine ⟨hnamed, ?_⟩
    rcases hattended with ⟨k, call, hcall⟩ | ⟨t, phase, hphase, hbusy⟩
    · exact .inl ⟨k, call, call_eq_some.1 hcall⟩
    · obtain ⟨pc, hthread, rfl⟩ := thread_eq_some.1 hphase
      exact .inr ⟨t, pc, hthread, hbusy⟩
  reserved name id hlookup := by
    rcases (hstaged.stage id).of_named hlookup with
      ⟨state, hjob, hactive⟩ | ⟨k, call, hcall, hquantizes⟩ | ⟨t, hphase⟩
    · obtain ⟨job, hlookup', hkey⟩ := Option.map_eq_some_iff.1 hjob
      obtain ⟨rfl, rfl⟩ := Prod.mk.inj hkey
      exact .inl ⟨job, hlookup', hactive, rfl⟩
    · obtain ⟨hk, hjob⟩ := call_eq_some.1 hcall
      exact .inr (.inl ⟨k, call, hk, hjob, hquantizes⟩)
    · obtain ⟨pc, hthread, hquantizing⟩ := thread_eq_some.1 hphase
      cases pc <;> cases hquantizing
      exact .inr (.inr ⟨t, hthread⟩)
  cancelled flag hmem := by
    have hraised := (htold.accepted flag hmem).2
    have hopen : .committed flag ∉ s.log := fun hcommitted =>
      Bool.false_ne_true ((htold.committed flag hcommitted).2.symm.trans hraised)
    exact ⟨hopen, fun name artifacts hregistered =>
      hopen (htold.registered flag name artifacts hregistered).1⟩
  registered flag name artifacts hmem := (htold.registered flag name artifacts hmem).2
  installed id job hlookup := (htold.sound id job hlookup).installed
  final id job hmem hlookup := (htold.sound id job hlookup).final hmem

theorem meets_append {σ α : Type} {next : σ → α → Option σ} {allowed : σ → α → Prop} {s : σ}
    {actions actions' : List α} (h : Execution.Meets next allowed s actions)
    (hrest : ∀ s', Execution.exec next s actions = some s' →
      Execution.Meets next allowed s' actions') :
    Execution.Meets next allowed s (actions ++ actions') := by
  induction actions generalizing s with
  | nil => exact hrest s rfl
  | cons a actions ih =>
      exact ⟨h.1, fun s' hs' => ih (h.2 s' hs') fun s'' hexec =>
        hrest s'' (Execution.exec_cons_eq_some_iff.2 ⟨s', hs', hexec⟩)⟩

section Initial

variable (root : String) (windows : Bool) (registry : ModelRegistry) (models : Map String Json)

theorem staged_initial : (initial root windows registry models).Staged where
  stage id := .vacant rfl (fun _ h => by cases h) (fun _ _ h => by cases h)
    (fun _ _ h => by cases h)
  once k k' call call' h := by cases h
  unborn id hid := by
    unfold view initial View.empty
    congr 1
    funext name
    exact propext ⟨fun h => (by cases h), False.elim⟩
  threads t worker h := by cases h
  alive := rfl

theorem told_initial : (initial root windows registry models).Told where
  fresh id flag h := by cases h
  owned id id' flag h := by cases h
  accepted flag h := by cases h
  committed flag h := by cases h
  committing flag h := by cases h
  registered flag name artifacts h := by cases h
  sound id job h := by cases h
  ended id state h := by cases h
  active := Nat.zero_le _
  checked t worker h := by cases h

/-- The install jobs of a store keep to their laws in every state of every run in which a job is not
resumed while another call is about it, and a quantization gets its thread. -/
theorem install_jobs_lawful (actions : List Action)
    (hmeets : Execution.Meets next MayAct (initial root windows registry models) actions) :
    Execution.Always next Lawful (initial root windows registry models) actions := by
  refine hmeets.always (I := fun s => s.Staged ∧ s.Told) (fun s h => lawful h.1 h.2) ?_
    ⟨staged_initial root windows registry models, told_initial root windows registry models⟩
  intro s action s' h hmay hnext
  refine ⟨h.1.next hmay h.2.checked (fun id hsome => ?_) s' hnext, h.2.next h.1 s' hnext⟩
  obtain ⟨job, hlookup⟩ := Option.isSome_iff_exists.1 hsome
  exact (h.2.sound id job hlookup).flagged

end Initial

/-- A job that has failed is resumed. -/
theorem install_jobs_lawful_resumed : Execution.Always next Lawful
    (initial "/models" false { entries := ∅, factories := ∅ } ∅)
    (([.install 0 "org/tiny" "tiny.gguf" "llama_cpp" "tiny"
        (.ok (⟨"tiny.gguf", "AB", 10, "llama_cpp", "text", []⟩, [])) 100000000,
      .call 0 none, .call 0 none, .call 0 none, .call 0 none, .call 0 none, .call 0 none,
      .work 0 .nothing, .work 0 (.thrown none), .work 0 .nothing] : List Action) ++
    ([.resume 0 1, .call 0 none, .call 0 none, .call 0 none, .call 0 none, .work 0 .nothing,
      .call 0 none, .call 0 none, .work 1 .nothing, .cancel 1] : List Action)) := by
  refine install_jobs_lawful _ _ _ _ _ (meets_append (.of_forall fun action hmem s => ?_)
    fun s hexec => ⟨⟨?_, fun k call hcall => ?_⟩, fun _ _ => .of_forall fun action hmem s => ?_⟩)
  · fin_cases hmem <;> first | trivial | exact fun _ _ _ => rfl
  · have hnextId : some s.nextId = some 2 :=
      (congrArg (Option.map Store.nextId) hexec).symm.trans (by decide +kernel)
    exact Option.some.inj hnextId ▸ Nat.one_lt_two
  · have hnone : s.calls k = none := by
      have hcalls := congrArg (fun s : Option Store => s.bind fun s => s.calls k) hexec
      refine hcalls.symm.trans ?_
      cases k <;> rfl
    cases hnone.symm.trans hcall
  · fin_cases hmem <;> first | trivial | exact fun _ _ _ => rfl

end Store

end InferDeck.Gateway.InstallJobs
