import InferDeck.InstallSteps

/-!
# Every job keeps to its stages

A step is about one job, and the others look as before. A resume is only called when no other call
is about its job.
-/

namespace InferDeck.Gateway.InstallJobs

open Function InferDeck.Foundation InferDeck.Model ModelStore

namespace View

variable {v : View} {t k : ℕ} {phase : Phase} {call : Call}

/-- A thread that works has its job for itself. -/
theorem Stage.of_working (h : v.Stage) (hthread : v.thread t = some phase)
    (hphase : phase = .begun ∨ phase = .working) : ∃ state name,
      (phase = .begun ∧ state = .queued ∨ phase = .working ∧ state = .downloading) ∧
        v.job = some (state, name) ∧ v.Names name ∧ v.worker = some t ∧ v.OthersExited t ∧
        v.Calls fun call => call.resumes = true := by
  have hnot : ∀ found, v.Leaving found → False := by
    intro found hleaving
    rcases hleaving t phase hthread with rfl | ⟨rfl, -⟩ <;> rcases hphase with h | h <;> cases h
  have hexited : ∀ t', t ≠ t' → v.OthersExited t' → False := by
    intro t' ht hothers
    obtain rfl := hothers t phase ht hthread
    rcases hphase with h | h <;> cases h
  cases h with
  | vacant hjob hnamed hthreads => exact (hnot _ hthreads).elim
  | starting k call name hjob hnamed hworker hcall hstarts hreserved halone hthreads =>
      exact (hnot _ hthreads).elim
  | undoing k id name e hjob hworker hcall halone hthreads =>
      exact (hnot _ hthreads).elim
  | reserving k call name hjob hnamed hworker hcall hquantizes halone hthreads =>
      exact (hnot _ hthreads).elim
  | running t' phase' state name hthread' hphase' hjob hnamed hworker hothers hcalls =>
      by_cases ht : t = t'
      · subst ht
        obtain rfl := Option.some.inj (hthread.symm.trans hthread')
        exact ⟨state, name, hphase', hjob, hnamed, hworker, hothers, hcalls⟩
      · exact (hexited t' ht hothers).elim
  | quantizing t' name hthread' hjob hnamed hworker hothers =>
      by_cases ht : t = t'
      · subst ht
        obtain rfl := Option.some.inj (hthread.symm.trans hthread')
        rcases hphase with h | h <;> cases h
      · exact (hexited t' ht hothers).elim
  | ended state name hjob hstate hnamed hthreads => exact (hnot _ hthreads).elim

/-- A quantization has its job for itself. -/
theorem Stage.of_quantizing {name : String} (h : v.Stage)
    (hthread : v.thread t = some (.quantizing name)) : v.job = none ∧ v.Names name ∧
      v.worker = some t ∧ v.OthersExited t ∧ v.Calls fun call => call.resumes = true := by
  have hnot : ∀ found, v.Leaving found → False := by
    intro found hleaving
    rcases hleaving t _ hthread with hphase | ⟨hphase, -⟩ <;> cases hphase
  have hexited : ∀ t', t ≠ t' → v.OthersExited t' → False := by
    intro t' ht hothers
    cases hothers t _ ht hthread
  cases h with
  | vacant hjob hnamed hthreads => exact (hnot _ hthreads).elim
  | starting k call name hjob hnamed hworker hcall hstarts hreserved halone hthreads =>
      exact (hnot _ hthreads).elim
  | undoing k id name e hjob hworker hcall halone hthreads =>
      exact (hnot _ hthreads).elim
  | reserving k call name hjob hnamed hworker hcall hquantizes halone hthreads =>
      exact (hnot _ hthreads).elim
  | running t' phase' state name hthread' hphase' hjob hnamed hworker hothers hcalls =>
      by_cases ht : t = t'
      · subst ht
        obtain rfl := Option.some.inj (hthread.symm.trans hthread')
        rcases hphase' with ⟨h, -⟩ | ⟨h, -⟩ <;> cases h
      · exact (hexited t' ht hothers).elim
  | quantizing t' name hthread' hjob hnamed hworker hothers hcalls =>
      by_cases ht : t = t'
      · subst ht
        obtain rfl := Phase.quantizing.inj (Option.some.inj (hthread.symm.trans hthread'))
        exact ⟨hjob, hnamed, hworker, hothers, hcalls⟩
      · exact (hexited t' ht hothers).elim
  | ended state name hjob hstate hnamed hthreads => exact (hnot _ hthreads).elim

theorem OthersExited.update {w : View} (h : v.OthersExited t) {phase : Option Phase}
    (hthread : w.thread = Function.update v.thread t phase) : w.OthersExited t := by
  intro t' phase' ht hphase
  rw [hthread, update_of_ne ht] at hphase
  exact h t' phase' ht hphase

theorem OthersExited.leaving {w : View} (h : v.OthersExited t)
    (hthread : w.thread = Function.update v.thread t (some .leaving))
    (hworker : w.worker = some t) : w.Leaving w.worker := by
  intro t' phase hphase
  by_cases ht : t' = t
  · subst ht
    rw [hthread, update_self] at hphase
    exact .inr ⟨(Option.some.inj hphase).symm, hworker⟩
  · exact .inl (h.update hthread t' phase ht hphase)

theorem Leaving.exit {found : Option ℕ} (h : v.Leaving found) {w : View}
    (hthread : w.thread = Function.update v.thread t (some .exited)) : w.Leaving found := by
  intro t' phase hphase
  rw [hthread] at hphase
  by_cases ht : t' = t
  · subst ht
    rw [update_self] at hphase
    exact .inl (Option.some.inj hphase).symm
  · rw [update_of_ne ht] at hphase
    exact h t' phase hphase

/-- Nobody misses a thread that leaves. -/
theorem Stage.exit (h : v.Stage) (hthread : v.thread t = some .leaving) :
    Stage { v with thread := Function.update v.thread t (some .exited) } := by
  have hexited : ∀ t' phase, v.thread t' = some phase → phase ≠ .leaving → v.OthersExited t' →
      False := by
    intro t' phase hphase hne hothers
    by_cases ht : t = t'
    · subst ht
      exact hne (Option.some.inj (hphase.symm.trans hthread))
    · cases hothers t _ ht hthread
  cases h with
  | vacant hjob hnamed hthreads hcalls => exact .vacant hjob hnamed (hthreads.exit rfl) hcalls
  | starting k call name hjob hnamed hworker hcall hstarts hreserved halone hthreads =>
      exact .starting k call name hjob hnamed hworker hcall hstarts hreserved halone
        (hthreads.exit rfl)
  | undoing k id name e hjob hworker hcall halone hthreads =>
      exact .undoing k id name e hjob hworker hcall halone (hthreads.exit rfl)
  | reserving k call name hjob hnamed hworker hcall hquantizes halone hthreads =>
      exact .reserving k call name hjob hnamed hworker hcall hquantizes halone (hthreads.exit rfl)
  | running t' phase state name hthread' hphase hjob hnamed hworker hothers hcalls =>
      refine (hexited t' phase hthread' ?_ hothers).elim
      rcases hphase with ⟨rfl, -⟩ | ⟨rfl, -⟩ <;> exact fun h => by cases h
  | quantizing t' name hthread' hjob hnamed hworker hothers hcalls =>
      exact (hexited t' _ hthread' (fun h => by cases h) hothers).elim
  | ended state name hjob hstate hnamed hthreads hcalls =>
      exact .ended state name hjob hstate hnamed (hthreads.exit rfl) hcalls

end View

namespace Store

variable {s s' : Store} {id j t k : ℕ} {pc pc' : WorkerPc} {name n : String}

theorem releaseName_eq_some_iff : (s.releaseName name id).lookup n = some j ↔
    s.reservedNames.lookup n = some j ∧ ¬(n = name ∧ j = id) := by
  unfold releaseName
  split_ifs with howner
  · rw [Map.lookup_erase_eq_some_iff]
    constructor
    · rintro ⟨hne, hlookup⟩
      exact ⟨hlookup, fun h => hne h.1⟩
    · rintro ⟨hlookup, hnot⟩
      refine ⟨?_, hlookup⟩
      rintro rfl
      exact hnot ⟨rfl, Option.some.inj (hlookup.symm.trans howner)⟩
  · refine ⟨fun hlookup => ⟨hlookup, ?_⟩, And.left⟩
    rintro ⟨rfl, rfl⟩
    exact howner hlookup

/-- What only the calls of `install` and `resume` change. -/
structure SameCalls (s s' : Store) : Prop where
  calls : s'.calls = s.calls
  nextId : s'.nextId = s.nextId
  nextThread : s'.nextThread = s.nextThread
  terminated : s'.terminated = s.terminated

theorem SameCalls.refl : SameCalls s s := ⟨rfl, rfl, rfl, rfl⟩

/-- A step that changes nothing that the stages are about. -/
theorem Staged.congr (h : s.Staged) (hsame : SameCalls s s')
    (hview : ∀ id, s'.view id = s.view id)
    (hthreads : ∀ t worker, s'.threads t = some worker → t < s.nextThread) : s'.Staged where
  stage id := hview id ▸ h.stage id
  once := by
    rw [hsame.calls]
    exact h.once
  unborn id hid := by
    rw [hsame.nextId] at hid
    rw [hview id]
    exact h.unborn id hid
  threads t worker hworker := by
    rw [hsame.nextThread]
    exact hthreads t worker hworker
  alive := hsame.terminated.trans h.alive

/-- A step of the job's thread. -/
theorem Staged.thread (h : s.Staged) {worker : Worker} (worker' : Worker) (hsame : SameCalls s s')
    (hthread : s.threads t = some worker)
    (hthreads : s'.threads = update s.threads t (some worker'))
    (hother : ∀ id, id ≠ j → s'.view id = s.view id) (hj : j < s.nextId)
    (hstage : (s'.view j).Stage) : s'.Staged where
  stage id := by
    by_cases hid : id = j
    · exact hid ▸ hstage
    · rw [hother id hid]
      exact h.stage id
  once := by
    rw [hsame.calls]
    exact h.once
  unborn id hid := by
    rw [hsame.nextId] at hid
    rw [hother id (by omega)]
    exact h.unborn id hid
  threads t' other hother' := by
    rw [hsame.nextThread]
    by_cases ht : t' = t
    · exact ht ▸ h.threads t worker hthread
    · rw [hthreads, update_of_ne ht] at hother'
      exact h.threads t' other hother'
  alive := hsame.terminated.trans h.alive

/-- The job of a thread has been made. -/
theorem Staged.born (h : s.Staged) (hthread : s.threads t = some ⟨id, pc⟩) : id < s.nextId := by
  by_contra hnot
  have hempty := h.unborn id (by omega)
  have hphase : (s.view id).thread t = some pc.phase := thread_eq_some.2 ⟨pc, hthread, rfl⟩
  rw [hempty] at hphase
  cases hphase

theorem finishJob_eq {job : StoreDownload} (hjob : s.downloads.lookup id = some job)
    (state : JobState) (error : String) : s.finishJob id state error =
      { s with
        committingInstalls := s.committingInstalls.erase id
        downloads := s.downloads.insert id { job with state, error }
        reservedNames := s.releaseName job.modelName id }.record (.ended id state) := by
  unfold finishJob
  rw [hjob]

/-- Other jobs do not see the end of the job. -/
theorem view_finishJob_other {state : JobState} {error : String} (hid : id ≠ j) :
    (s.finishJob j state error).view id = s.view id := by
  cases hjob : s.downloads.lookup j with
  | none =>
      unfold finishJob
      rw [hjob]
  | some job =>
      rw [finishJob_eq hjob]
      unfold view record
      simp only [AList.lookup_insert_ne hid, releaseName_eq_some_iff, hid, and_false,
        not_false_eq_true, and_true]

theorem Staged.finish (h : s.Staged) {state : JobState} {error : String}
    (hstate : state.active = false) (hthread : s.threads t = some ⟨id, .finish state error⟩) :
    ((s.finishJob id state error).goto t ⟨id, .leaving⟩).Staged := by
  have hphase : (s.view id).thread t = some .working := thread_eq_some.2 ⟨_, hthread, rfl⟩
  obtain ⟨before, name, -, hjob, hnames, hworker, hothers, hcalls⟩ :=
    (h.stage id).of_working hphase (.inr rfl)
  obtain ⟨job, hlookup, hkey⟩ := Option.map_eq_some_iff.1 hjob
  obtain ⟨rfl, rfl⟩ := Prod.mk.inj hkey
  have hview : ((s.finishJob id state error).goto t ⟨id, .leaving⟩).view id =
      { job := some (state, job.modelName)
        named := fun _ => False
        worker := some t
        call := (s.view id).call
        thread := update (s.view id).thread t (some .leaving) } := by
    rw [view_goto, finishJob_eq hlookup, view_record]
    unfold view
    simp only [AList.lookup_insert, Option.map_some, releaseName_eq_some_iff, if_true,
      WorkerPc.phase, View.mk.injEq, true_and, and_true]
    exact ⟨funext fun n => propext ⟨fun hn => hn.2 ((hnames n).1 hn.1), False.elim⟩, hworker⟩
  refine h.thread ⟨id, .leaving⟩ (j := id) ?_ hthread ?_ (fun other hother => ?_)
    (h.born hthread) ?_
  · rw [finishJob_eq hlookup]
    exact ⟨rfl, rfl, rfl, rfl⟩
  · rw [finishJob_eq hlookup]
    rfl
  · rw [view_goto_other _ (by
      intro worker hworker'
      rw [finishJob_eq hlookup] at hworker'
      obtain rfl := Option.some.inj (hthread.symm.trans hworker')
      exact Ne.symm hother) (Ne.symm hother), view_finishJob_other hother]
  · rw [hview]
    exact .ended state job.modelName rfl hstate (fun _ hn => hn) (hothers.leaving rfl rfl)
      fun k call hcall => .inl (hcalls k call hcall)

/-- A quantization job gives its name back. -/
theorem Staged.quantized (h : s.Staged) (hthread : s.threads t = some ⟨id, .quantizing name⟩) :
    ({ s with reservedNames := s.releaseName name id }.goto t ⟨id, .leaving⟩).Staged := by
  have hphase : (s.view id).thread t = some (.quantizing name) :=
    thread_eq_some.2 ⟨_, hthread, rfl⟩
  obtain ⟨hjob, hnames, hworker, hothers, hcalls⟩ := (h.stage id).of_quantizing hphase
  have hview : ({ s with reservedNames := s.releaseName name id }.goto t ⟨id, .leaving⟩).view id =
      { job := none
        named := fun _ => False
        worker := some t
        call := (s.view id).call
        thread := update (s.view id).thread t (some .leaving) } := by
    rw [view_goto, if_pos rfl, ← hjob, ← hworker]
    unfold view
    simp only [releaseName_eq_some_iff, WorkerPc.phase, View.mk.injEq, true_and, and_true]
    exact funext fun n => propext ⟨fun hn => hn.2 ((hnames n).1 hn.1), False.elim⟩
  refine h.thread ⟨id, .leaving⟩ (j := id) ⟨rfl, rfl, rfl, rfl⟩ hthread rfl
    (fun other hother => ?_) (h.born hthread) ?_
  · rw [view_goto_other ⟨id, .leaving⟩ (by
      intro worker hworker'
      obtain rfl := Option.some.inj (hthread.symm.trans hworker')
      exact Ne.symm hother) (Ne.symm hother)]
    unfold view
    simp only [releaseName_eq_some_iff, hother, and_false, not_false_eq_true, and_true]
  · rw [hview]
    exact .vacant rfl (fun _ hn => hn) (hothers.leaving rfl rfl)
      fun k call hcall => .inl (hcalls k call hcall)

/-- A worker reads its job. -/
theorem Staged.begin (h : s.Staged) (hthread : s.threads t = some ⟨id, .begin⟩)
    {job : StoreDownload} (hlookup : s.downloads.lookup id = some job)
    (hphase : pc.phase = .working) :
    ((s.setJob id { job with state := .downloading }).goto t ⟨id, pc⟩).Staged := by
  have hbegun : (s.view id).thread t = some .begun := thread_eq_some.2 ⟨_, hthread, rfl⟩
  obtain ⟨before, name, -, hjob, hnames, hworker, hothers, hcalls⟩ :=
    (h.stage id).of_working hbegun (.inl rfl)
  obtain ⟨job', hlookup', hkey⟩ := Option.map_eq_some_iff.1 hjob
  obtain rfl := Option.some.inj (hlookup.symm.trans hlookup')
  obtain ⟨rfl, rfl⟩ := Prod.mk.inj hkey
  have hview : ((s.setJob id { job with state := .downloading }).goto t ⟨id, pc⟩).view id =
      { s.view id with
        job := some (.downloading, job.modelName)
        thread := update (s.view id).thread t (some .working) } := by
    rw [view_goto, if_pos rfl, hphase]
    unfold view setJob
    simp only [AList.lookup_insert, Option.map_some]
  refine h.thread ⟨id, pc⟩ (j := id) ⟨rfl, rfl, rfl, rfl⟩ hthread rfl
    (fun other hother => ?_) (h.born hthread) ?_
  · rw [view_goto_other ⟨id, pc⟩ (by
      intro worker hworker'
      obtain rfl := Option.some.inj (hthread.symm.trans hworker')
      exact Ne.symm hother) (Ne.symm hother), view_setJob_other (Ne.symm hother)]
  · rw [hview]
    exact .running t .working .downloading job.modelName (update_self ..) (.inr ⟨rfl, rfl⟩) rfl
      hnames hworker (hothers.update rfl) hcalls

/-- The last step of a thread. -/
theorem Staged.exit (h : s.Staged) (hthread : s.threads t = some ⟨id, .leaving⟩) :
    (s.goto t ⟨id, .exited⟩).Staged := by
  have hleaving : (s.view id).thread t = some .leaving := thread_eq_some.2 ⟨_, hthread, rfl⟩
  refine h.thread ⟨id, .exited⟩ (j := id) ⟨rfl, rfl, rfl, rfl⟩ hthread rfl
    (fun other hother => ?_) (h.born hthread) ?_
  · exact view_goto_other ⟨id, .exited⟩ (by
      intro worker hworker'
      obtain rfl := Option.some.inj (hthread.symm.trans hworker')
      exact Ne.symm hother) (Ne.symm hother)
  · rw [view_goto, if_pos rfl]
    exact (h.stage id).exit hleaving

/-- A worker that goes on. -/
theorem Staged.advance (h : s.Staged) (hthread : s.threads t = some ⟨id, pc⟩)
    (hphase : pc.phase = .working) (hchecked : s.Checked id pc) (hstep : s.Advances t id pc s') :
    s'.Staged := by
  have hsame : ∀ pc' : WorkerPc, pc'.phase = .working → pc'.phase = pc.phase :=
    fun pc' hpc' => hpc'.trans hphase.symm
  have hthreads : ∀ worker t' other, update s.threads t (some worker) t' = some other →
      t' < s.nextThread := by
    intro worker t' other hother
    by_cases ht : t' = t
    · exact ht ▸ h.threads t _ hthread
    · rw [update_of_ne ht] at hother
      exact h.threads t' other hother
  cases hstep with
  | stays => exact h
  | goes pc' installed hpc' =>
      exact h.congr ⟨rfl, rfl, rfl, rfl⟩
        (fun other => view_goto_same (s := { s with installed }) hthread (hsame pc' hpc'))
        (hthreads _)
  | fills job job' hjob hstate hname =>
      exact h.congr ⟨rfl, rfl, rfl, rfl⟩ (fun other => view_setJob_same hjob hstate hname) h.threads
  | writes job job' pc' installed hjob hstate hname hartifacts hpc' =>
      refine h.congr ⟨rfl, rfl, rfl, rfl⟩ (fun other => ?_) (hthreads _)
      exact (view_goto_same (s := { s with installed }.setJob id job') hthread
        (hsame pc' hpc')).trans (view_setJob_same (s := { s with installed }) hjob hstate hname)
  | «matches» pc' flag artifact size checksum hpc' =>
      exact h.congr ⟨rfl, rfl, rfl, rfl⟩
        (fun other => view_goto_same (s := s.record _) hthread (hsame pc' hpc')) (hthreads _)
  | commits run flag hpc =>
      subst hpc
      refine h.congr ⟨rfl, rfl, rfl, rfl⟩ (fun other => ?_) (hthreads _)
      exact view_goto_same (s := { s with
        committingInstalls := insert id s.committingInstalls }.record _) hthread
          (hsame (.place run) rfl)
  | registers run registry hpc =>
      subst hpc
      refine h.congr ⟨rfl, rfl, rfl, rfl⟩ (fun other => ?_) (hthreads _)
      exact view_goto_same (s := { s with registry }.record _) hthread
        (hsame (.finish .installed "") rfl)
  | finishes state error hpc =>
      subst hpc
      refine h.finish ?_ hthread
      cases hstate : state <;> rw [hstate] at hchecked <;> first | rfl | cases hchecked.1

end Store

end InferDeck.Gateway.InstallJobs
