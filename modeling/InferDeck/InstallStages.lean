import InferDeck.InstallJobs

/-!
# Stages of an install job

Of each job the store knows its entry, who has reserved what name, its worker, and the calls and
threads that work for it. A job is at any time in one of a few stages: nothing is left of it, a call
starts it or takes it back, a worker runs, or it is over.
-/

namespace InferDeck.Gateway.InstallJobs

open Function InferDeck.Foundation InferDeck.Model ModelStore

/-- How far a thread has come, as far as others can tell. -/
inductive Phase where
  | begun
  | working
  | quantizing (name : String)
  | leaving
  | exited

/-- The thread has not done all that it has to. -/
def Phase.busy : Phase → Bool
  | begun => true
  | working => true
  | quantizing _ => true
  | leaving => false
  | exited => false

def WorkerPc.phase : WorkerPc → Phase
  | .begin => .begun
  | .quantizing name => .quantizing name
  | .leaving => .leaving
  | .exited => .exited
  | .inspect _ => .working
  | .transfer _ _ => .working
  | .verify _ => .working
  | .stage _ => .working
  | .nextArtifact _ _ _ => .working
  | .transferArtifact _ _ _ _ => .working
  | .verifyArtifact _ _ _ _ => .working
  | .placeArtifact _ _ _ _ => .working
  | .finishArtifact _ _ _ _ => .working
  | .commit _ => .working
  | .place _ => .working
  | .publish _ => .working
  | .save _ => .working
  | .register _ => .working
  | .withdraw _ _ => .working
  | .finish _ _ => .working

namespace Call

/-- The job that the call is about, once it has one. -/
def job : Call → Option ℕ
  | installReap _ => none
  | installReserve _ => none
  | startReap id _ => some id
  | startCheck id _ => some id
  | startJoin id _ _ => some id
  | startSpawn id _ => some id
  | installUndo id _ _ => some id
  | resumeReap id => some id
  | resumeCheck id => some id
  | quantizeReserve _ _ => none
  | quantizeReap id _ => some id
  | quantizeStart id _ => some id
  | quantizeUndo id _ _ => some id

/-- The call has not looked at the job yet. -/
def resumes : Call → Bool
  | resumeReap _ => true
  | resumeCheck _ => true
  | _ => false

/-- The call has seen that the job can be resumed. -/
def restarts : Call → Bool
  | startReap _ .resume => true
  | startCheck _ .resume => true
  | _ => false

/-- The job is the call's alone. -/
def starts : Call → Bool
  | startReap _ (.install _) => true
  | startCheck _ (.install _) => true
  | startJoin _ _ _ => true
  | startSpawn _ _ => true
  | _ => false

/-- The name that the call's install has reserved. -/
def reserved : Call → Option String
  | startReap _ (.install name) => some name
  | startCheck _ (.install name) => some name
  | startJoin _ (.install name) _ => some name
  | startSpawn _ (.install name) => some name
  | _ => none

/-- The name that the call's quantization has reserved. -/
def quantizes : Call → Option String
  | quantizeReap _ name => some name
  | quantizeStart _ name => some name
  | quantizeUndo _ name _ => some name
  | _ => none

/-- The thread that the call waits for. -/
def previous : Call → Option ℕ
  | startJoin _ _ previous => previous
  | _ => none

end Call

/-- What there is of one job. -/
structure View where
  job : Option (JobState × String)
  named : String → Prop
  worker : Option ℕ
  call : ℕ → Option Call
  thread : ℕ → Option Phase

/-- Nothing has been heard of the job. -/
def View.empty : View where
  job := none
  named := fun _ => False
  worker := none
  call := fun _ => none
  thread := fun _ => none

namespace View

variable (v : View)

/-- The job's threads but this one have exited. -/
def OthersExited (thread : ℕ) : Prop :=
  ∀ t phase, t ≠ thread → v.thread t = some phase → phase = .exited

/-- A thread of the job that has not exited has nothing left to do, and can be found. -/
def Leaving (found : Option ℕ) : Prop :=
  ∀ t phase, v.thread t = some phase → phase = .exited ∨ phase = .leaving ∧ found = some t

def Names (name : String) : Prop := ∀ n, v.named n ↔ n = name

def Unnamed : Prop := ∀ n, ¬v.named n

/-- Of the job's calls there is only this one. -/
def Alone (caller : ℕ) : Prop := ∀ k, k ≠ caller → v.call k = none

def Calls (p : Call → Prop) : Prop := ∀ k call, v.call k = some call → p call

inductive Stage : Prop
  | vacant (hjob : v.job = none) (hnamed : v.Unnamed) (hthreads : v.Leaving v.worker)
      (hcalls : v.Calls fun call => call.resumes ∨ call.restarts)
  | starting (k : ℕ) (call : Call) (name : String) (hjob : v.job = some (.queued, name))
      (hnamed : v.Names name) (hworker : v.worker = none) (hcall : v.call k = some call)
      (hstarts : call.starts = true) (hreserved : ∀ n, call.reserved = some n → n = name)
      (halone : v.Alone k) (hthreads : v.Leaving call.previous)
  | undoing (k id : ℕ) (name : String) (e : Error)
      (hjob : v.job = some (.queued, name) ∧ v.Names name ∨
        (v.job = none ∨ v.job = some (.failed, name)) ∧ v.Unnamed)
      (hworker : v.worker = none) (hcall : v.call k = some (.installUndo id name e))
      (halone : v.Alone k) (hthreads : v.Leaving none)
  | reserving (k : ℕ) (call : Call) (name : String) (hjob : v.job = none) (hnamed : v.Names name)
      (hworker : v.worker = none) (hcall : v.call k = some call)
      (hquantizes : call.quantizes = some name) (halone : v.Alone k) (hthreads : v.Leaving none)
  | running (t : ℕ) (phase : Phase) (state : JobState) (name : String)
      (hthread : v.thread t = some phase)
      (hphase : phase = .begun ∧ state = .queued ∨ phase = .working ∧ state = .downloading)
      (hjob : v.job = some (state, name)) (hnamed : v.Names name) (hworker : v.worker = some t)
      (hothers : v.OthersExited t) (hcalls : v.Calls fun call => call.resumes)
  | quantizing (t : ℕ) (name : String) (hthread : v.thread t = some (.quantizing name))
      (hjob : v.job = none) (hnamed : v.Names name) (hworker : v.worker = some t)
      (hothers : v.OthersExited t) (hcalls : v.Calls fun call => call.resumes)
  | ended (state : JobState) (name : String) (hjob : v.job = some (state, name))
      (hstate : state.active = false) (hnamed : v.Unnamed) (hthreads : v.Leaving v.worker)
      (hcalls : v.Calls fun call => call.resumes ∨
        call.restarts ∧ (state = .failed ∨ state = .cancelled))

end View

/-- The part of the store that is about the job. -/
def Store.view (s : Store) (id : ℕ) : View where
  job := (s.downloads.lookup id).map fun job => (job.state, job.modelName)
  named := fun name => s.reservedNames.lookup name = some id
  worker := s.workers.lookup id
  call := fun k => (s.calls k).filter fun call => call.job == some id
  thread := fun t => ((s.threads t).filter fun worker => worker.id == id).map fun worker =>
    worker.pc.phase

/-- Threads, calls and workers are about jobs that have been made. -/
structure Store.Staged (s : Store) : Prop where
  stage : ∀ id, (s.view id).Stage
  once : ∀ k k' call call', s.calls k = some call → s.calls k' = some call' →
    call.job.isSome = true → call.job = call'.job → k = k'
  unborn : ∀ id, s.nextId ≤ id → s.view id = .empty
  threads : ∀ t worker, s.threads t = some worker → t < s.nextThread
  alive : s.terminated = false

namespace Store

variable {s s' : Store} {id j t k : ℕ} {pc pc' : WorkerPc}

theorem thread_eq_some {phase : Phase} : (s.view id).thread t = some phase ↔
    ∃ pc, s.threads t = some ⟨id, pc⟩ ∧ pc.phase = phase := by
  simp only [view, Option.map_eq_some_iff, Option.filter_eq_some_iff, beq_iff_eq]
  constructor
  · rintro ⟨⟨_, pc⟩, ⟨hthread, rfl⟩, hphase⟩
    exact ⟨pc, hthread, hphase⟩
  · rintro ⟨pc, hthread, hphase⟩
    exact ⟨⟨id, pc⟩, ⟨hthread, rfl⟩, hphase⟩

theorem call_eq_some {call : Call} :
    (s.view id).call k = some call ↔ s.calls k = some call ∧ call.job = some id := by
  simp [view, Option.filter_eq_some_iff]

theorem view_goto (t : ℕ) (worker : Worker) : (s.goto t worker).view id =
    { s.view id with
      thread := update (s.view id).thread t
        (if worker.id = id then some worker.pc.phase else none) } := by
  unfold view goto
  congr 1
  funext t'
  by_cases ht : t' = t
  · subst ht
    by_cases hid : worker.id = id <;> simp [hid, Option.filter]
  · simp [ht]

theorem view_setCall (k : ℕ) (call : Call) : (s.setCall k call).view id =
    { s.view id with
      call := update (s.view id).call k (if call.job = some id then some call else none) } := by
  unfold view setCall
  congr 1
  funext k'
  by_cases hk : k' = k
  · subst hk
    by_cases hid : call.job = some id <;> simp [hid, Option.filter]
  · simp [hk]

theorem view_answer (k : ℕ) (result : Result ℕ) : (s.answer k result).view id =
    { s.view id with call := update (s.view id).call k none } := by
  unfold view answer
  congr 1
  funext k'
  by_cases hk : k' = k
  · subst hk
    simp
  · simp [hk]

/-- A call that is not about the job. -/
theorem call_eq_none (hcall : ∀ call, s.calls k = some call → call.job ≠ some id) :
    (s.view id).call k = none := by
  rw [Option.eq_none_iff_forall_not_mem]
  intro call hmem
  obtain ⟨hk, hjob⟩ := call_eq_some.1 hmem
  exact hcall call hk hjob

theorem view_setCall_self {call : Call} (hjob : call.job = some id) :
    (s.setCall k call).view id =
      { s.view id with call := update (s.view id).call k (some call) } := by
  rw [view_setCall, if_pos hjob]

theorem view_setCall_other (hcall : ∀ call, s.calls k = some call → call.job ≠ some id)
    {call : Call} (hjob : call.job ≠ some id) : (s.setCall k call).view id = s.view id := by
  rw [view_setCall, if_neg hjob, ← call_eq_none hcall, update_eq_self]

theorem view_answer_other (hcall : ∀ call, s.calls k = some call → call.job ≠ some id)
    {result : Result ℕ} : (s.answer k result).view id = s.view id := by
  rw [view_answer, ← call_eq_none hcall, update_eq_self]

theorem view_record (event : Event) : (s.record event).view id = s.view id := rfl

/-- A worker that goes on looks the same to others. -/
theorem view_goto_same (hthread : s.threads t = some ⟨j, pc⟩) (hphase : pc'.phase = pc.phase) :
    (s.goto t ⟨j, pc'⟩).view id = s.view id := by
  rw [view_goto]
  have hsame : (if j = id then some pc'.phase else none) = (s.view id).thread t := by
    by_cases hid : j = id
    · rw [if_pos hid, hphase]
      exact (thread_eq_some.2 ⟨pc, hid ▸ hthread, rfl⟩).symm
    · simp [view, hthread, hid, Option.filter]
  rw [hsame, update_eq_self]

theorem view_goto_other (worker : Worker)
    (hthread : ∀ worker, s.threads t = some worker → worker.id ≠ id) (hid : worker.id ≠ id) :
    (s.goto t worker).view id = s.view id := by
  rw [view_goto, if_neg hid]
  have hnone : (s.view id).thread t = none := by
    rw [Option.eq_none_iff_forall_not_mem]
    intro phase hphase
    obtain ⟨pc, hthread', -⟩ := thread_eq_some.1 hphase
    exact hthread _ hthread' rfl
  rw [← hnone, update_eq_self]

theorem view_setJob_other {job : StoreDownload} (hid : j ≠ id) :
    (s.setJob j job).view id = s.view id := by
  unfold view setJob
  simp only [AList.lookup_insert_ne (Ne.symm hid)]

/-- What the job's entry says besides its state and its model is the job's own. -/
theorem view_setJob_same {job job' : StoreDownload} (hjob : s.downloads.lookup j = some job)
    (hstate : job'.state = job.state) (hname : job'.modelName = job.modelName) :
    (s.setJob j job').view id = s.view id := by
  by_cases hid : j = id
  · subst hid
    unfold view setJob
    simp only [AList.lookup_insert, hjob, Option.map_some, hstate, hname]
  · exact view_setJob_other hid

end Store

end InferDeck.Gateway.InstallJobs
