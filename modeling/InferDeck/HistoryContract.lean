import InferDeck.MediaHistory
import InferDeck.Retention

/-!
# What the media history keeps

A file that is removed belongs to no job, is not named by the saved history and is not retired
without a save; the saved history names existing files; running jobs stay; and pruning brings the
jobs within their bounds where it can. This holds of the runs in which no file is written that
another call may remove, and in which a failing call has created no file that is published or
retired.
-/

namespace InferDeck.Gateway.MediaHistory

open InferDeck.Foundation Execution Retention

/-- The job that an output is named for: the digits between the stem and the next hyphen. -/
def jobOf (filename : Text) : ℕ :=
  Nat.ofDigitChars 10 ((filename.drop 6).takeWhile Char.isDigit) 0

theorem jobOf_outputName (modality : String) (id index : ℕ) (extension : Text) :
    jobOf (outputName modality id index extension) = id := by
  have hstem : (stem modality).length = 6 := by
    rw [stem]
    split_ifs <;> rfl
  have hdigits : ∀ c ∈ Nat.toDigits 10 id, c.isDigit = true := fun c hc =>
    Nat.isDigit_of_mem_toDigits (by decide) (by decide) hc
  rw [jobOf, outputName, ← hstem, List.drop_left, List.takeWhile_append_of_pos hdigits,
    List.takeWhile_cons_of_neg (by decide), List.append_nil, Nat.ofDigitChars_ten_toDigits]

theorem addBytes_eq {total bytes : ℕ} (h : total ≤ 2 ^ 64 - 1) :
    addBytes total bytes = min (total + bytes) (2 ^ 64 - 1) := by
  rw [addBytes]
  split_ifs <;> omega

/-- The 64-bit sum is the sum, up to the largest value. -/
theorem foldl_addBytes (bytes : List ℕ) {total : ℕ} (h : total ≤ 2 ^ 64 - 1) :
    bytes.foldl addBytes total = min (total + bytes.sum) (2 ^ 64 - 1) := by
  induction bytes generalizing total with
  | nil => simpa using h
  | cons b bytes ih =>
      rw [List.foldl_cons, addBytes_eq h, ih (min_le_right _ _), List.sum_cons]
      omega

namespace World

variable {w w' w'' : World}

theorem bytes_le_of_not_full (h : w.full = false) :
    w.jobs.entries.length ≤ maxMediaHistoryJobs ∧
      (outputBytes w.jobs).sum ≤ maxMediaHistoryBytes := by
  rw [full, Bool.or_eq_false_iff, decide_eq_false_iff_not, decide_eq_false_iff_not, historyBytes,
    foldl_addBytes _ (Nat.zero_le _)] at h
  have hmax : maxMediaHistoryBytes < 2 ^ 64 - 1 := by decide
  omega

/-- What pruning keeps: the jobs that are left are as they were, the running ones are left, and the
outputs of the others are retired. -/
structure Prunes (w w' : World) : Prop where
  durable : w'.durable = w.durable
  files : w'.files = w.files
  history : w'.history = w.history
  stores : w'.stores = w.stores
  nextJobId : w'.nextJobId = w.nextJobId
  persisting : w'.persisting = w.persisting
  jobs : ∀ id job, w'.jobs.lookup id = some job → w.jobs.lookup id = some job
  running : ∀ id job, w.jobs.lookup id = some job → job.state = .running →
    w'.jobs.lookup id = some job
  retired : ∀ p ∈ w.retired, p ∈ w'.retired
  retires : w.durable = true → ∀ id job, w.jobs.lookup id = some job →
    w'.jobs.lookup id = some job ∨ ∀ p ∈ job.filenames, p ∈ w'.retired
  retired_of : ∀ p ∈ w'.retired, p ∈ w.retired ∨
    w.durable = true ∧ ∃ id job, w.jobs.lookup id = some job ∧ p ∈ job.filenames

theorem Prunes.refl (w : World) : w.Prunes w :=
  ⟨rfl, rfl, rfl, rfl, rfl, rfl, fun _ _ h => h, fun _ _ h _ => h, fun _ h => h,
    fun _ _ _ h => .inl h, fun _ h => .inl h⟩

theorem Prunes.trans (h : w.Prunes w') (h' : w'.Prunes w'') : w.Prunes w'' where
  durable := h'.durable.trans h.durable
  files := h'.files.trans h.files
  history := h'.history.trans h.history
  stores := h'.stores.trans h.stores
  nextJobId := h'.nextJobId.trans h.nextJobId
  persisting := h'.persisting.trans h.persisting
  jobs id job hjob := h.jobs id job (h'.jobs id job hjob)
  running id job hjob hrunning := h'.running id job (h.running id job hjob hrunning) hrunning
  retired p hp := h'.retired p (h.retired p hp)
  retires hdurable id job hjob := by
    rcases h.retires hdurable id job hjob with hkept | hretired
    · exact h'.retires (h.durable.trans hdurable) id job hkept
    · exact .inr fun p hp => h'.retired p (hretired p hp)
  retired_of p hp := by
    rcases h'.retired_of p hp with hp | ⟨hdurable, id, job, hjob, hp⟩
    · exact h.retired_of p hp
    · exact .inr ⟨h.durable ▸ hdurable, id, job, h.jobs id job hjob, hp⟩

theorem removeJobOutputs_eq (job : MediaJob) :
    w.removeJobOutputs job =
      { w with retired := if w.durable then w.retired ++ job.filenames else w.retired } := by
  rw [removeJobOutputs]
  split_ifs <;> rfl

theorem prunes_dropJob {id : ℕ} {job : MediaJob} (hjob : w.jobs.lookup id = some job)
    (hrunning : job.state ≠ .running) : w.Prunes (w.dropJob id job) := by
  have hretired : (w.dropJob id job).retired =
      if w.durable then w.retired ++ job.filenames else w.retired := by
    rw [dropJob, removeJobOutputs_eq]
  have hjobs : (w.dropJob id job).jobs = w.jobs.erase id := rfl
  refine ⟨?_, ?_, ?_, ?_, ?_, ?_, fun other job' h => ?_, fun other job' h hrun => ?_,
    fun p hp => ?_, fun hdurable other job' h => ?_, fun p hp => ?_⟩
  iterate 6 (rw [dropJob, removeJobOutputs_eq])
  · exact (Map.lookup_erase_eq_some_iff.1 (hjobs ▸ h)).2
  · refine Map.lookup_erase_eq_some_iff.2 ⟨?_, h⟩
    rintro rfl
    rw [hjob, Option.some.injEq] at h
    exact hrunning (h ▸ hrun)
  · rw [hretired]
    split_ifs
    · exact List.mem_append_left _ hp
    · exact hp
  · by_cases hid : other = id
    · subst hid
      rw [hjob, Option.some.injEq] at h
      refine .inr fun p hp => ?_
      rw [hretired, if_pos hdurable, h]
      exact List.mem_append_right _ hp
    · exact .inl (Map.lookup_erase_eq_some_iff.2 ⟨hid, h⟩)
  · rw [hretired] at hp
    by_cases hdurable : w.durable = true
    · rw [if_pos hdurable] at hp
      exact (List.mem_append.1 hp).imp_right fun hp => ⟨hdurable, id, job, hjob, hp⟩
    · rw [if_neg hdurable] at hp
      exact .inl hp

/-- The job that a round drops is not running. -/
theorem oldest_spec {id : ℕ} (h : w.oldest = some id) :
    ∃ job, w.jobs.lookup id = some job ∧ job.state ≠ .running := by
  obtain ⟨⟨id', job⟩, hmem, rfl⟩ := List.mem_map.1 (List.min?_mem h)
  obtain ⟨hentry, hstate⟩ := List.mem_filter.1 hmem
  exact ⟨job, Map.mem_entries_iff.1 hentry, by simpa using hstate⟩

theorem running_of_oldest (h : w.oldest = none) {id : ℕ} {job : MediaJob}
    (hjob : w.jobs.lookup id = some job) : job.state = .running := by
  rw [oldest, List.min?_eq_none_iff, List.map_eq_nil_iff, List.filter_eq_nil_iff] at h
  simpa using h ⟨id, job⟩ (Map.mem_entries_iff.2 hjob)

/-- Within the bounds, or nothing but running jobs. -/
def Bounded (w : World) : Prop :=
  w.jobs.entries.length ≤ maxMediaHistoryJobs ∧
      (outputBytes w.jobs).sum ≤ maxMediaHistoryBytes ∨
    ∀ id job, w.jobs.lookup id = some job → job.state = .running

theorem pruneRounds_spec (rounds : ℕ) (w : World) (hrounds : w.jobs.entries.length ≤ rounds) :
    w.Prunes (pruneRounds rounds w) ∧ (pruneRounds rounds w).Bounded := by
  induction rounds generalizing w with
  | zero =>
      refine ⟨.refl w, .inr fun id job hjob => ?_⟩
      have hmem : ⟨id, job⟩ ∈ w.jobs.entries := Map.mem_entries_iff.2 hjob
      rw [List.length_eq_zero_iff.1 (Nat.le_zero.1 hrounds)] at hmem
      exact absurd hmem List.not_mem_nil
  | succ rounds ih =>
      rw [pruneRounds]
      by_cases hfull : w.full = true
      · rw [if_pos hfull]
        cases holdest : w.oldest with
        | none =>
            rw [Option.bind_none]
            exact ⟨.refl w, .inr fun id job hjob => running_of_oldest holdest hjob⟩
        | some id =>
            obtain ⟨job, hjob, hrunning⟩ := oldest_spec holdest
            rw [Option.bind_some, hjob, Option.map_some]
            have hfewer : (w.dropJob id job).jobs.entries.length ≤ rounds := by
              have hlength := Map.length_erase hjob
              have hdrop : (w.dropJob id job).jobs.entries = (w.jobs.erase id).entries := rfl
              rw [hdrop]
              omega
            obtain ⟨hprunes, hbounded⟩ := ih _ hfewer
            exact ⟨(prunes_dropJob hjob hrunning).trans hprunes, hbounded⟩
      · rw [if_neg hfull]
        exact ⟨.refl w, .inl (bytes_le_of_not_full (Bool.eq_false_iff.2 hfull))⟩

theorem pruneJobs_prunes (w : World) : w.Prunes w.pruneJobs := (pruneRounds_spec _ w le_rfl).1

theorem pruneJobs_bounded (w : World) : w.pruneJobs.Bounded := (pruneRounds_spec _ w le_rfl).2

def unfinished (call : StoreCall) : Bool :=
  match call.pc with
  | .returned _ => false
  | _ => true

variable (w)

def liveNames : List Text := w.jobs.values.flatMap MediaJob.filenames

/-- Taken by a save that has not saved the history yet. -/
def unsaved : List Text :=
  match w.persisting with
  | some (.saving _ retiredOutputs) => retiredOutputs
  | _ => []

/-- The running save is to delete the file. -/
def condemns (p : Text) : Bool :=
  match w.persisting with
  | some (.saving snapshot retiredOutputs) | some (.deleting snapshot retiredOutputs) =>
      retiredOutputs.contains p && !retained snapshot p
  | none => false

/-- No other call for the job is under way. -/
def aloneAt (id : ℕ) (job : ℕ) : Bool :=
  w.stores.entries.all fun e => e.1 == id || e.2.job != job || !unfinished e.2

/-- No file that the call has created is published or retired. -/
def unclaimed (call : StoreCall) : Bool :=
  call.createdFiles.all fun p =>
    !w.liveNames.contains p && !w.retired.contains p && !w.unsaved.contains p

/-- The file is written for a publication that may still succeed. -/
def heldBy (p : Text) : Bool :=
  w.stores.entries.any fun e =>
    decide (e.2.pc = .writing) && w.jobs.contains e.2.job && e.2.createdFiles.contains p

/-- A file is written where no other call for its job is under way and the running save is not to
delete it; a call that fails has created no file that is published or retired; and no save takes a
retired file that is not published but has been written again. -/
def calm : Action → Bool
  | .write id outcome =>
      (w.storing id).all fun call =>
        (call.pending[call.staged.length]?).all fun input =>
          if input.bytes = 0 then w.unclaimed call
          else if !w.durable then true
          else if outcome = .written then
            w.aloneAt id call.job &&
              !w.condemns (outputName call.modality call.job call.staged.length input.extension)
          else w.unclaimed call
  | .publish id => (w.storing id).all fun call => w.jobs.contains call.job || w.unclaimed call
  | .snapshot => w.retired.all fun p => w.liveNames.contains p || !w.heldBy p
  | _ => true

def prunesAt : Action → Bool
  | .finishJob .. => true
  | .publish id => (w.storing id).any fun call => w.jobs.contains call.job
  | _ => false

def endsJob (id : ℕ) : Action → Bool
  | .finishJob id' state _ _ => id' == id && decide (state ≠ .running)
  | _ => false

structure HistoryLaw (w : World) (a : Action) : Prop where
  removes : ∀ w', w.next a = some w' → ∀ p ∈ w.files, p ∉ w'.files →
    p ∉ w.liveNames ∧ p ∉ names w.history ∧ p ∉ w.retired ∧ p ∉ w.unsaved
  history : ∀ w', w.next a = some w' → ∀ p ∈ names w'.history, p ∈ w'.files
  running : ∀ w', w.next a = some w' → ∀ id job, w.jobs.lookup id = some job →
    job.state = .running → endsJob id a = false → w'.jobs.contains id = true
  bounded : ∀ w', w.next a = some w' → w.prunesAt a = true → w'.Bounded

/-- A media store with no call under way: its outputs are named for their jobs, and the files that
its jobs and the saved history name exist. -/
structure Settled (w : World) : Prop where
  stores : w.stores = ∅
  persisting : w.persisting = none
  fresh : ∀ id job, w.jobs.lookup id = some job → id < w.nextJobId
  named : ∀ id job, w.jobs.lookup id = some job → ∀ p ∈ job.filenames, jobOf p = id
  live : w.durable = true → ∀ p ∈ w.liveNames, p ∈ w.files
  history : ∀ p ∈ names w.history,
    w.durable = true ∧ p ∈ w.files ∧ (p ∈ w.liveNames ∨ p ∈ w.retired)

theorem settled_new (durable : Bool) (files : Finset Text) : Settled { durable, files } where
  stores := rfl
  persisting := rfl
  fresh := by simp
  named := by simp
  live := by simp [liveNames, Map.values]
  history := by simp [names]

/-! ## What a world shows of its files -/

variable {w}

theorem mem_liveNames {p : Text} :
    p ∈ w.liveNames ↔ ∃ id job, w.jobs.lookup id = some job ∧ p ∈ job.filenames := by
  simp only [liveNames, Map.values, List.mem_flatMap, List.mem_map]
  constructor
  · rintro ⟨job, ⟨⟨id, job⟩, hmem, rfl⟩, hp⟩
    exact ⟨id, job, Map.mem_entries_iff.1 hmem, hp⟩
  · rintro ⟨id, job, hjob, hp⟩
    exact ⟨job, ⟨⟨id, job⟩, Map.mem_entries_iff.2 hjob, rfl⟩, hp⟩

theorem mem_names_snapshotOf {p : Text} : p ∈ names w.snapshotOf ↔ p ∈ w.liveNames := by
  rw [mem_liveNames, names, snapshotOf, List.mem_flatMap]
  simp only [List.mem_mergeSort, List.mem_map]
  constructor
  · rintro ⟨-, ⟨⟨id, job⟩, hmem, rfl⟩, hp⟩
    exact ⟨id, job, Map.mem_entries_iff.1 hmem, hp⟩
  · rintro ⟨id, job, hjob, hp⟩
    exact ⟨_, ⟨⟨id, job⟩, Map.mem_entries_iff.2 hjob, rfl⟩, hp⟩

theorem retained_iff {snapshot : Snapshot} {p : Text} :
    retained snapshot p = true ↔ p ∈ names snapshot := by
  simp [retained, names, MediaJob.filenames]

theorem heldBy_iff {p : Text} :
    w.heldBy p = true ↔ ∃ id call, w.stores.lookup id = some call ∧ call.pc = .writing ∧
      w.jobs.contains call.job = true ∧ p ∈ call.createdFiles := by
  rw [heldBy, List.any_eq_true]
  simp only [Bool.and_eq_true, decide_eq_true_eq, List.contains_iff_mem]
  constructor
  · rintro ⟨⟨id, call⟩, hmem, ⟨hpc, hjob⟩, hp⟩
    exact ⟨id, call, Map.mem_entries_iff.1 hmem, hpc, hjob, hp⟩
  · rintro ⟨id, call, hcall, hpc, hjob, hp⟩
    exact ⟨⟨id, call⟩, Map.mem_entries_iff.2 hcall, ⟨hpc, hjob⟩, hp⟩

def Doomed (w : World) (p : Text) : Prop :=
  ∃ id call message rest, w.stores.lookup id = some call ∧ call.pc = .failing message rest ∧
    p ∈ rest

def phaseOf : Persisting → Phase Text
  | .saving snapshot retiredOutputs => .saving {p | p ∈ names snapshot} {p | p ∈ retiredOutputs}
  | .deleting snapshot retiredOutputs =>
      .deleting {p | p ∈ names snapshot} {p | p ∈ retiredOutputs}

def view (w : World) : View Text where
  files := w.files
  live := {p | w.durable = true ∧ p ∈ w.liveNames}
  held := {p | w.heldBy p = true}
  doomed := {p | w.Doomed p}
  retired := {p | p ∈ w.retired}
  history := {p | p ∈ names w.history}
  phase := w.persisting.map phaseOf

theorem condemns_iff {p : Text} : w.condemns p = true ↔ p ∈ w.view.condemned := by
  cases hphase : w.persisting with
  | none => simp [condemns, View.condemned, view, hphase]
  | some phase =>
      cases phase <;>
        simp [condemns, View.condemned, view, hphase, phaseOf, Phase.condemned, ← retained_iff]

theorem mem_pending {p : Text} : p ∈ w.view.pending ↔ p ∈ w.retired ∨ p ∈ w.unsaved := by
  cases hphase : w.persisting with
  | none => simp [unsaved, View.pending, view, hphase]
  | some phase =>
      cases phase <;> simp [unsaved, View.pending, view, hphase, phaseOf, Phase.unsaved]

structure Owned (w : World) : Prop where
  fresh : ∀ id job, w.jobs.lookup id = some job → id < w.nextJobId
  named : ∀ id job, w.jobs.lookup id = some job → ∀ p ∈ job.filenames, jobOf p = id
  memory : w.durable = false → w.persisting = none
  known : ∀ id call, w.stores.lookup id = some call → unfinished call = true →
    call.job < w.nextJobId
  created : ∀ id call, w.stores.lookup id = some call →
    call.createdFiles = if w.durable then call.staged.map MediaOutputRecord.filename else []
  owner : ∀ id call, w.stores.lookup id = some call →
    ∀ p ∈ call.staged.map MediaOutputRecord.filename, jobOf p = call.job
  alone : ∀ id call id' call', w.stores.lookup id = some call → w.stores.lookup id' = some call' →
    unfinished call = true → unfinished call' = true → call.job = call'.job → id ≠ id' →
    call.createdFiles = [] ∨ call'.createdFiles = []
  rest : ∀ id call message rest, w.stores.lookup id = some call →
    call.pc = .failing message rest → rest ⊆ call.createdFiles

theorem Owned.createdFor (h : w.Owned) {id : ℕ} {call : StoreCall}
    (hcall : w.stores.lookup id = some call) {p : Text} (hp : p ∈ call.createdFiles) :
    w.durable = true ∧ jobOf p = call.job := by
  rw [h.created id call hcall] at hp
  by_cases hdurable : w.durable = true
  · rw [if_pos hdurable] at hp
    exact ⟨hdurable, h.owner id call hcall p hp⟩
  · rw [if_neg hdurable] at hp
    exact absurd hp List.not_mem_nil

/-- Two calls that have not returned have created no file in common. -/
theorem Owned.same (h : w.Owned) {id id' : ℕ} {call call' : StoreCall}
    (hcall : w.stores.lookup id = some call) (hcall' : w.stores.lookup id' = some call')
    (hunfinished : unfinished call = true) (hunfinished' : unfinished call' = true) {p : Text}
    (hp : p ∈ call.createdFiles) (hp' : p ∈ call'.createdFiles) : id = id' := by
  by_contra hne
  have hjob : call.job = call'.job :=
    (h.createdFor hcall hp).2.symm.trans (h.createdFor hcall' hp').2
  rcases h.alone id call id' call' hcall hcall' hunfinished hunfinished' hjob hne with hnil | hnil
  · rw [hnil] at hp
    exact List.not_mem_nil hp
  · rw [hnil] at hp'
    exact List.not_mem_nil hp'

/-- A change of the jobs that leaves the calls as they are. -/
theorem Owned.of_jobs (h : w.Owned) (hdurable : w'.durable = w.durable)
    (hstores : w'.stores = w.stores) (hnext : w.nextJobId ≤ w'.nextJobId)
    (hmemory : w'.durable = false → w'.persisting = none)
    (hjobs : ∀ id job, w'.jobs.lookup id = some job →
      id < w'.nextJobId ∧ ∀ p ∈ job.filenames, jobOf p = id) : w'.Owned where
  fresh id job hjob := (hjobs id job hjob).1
  named id job hjob := (hjobs id job hjob).2
  memory := hmemory
  known id call hcall hunfinished :=
    (h.known id call (hstores ▸ hcall) hunfinished).trans_le hnext
  created id call hcall := hdurable ▸ h.created id call (hstores ▸ hcall)
  owner id call hcall := h.owner id call (hstores ▸ hcall)
  alone id call id' call' hcall hcall' :=
    h.alone id call id' call' (hstores ▸ hcall) (hstores ▸ hcall')
  rest id call message rest hcall := h.rest id call message rest (hstores ▸ hcall)

theorem aloneAt_spec {id job : ℕ} (h : w.aloneAt id job = true) {id' : ℕ} {call : StoreCall}
    (hcall : w.stores.lookup id' = some call) (hne : id' ≠ id) (hjob : call.job = job) :
    unfinished call = false := by
  have hall := List.all_eq_true.1 h ⟨id', call⟩ (Map.mem_entries_iff.2 hcall)
  simpa [hne, hjob] using hall

/-- A call is entered in the table, or goes on. -/
theorem Owned.insert (h : w.Owned) {id : ℕ} {call : StoreCall}
    (hknown : unfinished call = true → call.job < w.nextJobId)
    (hcreated : call.createdFiles =
      if w.durable then call.staged.map MediaOutputRecord.filename else [])
    (howner : ∀ p ∈ call.staged.map MediaOutputRecord.filename, jobOf p = call.job)
    (halone : ∀ id' call', id' ≠ id → w.stores.lookup id' = some call' →
      unfinished call' = true → unfinished call = true → call'.job = call.job →
      call.createdFiles = [] ∨ call'.createdFiles = [])
    (hrest : ∀ message rest, call.pc = .failing message rest → rest ⊆ call.createdFiles) :
    (w.goto id call).Owned := by
  have hlookup {other : ℕ} {c : StoreCall} (hc : (w.goto id call).stores.lookup other = some c) :
      other = id ∧ call = c ∨ other ≠ id ∧ w.stores.lookup other = some c :=
    Map.lookup_insert_eq_some_iff.1 hc
  refine ⟨h.fresh, h.named, h.memory, fun other c hc hunf => ?_, fun other c hc => ?_,
    fun other c hc => ?_, fun other c other' c' hc hc' hunf hunf' hsame hne => ?_,
    fun other c message rest hc hpc => ?_⟩
  · rcases hlookup hc with ⟨rfl, rfl⟩ | ⟨-, hc⟩
    · exact hknown hunf
    · exact h.known other c hc hunf
  · rcases hlookup hc with ⟨rfl, rfl⟩ | ⟨-, hc⟩
    · exact hcreated
    · exact h.created other c hc
  · rcases hlookup hc with ⟨rfl, rfl⟩ | ⟨-, hc⟩
    · exact howner
    · exact h.owner other c hc
  · rcases hlookup hc with ⟨rfl, rfl⟩ | ⟨hid, hold⟩ <;>
      rcases hlookup hc' with ⟨rfl, heq⟩ | ⟨hid', hold'⟩
    · exact absurd rfl hne
    · exact halone other' c' hid' hold' hunf' hunf hsame.symm
    · subst heq
      exact (halone other c hid hold hunf hunf' hsame).symm
    · exact h.alone other c other' c' hold hold' hunf hunf' hsame hne
  · rcases hlookup hc with ⟨rfl, rfl⟩ | ⟨-, hc⟩
    · exact hrest message rest hpc
    · exact h.rest other c message rest hc hpc

/-- A call goes on without another file. -/
theorem Owned.goto (h : w.Owned) {id : ℕ} {call : StoreCall}
    (hcall : w.stores.lookup id = some call) (hunfinished : unfinished call = true) (pc : StorePc)
    (hrest : ∀ message rest, pc = .failing message rest → rest ⊆ call.createdFiles) :
    (w.goto id { call with pc }).Owned :=
  h.insert (fun _ => h.known id call hcall hunfinished) (h.created id call hcall)
    (h.owner id call hcall)
    (fun id' call' hne hcall' hunfinished' _ hjob =>
      h.alone id call id' call' hcall hcall' hunfinished hunfinished' hjob.symm hne.symm)
    hrest

theorem heldBy_goto {id : ℕ} {call : StoreCall} {p : Text}
    (h : (w.goto id call).heldBy p = true) :
    call.pc = .writing ∧ w.jobs.contains call.job = true ∧ p ∈ call.createdFiles ∨
      ∃ id' call', id' ≠ id ∧ w.stores.lookup id' = some call' ∧ call'.pc = .writing ∧
        w.jobs.contains call'.job = true ∧ p ∈ call'.createdFiles := by
  obtain ⟨id', call', hcall', hpc, hjob, hp⟩ := heldBy_iff.1 h
  rcases Map.lookup_insert_eq_some_iff.1 hcall' with ⟨-, rfl⟩ | ⟨hne, hcall'⟩
  · exact .inl ⟨hpc, hjob, hp⟩
  · exact .inr ⟨id', call', hne, hcall', hpc, hjob, hp⟩

theorem doomed_goto {id : ℕ} {call : StoreCall} {p : Text} (h : (w.goto id call).Doomed p) :
    (∃ message rest, call.pc = .failing message rest ∧ p ∈ rest) ∨ w.Doomed p := by
  obtain ⟨id', call', message, rest, hcall', hpc, hp⟩ := h
  rcases Map.lookup_insert_eq_some_iff.1 hcall' with ⟨-, rfl⟩ | ⟨-, hcall'⟩
  · exact .inl ⟨message, rest, hpc, hp⟩
  · exact .inr ⟨id', call', message, rest, hcall', hpc, hp⟩

structure Sound (w : World) : Prop where
  safe : w.view.Safe
  owned : w.Owned

theorem storing_eq_some_iff {id : ℕ} {call : StoreCall} :
    w.storing id = some call ↔ w.stores.lookup id = some call ∧ call.pc = .writing := by
  rw [storing, Option.bind_eq_some_iff]
  constructor
  · rintro ⟨call', hcall', hwriting⟩
    by_cases hpc : call'.pc = .writing
    · rw [if_pos hpc, Option.some.injEq] at hwriting
      exact hwriting ▸ ⟨hcall', hpc⟩
    · rw [if_neg hpc] at hwriting
      cases hwriting
  · rintro ⟨hcall, hpc⟩
    exact ⟨call, hcall, if_pos hpc⟩

theorem unfinished_of_writing {call : StoreCall} (h : call.pc = .writing) :
    unfinished call = true := by
  rw [unfinished, h]

theorem unclaimed_spec {call : StoreCall} (h : w.unclaimed call = true) {p : Text}
    (hp : p ∈ call.createdFiles) : p ∉ w.liveNames ∧ p ∉ w.retired ∧ p ∉ w.unsaved := by
  have hall := List.all_eq_true.1 h p hp
  simpa [and_assoc] using hall

/-- A call fails that has created no file that is published or retired. -/
theorem Sound.fail (h : w.Sound) {id : ℕ} {call : StoreCall} (hcall : w.storing id = some call)
    (hunclaimed : w.unclaimed call = true) (message : String) : (w.fail id call message).Sound := by
  obtain ⟨hlookup, hpc⟩ := storing_eq_some_iff.1 hcall
  have hunfinished := unfinished_of_writing hpc
  refine ⟨h.safe.fails (w.fail id call message).view.held (w.fail id call message).view.doomed
    {p | p ∈ call.createdFiles}
    (fun p hp => ?_) (fun p hp => ?_) (fun p hp => ?_), ?_⟩
  · rcases heldBy_goto hp with ⟨hpc', -⟩ | ⟨id', call', -, hcall', hpc', hjob', hp'⟩
    · cases hpc'
    · exact heldBy_iff.2 ⟨id', call', hcall', hpc', hjob', hp'⟩
  · rcases doomed_goto hp with ⟨message', rest, hfailing, hp⟩ | hdoomed
    · rw [StorePc.failing.injEq] at hfailing
      exact .inr (hfailing.2 ▸ hp)
    · exact .inl hdoomed
  · obtain ⟨hlive, hretired, hunsaved⟩ := unclaimed_spec hunclaimed hp
    refine ⟨fun hp => hlive hp.2, fun hheld => ?_, fun hpending => ?_⟩
    · rcases heldBy_goto hheld with ⟨hpc', -⟩ | ⟨id', call', hne, hcall', hpc', -, hp'⟩
      · cases hpc'
      · exact hne (h.owned.same hcall' hlookup (unfinished_of_writing hpc') hunfinished hp' hp)
    · exact (mem_pending.1 hpending).elim hretired hunsaved
  · refine h.owned.goto hlookup hunfinished _ fun message' rest hfailing => ?_
    rw [StorePc.failing.injEq] at hfailing
    exact hfailing.2 ▸ List.Subset.refl _

/-- Nothing but jobs and what is retired changes: what is published was so before or held, and what
is not published any more is retired. -/
structure Reassigns (w w' : World) : Prop where
  durable : w'.durable = w.durable
  files : w'.files = w.files
  history : w'.history = w.history
  stores : w'.stores = w.stores
  persisting : w'.persisting = w.persisting
  nextJobId : w.nextJobId ≤ w'.nextJobId
  contains : ∀ id < w.nextJobId, w'.jobs.contains id = true → w.jobs.contains id = true
  fresh : ∀ id job, w'.jobs.lookup id = some job → id < w'.nextJobId
  named : ∀ id job, w'.jobs.lookup id = some job → ∀ p ∈ job.filenames, jobOf p = id
  live : w.durable = true → ∀ p ∈ w'.liveNames, p ∈ w.liveNames ∨ w.heldBy p = true
  stays : w.durable = true → ∀ p ∈ w.liveNames, p ∈ w'.liveNames ∨ p ∈ w'.retired
  retired : ∀ p ∈ w.retired, p ∈ w'.retired
  retires : ∀ p ∈ w'.retired, p ∈ w.retired ∨ w.durable = true ∧ p ∈ w.liveNames

theorem Sound.reassigns (h : w.Sound) (w' : World) (hstep : w.Reassigns w') : w'.Sound := by
  refine ⟨h.safe.publishes ⟨?_, ?_, ?_, fun p hp => ?_, fun p hp => ?_, fun p hp => ?_,
    fun p hp => ?_, hstep.retired, hstep.retires⟩, ?_⟩
  · exact congrArg (fun files : Finset Text => (files : Set Text)) hstep.files
  · exact congrArg (fun snapshot => {p | p ∈ names snapshot}) hstep.history
  · exact congrArg (Option.map phaseOf) hstep.persisting
  · have hdurable : w.durable = true := hstep.durable ▸ hp.1
    exact (hstep.live hdurable p hp.2).imp_left fun hp => ⟨hdurable, hp⟩
  · obtain ⟨id, call, hcall, hpc, hjob, hp⟩ := heldBy_iff.1 hp
    rw [hstep.stores] at hcall
    have hknown := h.owned.known id call hcall (unfinished_of_writing hpc)
    exact heldBy_iff.2 ⟨id, call, hcall, hpc, hstep.contains _ hknown hjob, hp⟩
  · obtain ⟨id, call, message, rest, hcall, hfailing⟩ := hp
    exact ⟨id, call, message, rest, hstep.stores ▸ hcall, hfailing⟩
  · exact (hstep.stays hp.1 p hp.2).imp_left fun hp' => ⟨hstep.durable ▸ hp.1, hp'⟩
  · refine h.owned.of_jobs hstep.durable hstep.stores hstep.nextJobId (fun hmemory => ?_)
      fun id job hjob => ⟨hstep.fresh id job hjob, hstep.named id job hjob⟩
    exact hstep.persisting ▸ h.owned.memory (hstep.durable ▸ hmemory)

theorem Sound.prunes (h : w.Sound) (hprunes : w.Prunes w') : w'.Sound := by
  refine h.reassigns _ ⟨hprunes.durable, hprunes.files, hprunes.history, hprunes.stores,
    hprunes.persisting, hprunes.nextJobId.ge, fun id _ hid => ?_, fun id job hjob => ?_,
    fun id job hjob => h.owned.named id job (hprunes.jobs id job hjob), fun _ p hp => .inl ?_,
    fun hdurable p hp => ?_, hprunes.retired, fun p hp => ?_⟩
  · obtain ⟨job, hjob⟩ := Option.isSome_iff_exists.1 hid
    exact Option.isSome_iff_exists.2 ⟨job, hprunes.jobs id job hjob⟩
  · exact hprunes.nextJobId ▸ h.owned.fresh id job (hprunes.jobs id job hjob)
  · obtain ⟨id, job, hjob, hp⟩ := mem_liveNames.1 hp
    exact mem_liveNames.2 ⟨id, job, hprunes.jobs id job hjob, hp⟩
  · obtain ⟨id, job, hjob, hname⟩ := mem_liveNames.1 hp
    rcases hprunes.retires hdurable id job hjob with hkept | hretired
    · exact .inl (mem_liveNames.2 ⟨id, job, hkept, hname⟩)
    · exact .inr (hretired p hname)
  · rcases hprunes.retired_of p hp with hp | ⟨hdurable, id, job, hjob, hp⟩
    · exact .inl hp
    · exact .inr ⟨hdurable, mem_liveNames.2 ⟨id, job, hjob, hp⟩⟩

theorem Sound.pruneJobs (h : w.Sound) : w.pruneJobs.Sound := h.prunes (pruneJobs_prunes w)

/-- Neither the jobs nor the calls change. -/
theorem Owned.of_eq (h : w.Owned) (hdurable : w'.durable = w.durable) (hjobs : w'.jobs = w.jobs)
    (hstores : w'.stores = w.stores) (hnext : w'.nextJobId = w.nextJobId)
    (hmemory : w'.durable = false → w'.persisting = none) : w'.Owned :=
  h.of_jobs hdurable hstores hnext.ge hmemory fun id job hjob => by
    rw [hjobs] at hjob
    exact ⟨hnext ▸ h.fresh id job hjob, h.named id job hjob⟩

theorem Sound.waits (h : w.Sound) (waiting : ℕ) : ({ w with waiting } : World).Sound :=
  ⟨h.safe, h.owned.of_eq rfl rfl rfl rfl h.owned.memory⟩

theorem contains_eq_true_iff {id : ℕ} :
    w.jobs.contains id = true ↔ ∃ job, w.jobs.lookup id = some job := Option.isSome_iff_exists

theorem Sound.beginJob (h : w.Sound) (model modality : String) (prompt : Text) (now : ℤ) :
    (w.beginJob model modality prompt now).Sound := by
  have hold {id : ℕ} {job : MediaJob} (hjob : w.jobs.lookup id = some job) : id ≠ w.nextJobId :=
    (h.owned.fresh id job hjob).ne
  refine Sound.waits (h.reassigns { w.beginJob model modality prompt now with
    waiting := w.waiting } ⟨rfl, rfl, rfl, rfl, rfl, Nat.le_succ _, fun id hid hcontains => ?_,
    fun id job hjob => ?_, fun id job hjob p hp => ?_, fun _ p hp => .inl ?_,
    fun _ p hp => .inl ?_, fun _ hp => hp, fun _ hp => .inl hp⟩) (w.waiting + 1)
  · obtain ⟨job, hjob⟩ := contains_eq_true_iff.1 hcontains
    rcases Map.lookup_insert_eq_some_iff.1 hjob with ⟨rfl, -⟩ | ⟨-, hjob⟩
    · exact absurd hid (lt_irrefl _)
    · exact contains_eq_true_iff.2 ⟨job, hjob⟩
  · rcases Map.lookup_insert_eq_some_iff.1 hjob with ⟨rfl, -⟩ | ⟨-, hjob⟩
    · exact Nat.lt_succ_self _
    · exact (h.owned.fresh id job hjob).trans (Nat.lt_succ_self _)
  · rcases Map.lookup_insert_eq_some_iff.1 hjob with ⟨-, rfl⟩ | ⟨-, hjob⟩
    · exact absurd hp List.not_mem_nil
    · exact h.owned.named id job hjob p hp
  · obtain ⟨id, job, hjob, hp⟩ := mem_liveNames.1 hp
    rcases Map.lookup_insert_eq_some_iff.1 hjob with ⟨-, rfl⟩ | ⟨-, hjob⟩
    · exact absurd hp List.not_mem_nil
    · exact mem_liveNames.2 ⟨id, job, hjob, hp⟩
  · obtain ⟨id, job, hjob, hp⟩ := mem_liveNames.1 hp
    exact mem_liveNames.2 ⟨id, job,
      Map.lookup_insert_eq_some_iff.2 (.inr ⟨hold hjob, hjob⟩), hp⟩

/-- A job changes, and what it published is retired or published still. -/
theorem Sound.update (h : w.Sound) {id : ℕ} {job : MediaJob} (job' : MediaJob)
    (retired : List Text) (hjob : w.jobs.lookup id = some job) (hnamed : ∀ p ∈ job'.filenames, jobOf p = id)
    (hlive : w.durable = true → ∀ p ∈ job'.filenames, p ∈ job.filenames ∨ w.heldBy p = true)
    (hstays : w.durable = true → ∀ p ∈ job.filenames, p ∈ job'.filenames ∨ p ∈ retired)
    (hretired : ∀ p ∈ w.retired, p ∈ retired)
    (hretires : ∀ p ∈ retired, p ∈ w.retired ∨ w.durable = true ∧ p ∈ job.filenames) :
    ({ w with jobs := w.jobs.insert id job', retired } : World).Sound := by
  refine h.reassigns _ ⟨rfl, rfl, rfl, rfl, rfl, le_rfl, fun other _ hcontains => ?_,
    fun other c hc => ?_, fun other c hc => ?_, fun hdurable p hp => ?_, fun hdurable p hp => ?_,
    hretired, fun p hp => ?_⟩
  · obtain ⟨c, hc⟩ := contains_eq_true_iff.1 hcontains
    rcases Map.lookup_insert_eq_some_iff.1 hc with ⟨rfl, -⟩ | ⟨-, hc⟩
    · exact contains_eq_true_iff.2 ⟨job, hjob⟩
    · exact contains_eq_true_iff.2 ⟨c, hc⟩
  · rcases Map.lookup_insert_eq_some_iff.1 hc with ⟨rfl, -⟩ | ⟨-, hc⟩
    · exact h.owned.fresh other job hjob
    · exact h.owned.fresh other c hc
  · rcases Map.lookup_insert_eq_some_iff.1 hc with ⟨rfl, rfl⟩ | ⟨-, hc⟩
    · exact hnamed
    · exact h.owned.named other c hc
  · obtain ⟨other, c, hc, hp⟩ := mem_liveNames.1 hp
    rcases Map.lookup_insert_eq_some_iff.1 hc with ⟨-, rfl⟩ | ⟨-, hc⟩
    · exact (hlive hdurable p hp).imp_left fun hp => mem_liveNames.2 ⟨id, job, hjob, hp⟩
    · exact .inl (mem_liveNames.2 ⟨other, c, hc, hp⟩)
  · obtain ⟨other, c, hc, hp⟩ := mem_liveNames.1 hp
    by_cases hid : other = id
    · subst hid
      rw [hjob, Option.some.injEq] at hc
      refine (hstays hdurable p (hc ▸ hp)).imp_left fun hp => ?_
      exact mem_liveNames.2 ⟨other, job', Map.lookup_insert_eq_some_iff.2 (.inl ⟨rfl, rfl⟩), hp⟩
    · exact .inl (mem_liveNames.2 ⟨other, c,
        Map.lookup_insert_eq_some_iff.2 (.inr ⟨hid, hc⟩), hp⟩)
  · exact (hretires p hp).imp_right fun hp =>
      ⟨hp.1, mem_liveNames.2 ⟨id, job, hjob, hp.2⟩⟩

theorem Sound.finishJob (h : w.Sound) (id : ℕ) (state : JobState) (error : String) (now : ℤ) :
    (w.finishJob id state error now).Sound := by
  rw [World.finishJob]
  cases hjob : w.jobs.lookup id with
  | none => exact h.pruneJobs.waits _
  | some job =>
      have hupdated := h.update (finished job state error now) w.retired hjob
        (h.owned.named id job hjob) (fun _ p hp => .inl hp) (fun _ p hp => .inl hp)
        (fun _ hp => hp) fun _ hp => .inl hp
      exact hupdated.pruneJobs.waits _

/-- A call is entered or goes on, and neither holds nor dooms another file. -/
theorem Sound.goto (h : w.Sound) {id : ℕ} {call : StoreCall} (howned : (w.goto id call).Owned)
    (hheld : call.pc = .writing → w.jobs.contains call.job = true →
      ∀ p ∈ call.createdFiles, w.heldBy p = true)
    (hdoomed : ∀ message rest, call.pc = .failing message rest → ∀ p ∈ rest, w.Doomed p) :
    (w.goto id call).Sound := by
  refine ⟨h.safe.publishes ⟨rfl, rfl, rfl, fun p hp => .inl hp, fun p hp => ?_, fun p hp => ?_,
    fun p hp => .inl hp, fun _ hp => hp, fun _ hp => .inl hp⟩, howned⟩
  · rcases heldBy_goto hp with ⟨hpc, hjob, hp⟩ | ⟨id', call', -, hcall'⟩
    · exact hheld hpc hjob p hp
    · exact heldBy_iff.2 ⟨id', call', hcall'⟩
  · rcases doomed_goto hp with ⟨message, rest, hpc, hp⟩ | hp
    · exact hdoomed message rest hpc p hp
    · exact hp

/-- A call is entered, and has written nothing yet. -/
theorem Sound.enter (h : w.Sound) {id : ℕ} {call : StoreCall} (hstaged : call.staged = [])
    (hcreated : call.createdFiles = []) (hpc : ∀ message rest, call.pc ≠ .failing message rest)
    (hknown : unfinished call = true → call.job < w.nextJobId) : (w.goto id call).Sound := by
  refine h.goto (h.owned.insert hknown ?_ ?_ (fun _ _ _ _ _ _ _ => .inl hcreated) ?_) ?_ ?_
  · rw [hcreated, hstaged, List.map_nil, ite_self]
  · exact fun p hp => by simp [hstaged] at hp
  · exact fun message rest heq => absurd heq (hpc message rest)
  · exact fun _ _ p hp => absurd (hcreated ▸ hp) List.not_mem_nil
  · exact fun message rest heq => absurd heq (hpc message rest)

theorem Sound.store (h : w.Sound) (id job : ℕ) (pending : List PendingMediaOutput) :
    (w.store id job pending).Sound := by
  rw [World.store]
  cases hjob : w.jobs.lookup job with
  | none => exact h.enter rfl rfl (fun _ _ => by simp) fun hunfinished => by cases hunfinished
  | some found => exact h.enter rfl rfl (fun _ _ => by simp) fun _ => h.owned.fresh job found hjob

/-- The file of a round of the loop is written. -/
theorem Sound.written (h : w.Sound) {id : ℕ} {call call' : StoreCall}
    (hcall : w.storing id = some call) (hdurable : w.durable = true) {record : MediaOutputRecord}
    (hcall' : call' = { call with
      staged := call.staged ++ [record]
      createdFiles := call.createdFiles ++ [record.filename] })
    (hname : jobOf record.filename = call.job) (halone : w.aloneAt id call.job = true)
    (hcondemned : w.condemns record.filename = false) :
    ({ w.goto id call' with files := insert record.filename w.files } : World).Sound := by
  obtain ⟨hlookup, hpc⟩ := storing_eq_some_iff.1 hcall
  have hunfinished := unfinished_of_writing hpc
  have hjob : call'.job = call.job := by rw [hcall']
  have hcreated : call'.createdFiles = call.createdFiles ++ [record.filename] := by rw [hcall']
  have hstaged : call'.staged = call.staged ++ [record] := by rw [hcall']
  have hpc' : call'.pc = .writing := by rw [hcall', hpc]
  have howned : (w.goto id call').Owned := by
    refine h.owned.insert (fun _ => ?_) ?_ (fun p hp => ?_) (fun id' c hne hc hunf _ heq => ?_)
      fun message rest heq => ?_
    · exact hjob ▸ h.owned.known id call hlookup hunfinished
    · rw [hcreated, hstaged, h.owned.created id call hlookup, if_pos hdurable, if_pos hdurable,
        List.map_append, List.map_singleton]
    · rw [hstaged, List.map_append, List.mem_append, List.map_singleton, List.mem_singleton] at hp
      rw [hjob]
      rcases hp with hp | rfl
      · exact h.owned.owner id call hlookup p hp
      · exact hname
    · rw [aloneAt_spec halone hc hne (heq.trans hjob)] at hunf
      cases hunf
    · rw [hpc'] at heq
      cases heq
  refine ⟨h.safe.create (p := record.filename) (w.goto id call').view.held
    (w.goto id call').view.doomed (Finset.coe_insert _ _) (fun p hp => ?_)
    (fun p hp => ?_) (fun hp => ?_) (fun hp => ?_), howned.of_eq rfl rfl rfl rfl howned.memory⟩
  · rcases heldBy_goto hp with ⟨-, hcontains, hp⟩ | ⟨id', c, -, hc⟩
    · rcases List.mem_append.1 (hcreated ▸ hp) with hp | hp
      · exact .inr (heldBy_iff.2 ⟨id, call, hlookup, hpc, hjob ▸ hcontains, hp⟩)
      · exact .inl (List.mem_singleton.1 hp)
    · exact .inr (heldBy_iff.2 ⟨id', c, hc⟩)
  · rcases doomed_goto hp with ⟨message, rest, heq, -⟩ | hp
    · rw [hpc'] at heq
      cases heq
    · exact hp
  · rw [← condemns_iff, hcondemned] at hp
    cases hp
  · obtain ⟨id', c, message, rest, hc, hfailing, hp⟩ := hp
    -- the file would be of the same job, whose other calls have returned
    have hmem := h.owned.rest id' c message rest hc hfailing hp
    have hne : id' ≠ id := by
      rintro rfl
      rw [hlookup, Option.some.injEq] at hc
      rw [← hc, hpc] at hfailing
      cases hfailing
    have hsame : c.job = call.job := (h.owned.createdFor hc hmem).2.symm.trans hname
    have hreturned := aloneAt_spec halone hc hne hsame
    rw [unfinished, hfailing] at hreturned
    cases hreturned

theorem Sound.write (h : w.Sound) {id : ℕ} {call : StoreCall} {input : PendingMediaOutput}
    {outcome : WriteOutcome} (hcall : w.storing id = some call)
    (hinput : call.pending[call.staged.length]? = some input)
    (hcalm : w.calm (.write id outcome) = true) : (w.write id call input outcome).Sound := by
  obtain ⟨hlookup, hpc⟩ := storing_eq_some_iff.1 hcall
  simp only [calm, hcall, hinput, Option.all_some] at hcalm
  rw [World.write]
  by_cases hempty : input.bytes = 0
  · rw [if_pos hempty] at hcalm ⊢
    exact h.fail hcall hcalm _
  rw [if_neg hempty] at hcalm ⊢
  by_cases hdurable : w.durable = true
  · rw [hdurable] at hcalm ⊢
    cases outcome with
    | written =>
        obtain ⟨halone, hcondemned⟩ := Bool.and_eq_true_iff.1 hcalm
        exact h.written hcall hdurable rfl (jobOf_outputName _ _ _ _) halone (by simpa using hcondemned)
    | notOpened => exact h.fail hcall hcalm _
    | notWritten => exact h.fail hcall hcalm _
    | notFinalized reason => exact h.fail hcall hcalm _
  · rw [Bool.not_eq_true] at hdurable
    rw [hdurable]
    have hcreated : call.createdFiles = [] := by
      rw [h.owned.created id call hlookup, hdurable]
      rfl
    refine h.goto (h.owned.insert (fun _ => ?_) ?_ (fun p hp => ?_) (fun _ _ _ _ _ _ _ => ?_)
      fun message rest heq => ?_) (fun _ _ p hp => ?_) fun message rest heq => ?_
    · exact h.owned.known id call hlookup (unfinished_of_writing hpc)
    · rw [hcreated, hdurable]
      rfl
    · rw [List.map_append, List.mem_append, List.map_singleton, List.mem_singleton] at hp
      rcases hp with hp | rfl
      · exact h.owned.owner id call hlookup p hp
      · exact jobOf_outputName _ _ _ _
    · exact .inl hcreated
    · cases hpc.symm.trans heq
    · exact absurd (hcreated ▸ hp) List.not_mem_nil
    · cases hpc.symm.trans heq

/-- The outputs of the call are those of its job, and the job's outputs before are retired. -/
def published (w : World) (call : StoreCall) (job : MediaJob) : World :=
  { w with
    jobs := w.jobs.insert call.job { job with outputs := call.staged }
    retired := if w.durable then w.retired ++ job.filenames else w.retired }

theorem publish_eq {id : ℕ} {call : StoreCall} {job : MediaJob}
    (hjob : w.jobs.lookup call.job = some job) :
    w.publish id call =
      { (w.published call job).pruneJobs.goto id { call with pc := .returned (.ok ()) } with
        waiting := (w.published call job).pruneJobs.waiting + 1 } := by
  simp only [World.publish, hjob, removeJobOutputs_eq, published]

theorem Sound.published (h : w.Sound) {id : ℕ} {call : StoreCall} {job : MediaJob}
    (hcall : w.storing id = some call) (hjob : w.jobs.lookup call.job = some job) :
    (w.published call job).Sound := by
  obtain ⟨hlookup, hpc⟩ := storing_eq_some_iff.1 hcall
  refine h.update _ _ hjob (h.owned.owner id call hlookup) (fun hdurable p hp => .inr ?_)
    (fun hdurable p hp => .inr ?_) (fun p hp => ?_) fun p hp => ?_
  · -- what the call has staged, it has created, and its job is there
    refine heldBy_iff.2 ⟨id, call, hlookup, hpc, contains_eq_true_iff.2 ⟨job, hjob⟩, ?_⟩
    rw [h.owned.created id call hlookup, if_pos hdurable]
    exact hp
  · rw [if_pos hdurable]
    exact List.mem_append_right _ hp
  · split_ifs
    · exact List.mem_append_left _ hp
    · exact hp
  · by_cases hdurable : w.durable = true
    · rw [if_pos hdurable] at hp
      exact (List.mem_append.1 hp).imp_right fun hp => ⟨hdurable, hp⟩
    · rw [if_neg hdurable] at hp
      exact .inl hp

theorem Sound.publish (h : w.Sound) {id : ℕ} {call : StoreCall} (hcall : w.storing id = some call)
    (hcalm : w.calm (.publish id) = true) : (w.publish id call).Sound := by
  obtain ⟨hlookup, hpc⟩ := storing_eq_some_iff.1 hcall
  simp only [calm, hcall, Option.all_some, Bool.or_eq_true] at hcalm
  cases hjob : w.jobs.lookup call.job with
  | none =>
      rcases hcalm with hcontains | hunclaimed
      · obtain ⟨job, hjob'⟩ := contains_eq_true_iff.1 hcontains
        rw [hjob] at hjob'
        cases hjob'
      · rw [World.publish, hjob]
        exact h.fail hcall hunclaimed _
  | some job =>
      have hpruned := (h.published hcall hjob).pruneJobs
      have hlookup' : (w.published call job).pruneJobs.stores.lookup id = some call := by
        rw [(pruneJobs_prunes _).stores]
        exact hlookup
      rw [publish_eq hjob]
      refine (hpruned.goto (hpruned.owned.goto hlookup' (unfinished_of_writing hpc) _
        fun message rest heq => ?_) (fun heq => ?_) fun message rest heq => ?_).waits _
      · cases heq
      · cases heq
      · cases heq

theorem Sound.unwind (h : w.Sound) {id : ℕ} {call : StoreCall}
    (hlookup : w.stores.lookup id = some call) (hstep : w.unwind id call = some w') :
    w'.Sound := by
  rw [World.unwind] at hstep
  cases hpc : call.pc with
  | writing | returned => simp [hpc] at hstep
  | failing message remaining =>
      have hunfinished : unfinished call = true := by rw [unfinished, hpc]
      have hrest := h.owned.rest id call message remaining hlookup hpc
      cases remaining with
      | nil =>
          rw [hpc, Option.some.injEq] at hstep
          subst hstep
          refine h.goto (h.owned.goto hlookup hunfinished _ fun _ _ heq => ?_) (fun heq => ?_)
            fun _ _ heq => ?_
          · cases heq
          · cases heq
          · cases heq
      | cons p remaining =>
          rw [hpc, Option.some.injEq] at hstep
          subst hstep
          have howned := h.owned.goto hlookup hunfinished (.failing message remaining)
            fun _ _ heq => (StorePc.failing.inj heq).2 ▸ fun q hq => hrest (List.mem_cons_of_mem p hq)
          refine ⟨h.safe.unwind (p := p)
            ⟨id, call, message, _, hlookup, hpc, List.mem_cons_self⟩ ↑(w.files.erase p)
            (w.goto id { call with pc := .failing message remaining }).view.held
            (w.goto id { call with pc := .failing message remaining }).view.doomed (Finset.coe_erase _ _)
            (fun q hq => ?_) fun q hq => ?_, howned.of_eq rfl rfl rfl rfl howned.memory⟩
          · rcases heldBy_goto hq with ⟨heq, -⟩ | ⟨id', c, -, hc⟩
            · cases heq
            · exact heldBy_iff.2 ⟨id', c, hc⟩
          · rcases doomed_goto hq with ⟨_, _, heq, hq⟩ | hq
            · rw [StorePc.failing.injEq] at heq
              exact ⟨id, call, message, _, hlookup, hpc, List.mem_cons_of_mem _ (heq.2 ▸ hq)⟩
            · exact hq

theorem Sound.snapshot (h : w.Sound) (hcalm : w.calm .snapshot = true)
    (hstep : w.snapshot = some w') : w'.Sound := by
  rw [World.snapshot] at hstep
  by_cases hbusy : (w.persisting.isSome || w.waiting == 0) = true
  · rw [if_pos hbusy] at hstep
    cases hstep
  rw [if_neg hbusy] at hstep
  have hidle : w.persisting = none := by
    rw [Bool.or_eq_true, not_or, Option.not_isSome_iff_eq_none] at hbusy
    exact hbusy.1
  by_cases hdurable : w.durable = true
  · rw [if_neg (by simp [hdurable]), Option.some.injEq] at hstep
    subst hstep
    refine ⟨h.safe.takes (congrArg (Option.map phaseOf) hidle) {p | p ∈ names w.snapshotOf}
      {p | p ∈ []} (by simp) ?_ fun p hp hlive hheld => ?_,
      h.owned.of_eq rfl rfl rfl rfl fun hmemory => ?_⟩
    · ext p
      simp [view, mem_names_snapshotOf, hdurable]
    · have hall := List.all_eq_true.1 hcalm p hp
      rw [Bool.or_eq_true, List.contains_iff_mem, Bool.not_eq_true'] at hall
      rcases hall with hall | hall
      · exact hlive ⟨hdurable, hall⟩
      · exact Bool.false_ne_true (hall.symm.trans hheld)
    · exact absurd (hmemory.symm.trans hdurable) Bool.false_ne_true
  · rw [if_pos (by simp [hdurable]), Option.some.injEq] at hstep
    exact hstep ▸ h.waits _

theorem Sound.save (h : w.Sound) {saved : Bool} (hstep : w.save saved = some w') : w'.Sound := by
  cases hphase : w.persisting with
  | none => simp [World.save, hphase] at hstep
  | some persisting =>
      have hdurable : w.durable = true := by
        by_contra hmemory
        rw [h.owned.memory (Bool.not_eq_true _ ▸ hmemory)] at hphase
        cases hphase
      cases persisting with
      | deleting => simp [World.save, hphase] at hstep
      | saving snapshot taken =>
          have hview := congrArg (Option.map phaseOf) hphase
          cases saved with
          | true =>
              rw [World.save, hphase] at hstep
              replace hstep := Option.some.inj hstep
              subst hstep
              refine ⟨h.safe.saves hview, h.owned.of_eq rfl rfl rfl rfl fun hmemory => ?_⟩
              exact absurd (hmemory.symm.trans hdurable) Bool.false_ne_true
          | false =>
              rw [World.save, hphase] at hstep
              replace hstep := Option.some.inj hstep
              subst hstep
              refine ⟨h.safe.givesBack hview ?_, h.owned.of_eq rfl rfl rfl rfl fun _ => rfl⟩
              ext p
              simp [view]

theorem Sound.delete (h : w.Sound) (hstep : w.delete = some w') : w'.Sound := by
  cases hphase : w.persisting with
  | none => simp [World.delete, hphase] at hstep
  | some persisting =>
      have hdurable : w.durable = true := by
        by_contra hmemory
        rw [h.owned.memory (Bool.not_eq_true _ ▸ hmemory)] at hphase
        cases hphase
      have hview := congrArg (Option.map phaseOf) hphase
      cases persisting with
      | saving => simp [World.delete, hphase] at hstep
      | deleting snapshot taken =>
          cases taken with
          | nil =>
              rw [World.delete, hphase] at hstep
              replace hstep := Option.some.inj hstep
              subst hstep
              exact ⟨h.safe.ends hview, h.owned.of_eq rfl rfl rfl rfl fun _ => rfl⟩
          | cons p rest =>
              rw [World.delete, hphase] at hstep
              replace hstep := Option.some.inj hstep
              subst hstep
              refine ⟨h.safe.deletes hview {q | q ∈ rest}
                (fun q hq => List.mem_cons_of_mem _ hq) ?_,
                h.owned.of_eq rfl rfl rfl rfl fun hmemory => ?_⟩
              · by_cases hretained : retained snapshot p = true
                · rw [if_pos hretained]
                  exact .inl rfl
                · rw [if_neg hretained]
                  refine .inr ⟨p, List.mem_cons_self, fun hp => ?_, Finset.coe_erase _ _⟩
                  exact hretained (retained_iff.2 hp)
              · exact absurd (hmemory.symm.trans hdurable) Bool.false_ne_true

theorem Sound.next (h : w.Sound) {a : Action} (hcalm : w.calm a = true)
    (hnext : w.next a = some w') : w'.Sound := by
  cases a with
  | beginJob model modality prompt now =>
      exact Option.some.inj hnext ▸ h.beginJob model modality prompt now
  | finishJob id state error now =>
      exact Option.some.inj hnext ▸ h.finishJob id state error now
  | store id job pending =>
      rw [World.next] at hnext
      by_cases hknown : w.stores.contains id = true
      · rw [if_pos hknown] at hnext
        cases hnext
      · rw [if_neg hknown, Option.some.injEq] at hnext
        exact hnext ▸ h.store id job pending
  | write id outcome =>
      obtain ⟨call, hcall, hstep⟩ := Option.bind_eq_some_iff.1 hnext
      obtain ⟨input, hinput, hstep⟩ := Option.map_eq_some_iff.1 hstep
      exact hstep ▸ h.write hcall hinput hcalm
  | publish id =>
      obtain ⟨call, hcall, hstep⟩ := Option.bind_eq_some_iff.1 hnext
      by_cases hall : call.staged.length = call.pending.length
      · rw [if_pos hall, Option.some.injEq] at hstep
        exact hstep ▸ h.publish hcall hcalm
      · rw [if_neg hall] at hstep
        cases hstep
  | unwind id =>
      obtain ⟨call, hcall, hstep⟩ := Option.bind_eq_some_iff.1 hnext
      exact h.unwind hcall hstep
  | snapshot => exact h.snapshot hcalm hnext
  | save saved => exact h.save hnext
  | delete => exact h.delete hnext

theorem Settled.sound (h : w.Settled) : w.Sound := by
  have hlookup {id : ℕ} {call : StoreCall} : w.stores.lookup id ≠ some call := by
    rw [h.stores]
    simp
  have hphase : w.view.phase = none := congrArg (Option.map phaseOf) h.persisting
  refine ⟨⟨fun p hp => h.live hp.1 p hp.2, fun p hp => ?_, fun p hp => (h.history p hp).2.1,
    fun p hp => ?_, fun s t heq => ?_, fun s t heq => ?_, fun p hp => ?_, fun p hp => ?_⟩,
    ⟨h.fresh, h.named, fun _ => h.persisting, fun id call hcall => absurd hcall hlookup,
      fun id call hcall => absurd hcall hlookup, fun id call hcall => absurd hcall hlookup,
      fun id call _ _ hcall => absurd hcall hlookup, fun id call _ _ hcall => absurd hcall hlookup⟩⟩
  · obtain ⟨id, call, hcall, -⟩ := heldBy_iff.1 hp
    exact absurd hcall hlookup
  · obtain ⟨hdurable, -, hkept⟩ := h.history p hp
    exact hkept.imp (fun hp => ⟨hdurable, hp⟩) fun hp => mem_pending.2 (.inl hp)
  · cases hphase.symm.trans heq
  · cases hphase.symm.trans heq
  · rw [View.condemned, hphase] at hp
    exact absurd hp (Set.notMem_empty p)
  · obtain ⟨id, call, message, rest, hcall, -⟩ := hp
    exact absurd hcall hlookup

/-! ## The law of a step -/

theorem write_jobs (id : ℕ) (call : StoreCall) (input : PendingMediaOutput)
    (outcome : WriteOutcome) : (w.write id call input outcome).jobs = w.jobs := by
  rw [World.write]
  split_ifs
  · rfl
  · rfl
  · cases outcome <;> rfl

theorem write_files (id : ℕ) (call : StoreCall) (input : PendingMediaOutput)
    (outcome : WriteOutcome) : w.files ⊆ (w.write id call input outcome).files := by
  rw [World.write]
  split_ifs
  · exact subset_rfl
  · exact subset_rfl
  · cases outcome with
    | written => exact Finset.subset_insert _ _
    | notOpened | notWritten | notFinalized => exact subset_rfl

theorem publish_files (id : ℕ) (call : StoreCall) : (w.publish id call).files = w.files := by
  cases hjob : w.jobs.lookup call.job with
  | none =>
      rw [World.publish, hjob]
      rfl
  | some job =>
      rw [publish_eq hjob]
      exact (pruneJobs_prunes _).files

theorem finishJob_files (id : ℕ) (state : JobState) (error : String) (now : ℤ) :
    (w.finishJob id state error now).files = w.files :=
  (pruneJobs_prunes _).files

theorem store_files (id job : ℕ) (pending : List PendingMediaOutput) :
    (w.store id job pending).files = w.files := by
  rw [World.store]
  cases w.jobs.lookup job <;> rfl

theorem snapshot_files (h : w.snapshot = some w') : w'.files = w.files ∧ w'.jobs = w.jobs := by
  rw [World.snapshot] at h
  split_ifs at h
  · exact Option.some.inj h ▸ ⟨rfl, rfl⟩
  · exact Option.some.inj h ▸ ⟨rfl, rfl⟩

theorem save_files {saved : Bool} (h : w.save saved = some w') :
    w'.files = w.files ∧ w'.jobs = w.jobs := by
  rw [World.save] at h
  split at h
  · split_ifs at h
    · exact Option.some.inj h ▸ ⟨rfl, rfl⟩
    · exact Option.some.inj h ▸ ⟨rfl, rfl⟩
  · cases h

/-- Only a failing call and a save remove a file. -/
theorem Sound.removes (h : w.Sound) {a : Action} (hnext : w.next a = some w') {p : Text}
    (hp : p ∈ w.files) (hp' : p ∉ w'.files) : w.durable = true ∧ w.view.Removable p := by
  cases a with
  | beginJob model modality prompt now => exact absurd (Option.some.inj hnext ▸ hp) hp'
  | finishJob id state error now =>
      rw [← Option.some.inj hnext, finishJob_files] at hp'
      exact absurd hp hp'
  | store id job pending =>
      rw [World.next] at hnext
      by_cases hknown : w.stores.contains id = true
      · rw [if_pos hknown] at hnext
        cases hnext
      · rw [if_neg hknown, Option.some.injEq] at hnext
        rw [← hnext, store_files] at hp'
        exact absurd hp hp'
  | write id outcome =>
      obtain ⟨call, hcall, hstep⟩ := Option.bind_eq_some_iff.1 hnext
      obtain ⟨input, hinput, hstep⟩ := Option.map_eq_some_iff.1 hstep
      exact absurd (hstep ▸ write_files id call input outcome hp) hp'
  | publish id =>
      obtain ⟨call, hcall, hstep⟩ := Option.bind_eq_some_iff.1 hnext
      by_cases hall : call.staged.length = call.pending.length
      · rw [if_pos hall, Option.some.injEq] at hstep
        rw [← hstep, publish_files] at hp'
        exact absurd hp hp'
      · rw [if_neg hall] at hstep
        cases hstep
  | unwind id =>
      obtain ⟨call, hcall, hstep⟩ := Option.bind_eq_some_iff.1 hnext
      rw [World.unwind] at hstep
      split at hstep
      case h_1 message q remaining hpc =>
        rw [Option.some.injEq] at hstep
        rw [← hstep, Finset.mem_erase, not_and_or, not_not] at hp'
        rcases hp' with rfl | hp'
        · have hcreated := h.owned.rest id call message _ hcall hpc List.mem_cons_self
          exact ⟨(h.owned.createdFor hcall hcreated).1, h.safe.removable_of_doomed
            ⟨id, call, message, _, hcall, hpc, List.mem_cons_self⟩⟩
        · exact absurd hp hp'
      case h_2 => exact absurd (Option.some.inj hstep ▸ hp) hp'
      case h_3 => cases hstep
  | snapshot =>
      rw [(snapshot_files hnext).1] at hp'
      exact absurd hp hp'
  | save saved =>
      rw [(save_files hnext).1] at hp'
      exact absurd hp hp'
  | delete =>
      rw [World.next, World.delete] at hnext
      split at hnext
      case h_1 snapshot q rest hphase =>
        rw [Option.some.injEq] at hnext
        rw [← hnext] at hp'
        by_cases hretained : retained snapshot q = true
        · rw [if_pos hretained] at hp'
          exact absurd hp hp'
        · rw [if_neg hretained, Finset.mem_erase, not_and_or, not_not] at hp'
          rcases hp' with rfl | hp'
          · refine ⟨?_, h.safe.removable_of_condemned (congrArg (Option.map phaseOf) hphase)
              List.mem_cons_self fun hnew => hretained (retained_iff.2 hnew)⟩
            by_contra hmemory
            rw [h.owned.memory (Bool.not_eq_true _ ▸ hmemory)] at hphase
            cases hphase
          · exact absurd hp hp'
      case h_2 => exact absurd (Option.some.inj hnext ▸ hp) hp'
      case h_3 => cases hnext

/-- A change of a job that leaves it running, and then the rounds of pruning. -/
theorem running_pruneJobs {job job' : MediaJob} {id id' : ℕ} {jobs : Map ℕ MediaJob}
    (hjobs : w.jobs = jobs.insert id job') (hrunning : id' = id → job'.state = .running)
    (hjob : jobs.lookup id' = some job) (hstate : job.state = .running) :
    w.pruneJobs.jobs.contains id' = true := by
  by_cases hid : id' = id
  · refine contains_eq_true_iff.2 ⟨job', (pruneJobs_prunes w).running id' job' ?_ (hrunning hid)⟩
    rw [hjobs, hid, AList.lookup_insert]
  · refine contains_eq_true_iff.2 ⟨job, (pruneJobs_prunes w).running id' job ?_ hstate⟩
    rw [hjobs, AList.lookup_insert_ne hid, hjob]

theorem publish_running {id id' : ℕ} {call : StoreCall} {job : MediaJob}
    (hjob : w.jobs.lookup id' = some job) (hstate : job.state = .running) :
    (w.publish id call).jobs.contains id' = true := by
  cases hcall : w.jobs.lookup call.job with
  | none =>
      rw [World.publish, hcall]
      exact contains_eq_true_iff.2 ⟨job, hjob⟩
  | some found =>
      rw [publish_eq hcall]
      refine running_pruneJobs (w := w.published call found) rfl (fun heq => ?_) hjob hstate
      rw [heq, hcall, Option.some.injEq] at hjob
      exact hjob ▸ hstate

theorem finishJob_running {id id' : ℕ} {state : JobState} {error : String} {now : ℤ}
    {job : MediaJob} (hends : id' = id → state = .running) (hjob : w.jobs.lookup id' = some job)
    (hstate : job.state = .running) :
    (w.finishJob id state error now).jobs.contains id' = true := by
  rw [World.finishJob]
  cases hfound : w.jobs.lookup id with
  | none => exact contains_eq_true_iff.2 ⟨job, (pruneJobs_prunes w).running id' job hjob hstate⟩
  | some found => exact running_pruneJobs rfl hends hjob hstate

/-- A running job stays, unless the step ends it. -/
theorem Sound.running (h : w.Sound) {a : Action} (hnext : w.next a = some w') {id : ℕ}
    {job : MediaJob} (hjob : w.jobs.lookup id = some job) (hstate : job.state = .running)
    (hends : endsJob id a = false) : w'.jobs.contains id = true := by
  have hstays (heq : w'.jobs = w.jobs) : w'.jobs.contains id = true :=
    contains_eq_true_iff.2 ⟨job, heq ▸ hjob⟩
  cases a with
  | beginJob model modality prompt now =>
      refine Option.some.inj hnext ▸ contains_eq_true_iff.2 ⟨job, ?_⟩
      exact Map.lookup_insert_eq_some_iff.2 (.inr ⟨(h.owned.fresh id job hjob).ne, hjob⟩)
  | finishJob id' state error now =>
      refine Option.some.inj hnext ▸ finishJob_running (fun heq => ?_) hjob hstate
      by_contra hstate'
      simp [endsJob, heq, hstate'] at hends
  | store id' job' pending =>
      rw [World.next] at hnext
      by_cases hknown : w.stores.contains id' = true
      · rw [if_pos hknown] at hnext
        cases hnext
      · rw [if_neg hknown, Option.some.injEq, World.store] at hnext
        refine hstays (hnext ▸ ?_)
        cases w.jobs.lookup job' <;> rfl
  | write id' outcome =>
      obtain ⟨call, hcall, hstep⟩ := Option.bind_eq_some_iff.1 hnext
      obtain ⟨input, hinput, hstep⟩ := Option.map_eq_some_iff.1 hstep
      exact hstays (hstep ▸ write_jobs id' call input outcome)
  | publish id' =>
      obtain ⟨call, hcall, hstep⟩ := Option.bind_eq_some_iff.1 hnext
      by_cases hall : call.staged.length = call.pending.length
      · rw [if_pos hall, Option.some.injEq] at hstep
        exact hstep ▸ publish_running hjob hstate
      · rw [if_neg hall] at hstep
        cases hstep
  | unwind id' =>
      obtain ⟨call, hcall, hstep⟩ := Option.bind_eq_some_iff.1 hnext
      rw [World.unwind] at hstep
      split at hstep
      case h_1 => exact hstays (Option.some.inj hstep ▸ rfl)
      case h_2 => exact hstays (Option.some.inj hstep ▸ rfl)
      case h_3 => cases hstep
  | snapshot => exact hstays (snapshot_files hnext).2
  | save saved => exact hstays (save_files hnext).2
  | delete =>
      rw [World.next, World.delete] at hnext
      split at hnext
      case h_1 => exact hstays (Option.some.inj hnext ▸ rfl)
      case h_2 => exact hstays (Option.some.inj hnext ▸ rfl)
      case h_3 => cases hnext

theorem bounded_of_prunesAt {a : Action} (hnext : w.next a = some w')
    (hprunes : w.prunesAt a = true) : w'.Bounded := by
  cases a with
  | finishJob id state error now => exact Option.some.inj hnext ▸ pruneJobs_bounded _
  | publish id =>
      obtain ⟨call, hcall, hstep⟩ := Option.bind_eq_some_iff.1 hnext
      simp only [prunesAt, hcall, Option.any_some] at hprunes
      obtain ⟨job, hjob⟩ := contains_eq_true_iff.1 hprunes
      by_cases hall : call.staged.length = call.pending.length
      · rw [if_pos hall, Option.some.injEq, publish_eq hjob] at hstep
        exact hstep ▸ pruneJobs_bounded _
      · rw [if_neg hall] at hstep
        cases hstep
  | beginJob | store | write | unwind | snapshot | save | delete => cases hprunes

theorem Sound.historyLaw (h : w.Sound) {a : Action} (hcalm : w.calm a = true) :
    w.HistoryLaw a where
  removes w' hnext p hp hp' := by
    obtain ⟨hdurable, hremovable⟩ := h.removes hnext hp hp'
    have hpending := mt mem_pending.2 hremovable.pending
    rw [not_or] at hpending
    exact ⟨fun hlive => hremovable.live ⟨hdurable, hlive⟩, hremovable.history, hpending⟩
  history w' hnext p hp := (h.next hcalm hnext).safe.history hp
  running w' hnext id job hjob hstate hends := h.running hnext hjob hstate hends
  bounded w' hnext hprunes := bounded_of_prunesAt hnext hprunes

end World

open MediaHistory.World

/-- In every run whose steps meet the condition, the history stays consistent with the files. -/
theorem history_consistent (w : World) (hw : w.Settled) (actions : List Action)
    (h : Meets World.next (fun w a => w.calm a = true) w actions) :
    Meets World.next HistoryLaw w actions :=
  Meets.of_invariant (fun _ _ _ hsound hcalm hnext => hsound.next hcalm hnext)
    (fun _ _ hsound hcalm => hsound.historyLaw hcalm) hw.sound h

private def png (bytes : ℕ) : PendingMediaOutput := ⟨"image/png", ".png".toList, bytes⟩

private def persistOnce : List Action := [.snapshot, .save true, .delete]

/-- A job stores its outputs twice, the second time one output fewer, and the file that is not one
of them any more is deleted. -/
theorem history_consistent_twice :
    Meets World.next HistoryLaw { durable := true }
      ([.beginJob "m" "image" [] 0] ++ persistOnce ++
        [.store 0 1 [png 4, png 5], .write 0 .written, .write 0 .written, .publish 0] ++
        persistOnce ++ [.store 1 1 [png 6], .write 1 .written, .publish 1] ++ persistOnce ++
        [.delete, .delete, .finishJob 1 .completed "" 1] ++ persistOnce) :=
  history_consistent _ (settled_new true ∅) _ (by decide +kernel)

private def storedAgain : List Action :=
  [.beginJob "m" "image" [] 0, .store 0 1 [png 4], .write 0 .written, .publish 0,
    .store 1 1 [png 6, png 0], .write 1 .written, .write 1 .written]

/-- The second call fails and removes the output that the job has from the first. -/
theorem storedAgain_removesLiveFile :
    ¬ Meets World.next HistoryLaw { durable := true } (storedAgain ++ [.unwind 1]) := by
  intro hlaw
  have hrun : (exec World.next { durable := true } storedAgain).map (fun w =>
      (decide ("image-1-1.png".toList ∈ w.files), decide ("image-1-1.png".toList ∈ w.liveNames),
        (w.next (.unwind 1)).map fun w' => decide ("image-1-1.png".toList ∈ w'.files))) =
      some (true, true, some false) := by decide +kernel
  obtain ⟨w, hexec, hw⟩ := Option.map_eq_some_iff.1 hrun
  simp only [Prod.mk.injEq, decide_eq_true_eq, Option.map_eq_some_iff, decide_eq_false_iff_not]
    at hw
  obtain ⟨hfile, hlive, w', hnext, hgone⟩ := hw
  exact ((hlaw.last hexec).removes w' hnext _ hfile hgone).1 hlive


end InferDeck.Gateway.MediaHistory
