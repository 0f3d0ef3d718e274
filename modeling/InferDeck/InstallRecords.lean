import InferDeck.InstallCalls

/-!
# What the store has told

A start has a flag of its own. A cancel that is accepted raises it before the start goes on to
install its model, and a model is only registered by a start that has gone on, after every artifact
has been verified.
-/

namespace InferDeck.Gateway.InstallJobs

open Function InferDeck.Foundation InferDeck.Model ModelStore

/-- The entry under a key is the one that has been put there. -/
theorem eq_of_lookup_insert {α β : Type} [DecidableEq α] {m : Map α β} {k : α} {v w : β}
    (h : (m.insert k v).lookup k = some w) : v = w :=
  Option.some.inj ((AList.lookup_insert m).symm.trans h)

section Count

variable {α β : Type} [DecidableEq α] {m : Map α β} {k : α} {v : β} (p : α → β → Bool)

theorem count_erase_self :
    Map.count (m.erase k) p = Map.count m fun k' v' => decide (k' ≠ k) && p k' v' := by
  have hothers : Map.count (m.erase k) p =
      Map.count (m.erase k) fun k' v' => decide (k' ≠ k) && p k' v' := by
    refine Map.count_congr fun k' v' hlookup => ?_
    rw [decide_eq_true (Map.lookup_erase_eq_some_iff.1 hlookup).1, Bool.true_and]
  rw [hothers]
  cases hlookup : m.lookup k with
  | none =>
      have hsame : m.erase k = m :=
        AList.ext (List.kerase_of_notMem_keys (AList.lookup_eq_none.1 hlookup))
      rw [hsame]
  | some w =>
      rw [← Map.count_erase hlookup fun k' v' => decide (k' ≠ k) && p k' v']
      simp

/-- An entry counts besides those under other keys. -/
theorem count_others (hlookup : m.lookup k = some v) : Map.count m p =
    Map.count m (fun k' v' => decide (k' ≠ k) && p k' v') + (p k v).toNat := by
  rw [← count_erase_self, Map.count_erase hlookup]

theorem count_insert_self : Map.count (m.insert k v) p =
    Map.count m (fun k' v' => decide (k' ≠ k) && p k' v') + (p k v).toNat := by
  rw [← count_erase_self, Map.count, AList.entries_insert, List.countP_cons]
  cases p k v <;> rfl

end Count

namespace Event

/-- The event says nothing about a start but what an artifact was like. -/
def quiet : Event → Bool
  | returned _ _ => true
  | matched _ _ _ _ => true
  | _ => false

end Event

namespace Store

/-- What an entry of the store's jobs goes by. -/
structure Sound (s : Store) (id : ℕ) (job : StoreDownload) : Prop where
  flagged : (s.cancellations.lookup id).isSome = true
  single : job.artifacts.length ≤ 1 → job.artifacts = [job.file]
  installed : job.state = .installed → ∃ flag, s.cancellations.lookup id = some flag ∧
    .registered flag job.modelName job.artifacts ∈ s.log
  final : .ended id .installed ∈ s.log → job.state = .installed

def activeInstalls (s : Store) : ℕ := Map.count s.downloads fun _ job => job.state.active

structure Told (s : Store) : Prop where
  fresh : ∀ id flag, s.cancellations.lookup id = some flag → flag < s.nextFlag
  owned : ∀ id id' flag, s.cancellations.lookup id = some flag →
    s.cancellations.lookup id' = some flag → id = id'
  accepted : ∀ flag, .accepted flag ∈ s.log → flag < s.nextFlag ∧ s.flags flag = true
  committed : ∀ flag, .committed flag ∈ s.log → flag < s.nextFlag ∧ s.flags flag = false
  committing : ∀ flag, .committed flag ∈ s.log → ∀ id job, s.cancellations.lookup id = some flag →
    s.downloads.lookup id = some job → job.state.active = true → id ∈ s.committingInstalls
  registered : ∀ flag name artifacts, .registered flag name artifacts ∈ s.log →
    .committed flag ∈ s.log ∧ ∀ artifact ∈ artifacts, Verified s.log flag artifact
  sound : ∀ id job, s.downloads.lookup id = some job → s.Sound id job
  ended : ∀ id state, .ended id state ∈ s.log → id < s.nextId
  active : s.activeInstalls ≤ maxActiveInstalls
  checked : ∀ t worker, s.threads t = some worker → s.Checked worker.id worker.pc

variable {s s' : Store} {id j t k : ℕ} {pc pc' : WorkerPc}

theorem Progress.mono {run : Run} {rest : List StoreFile} (h : s.Progress id run rest)
    (hlog : s.log ⊆ s'.log) (hcurrent : s.Current id run → s'.Current id run) :
    s'.Progress id run rest := by
  obtain ⟨hrun, done, hartifacts, hdone⟩ := h
  refine ⟨hcurrent hrun, done, hartifacts, fun artifact hartifact => ?_⟩
  obtain ⟨size, checksum, hmem, hmatch⟩ := hdone artifact hartifact
  exact ⟨size, checksum, hlog hmem, hmatch⟩

/-- What a worker knows stays so while its start is the last. -/
theorem Checked.mono (h : s.Checked id pc) (hlog : s.log ⊆ s'.log)
    (hcurrent : ∀ run, s.Current id run → s'.Current id run) : s'.Checked id pc := by
  have hcommitted : ∀ {run}, s.Committed id run → s'.Committed id run := fun h =>
    ⟨h.1.mono hlog (hcurrent _), hlog h.2⟩
  cases pc with
  | begin => trivial
  | inspect run => exact ⟨hcurrent run h.1, h.2⟩
  | transfer run exceeded => exact ⟨hcurrent run h.1, h.2⟩
  | verify run => exact ⟨hcurrent run h.1, h.2⟩
  | stage run => exact hcurrent run h
  | nextArtifact run rest completed => exact Progress.mono h hlog (hcurrent run)
  | transferArtifact run artifact rest completed => exact Progress.mono h hlog (hcurrent run)
  | verifyArtifact run artifact rest completed => exact Progress.mono h hlog (hcurrent run)
  | placeArtifact run artifact rest completed => exact Progress.mono h hlog (hcurrent run)
  | finishArtifact run artifact rest completed => exact Progress.mono h hlog (hcurrent run)
  | commit run => exact Progress.mono h hlog (hcurrent run)
  | place run => exact hcommitted h
  | publish run => exact hcommitted h
  | save run => exact hcommitted h
  | register run => exact hcommitted h
  | withdraw run error => exact hcommitted h
  | finish state error =>
      refine ⟨h.1, fun hinstalled => ?_⟩
      obtain ⟨run, hrun, hmem⟩ := h.2 hinstalled
      exact ⟨run, hcurrent run hrun, hlog hmem⟩
  | quantizing name => trivial
  | leaving => trivial
  | exited => trivial

/-- A thread that does not work knows nothing. -/
theorem checked_of_idle (hphase : pc.phase ≠ .working) : s.Checked id pc := by
  cases pc with
  | begin => trivial
  | quantizing name => trivial
  | leaving => trivial
  | exited => trivial
  | _ => exact absurd rfl hphase

theorem Sound.mono {job : StoreDownload} (h : s.Sound id job)
    (hcancel : s'.cancellations.lookup id = s.cancellations.lookup id) (hlog : s.log ⊆ s'.log)
    (hended : .ended id .installed ∈ s'.log → .ended id .installed ∈ s.log) : s'.Sound id job where
  flagged := hcancel ▸ h.flagged
  single := h.single
  installed hinstalled := by
    obtain ⟨flag, hflag, hmem⟩ := h.installed hinstalled
    exact ⟨flag, hcancel.trans hflag, hlog hmem⟩
  final hmem := h.final (hended hmem)

/-- What a step keeps that is about one job. -/
structure Changes (s s' : Store) (j : ℕ) : Prop where
  jobs : ∀ id, id ≠ j → s'.downloads.lookup id = s.downloads.lookup id
  cancellations : ∀ id, id ≠ j → s'.cancellations.lookup id = s.cancellations.lookup id
  committing : ∀ id, id ≠ j → id ∈ s.committingInstalls → id ∈ s'.committingInstalls
  flags : ∀ flag, flag < s.nextFlag → s'.flags flag = s.flags flag
  nextFlag : s.nextFlag ≤ s'.nextFlag
  nextId : s.nextId ≤ s'.nextId
  log : s.log ⊆ s'.log
  new : ∀ event ∈ s'.log, event ∈ s.log ∨ event.quiet = true ∨ ∃ state, event = .ended j state
  born : j < s'.nextId
  flag : ∀ flag, s'.cancellations.lookup j = some flag →
    s.cancellations.lookup j = some flag ∨ flag = s.nextFlag ∧ flag < s'.nextFlag
  sound : ∀ job, s'.downloads.lookup j = some job → s'.Sound j job
  active : ∀ job', s'.downloads.lookup j = some job' → job'.state.active = true →
    (∀ flag, s'.cancellations.lookup j = some flag → flag = s.nextFlag) ∨
      (∃ job, s.downloads.lookup j = some job ∧ job.state.active = true) ∧
        (j ∈ s.committingInstalls → j ∈ s'.committingInstalls)

theorem Changes.old (h : s.Changes s' j) {event : Event} (hmem : event ∈ s'.log)
    (hquiet : event.quiet = false) (hended : ∀ state, event ≠ .ended j state) : event ∈ s.log := by
  rcases h.new event hmem with hold | hnew | ⟨state, rfl⟩
  · exact hold
  · exact absurd (hquiet.symm.trans hnew) Bool.false_ne_true
  · exact absurd rfl (hended state)

theorem Told.change (h : s.Told) (hchange : s.Changes s' j)
    (hactive : s'.activeInstalls ≤ maxActiveInstalls)
    (hthreads : ∀ t worker, s'.threads t = some worker → s.threads t = some worker)
    (hchecked : ∀ t worker, s.threads t = some worker → worker.id = j →
      s.Checked worker.id worker.pc → s'.Checked worker.id worker.pc) : s'.Told where
  fresh id flag hflag := by
    by_cases hid : id = j
    · subst hid
      rcases hchange.flag flag hflag with hold | ⟨-, hnew⟩
      · exact (h.fresh id flag hold).trans_le hchange.nextFlag
      · exact hnew
    · rw [hchange.cancellations id hid] at hflag
      exact (h.fresh id flag hflag).trans_le hchange.nextFlag
  owned id id' flag hflag hflag' := by
    have hother : ∀ id, id ≠ j → s'.cancellations.lookup id = some flag →
        s'.cancellations.lookup j = some flag → id = j := by
      intro id hid hflag hj
      rw [hchange.cancellations id hid] at hflag
      rcases hchange.flag flag hj with hold | ⟨hnew, -⟩
      · exact h.owned id j flag hflag hold
      · exact absurd (h.fresh id flag hflag) (hnew ▸ Nat.lt_irrefl _)
    by_cases hid : id = j
    · by_cases hid' : id' = j
      · exact hid.trans hid'.symm
      · exact hid.trans (hother id' hid' hflag' (hid ▸ hflag)).symm
    · by_cases hid' : id' = j
      · exact (hother id hid hflag (hid' ▸ hflag')).trans hid'.symm
      · rw [hchange.cancellations id hid] at hflag
        rw [hchange.cancellations id' hid'] at hflag'
        exact h.owned id id' flag hflag hflag'
  accepted flag hmem := by
    have hold := hchange.old hmem rfl fun _ h => by cases h
    obtain ⟨hlt, hraised⟩ := h.accepted flag hold
    exact ⟨hlt.trans_le hchange.nextFlag, (hchange.flags flag hlt).trans hraised⟩
  committed flag hmem := by
    have hold := hchange.old hmem rfl fun _ h => by cases h
    obtain ⟨hlt, hraised⟩ := h.committed flag hold
    exact ⟨hlt.trans_le hchange.nextFlag, (hchange.flags flag hlt).trans hraised⟩
  committing flag hmem id job hflag hlookup hstate := by
    have hold := hchange.old hmem rfl fun _ h => by cases h
    have hlt := (h.committed flag hold).1
    by_cases hid : id = j
    · subst hid
      rcases hchange.flag flag hflag with hbefore | ⟨hnew, -⟩
      · rcases hchange.active job hlookup hstate with hfresh | ⟨⟨before, hjob, hactive⟩, hkept⟩
        · exact absurd hlt (hfresh flag hflag ▸ Nat.lt_irrefl _)
        · exact hkept (h.committing flag hold id before hbefore hjob hactive)
      · exact absurd hlt (hnew ▸ Nat.lt_irrefl _)
    · rw [hchange.cancellations id hid] at hflag
      rw [hchange.jobs id hid] at hlookup
      exact hchange.committing id hid (h.committing flag hold id job hflag hlookup hstate)
  registered flag name artifacts hmem := by
    have hold := hchange.old hmem rfl fun _ h => by cases h
    obtain ⟨hcommitted, hverified⟩ := h.registered flag name artifacts hold
    refine ⟨hchange.log hcommitted, fun artifact hartifact => ?_⟩
    obtain ⟨size, checksum, hmem', hmatch⟩ := hverified artifact hartifact
    exact ⟨size, checksum, hchange.log hmem', hmatch⟩
  sound id job hlookup := by
    by_cases hid : id = j
    · exact hid ▸ hchange.sound job (hid ▸ hlookup)
    · rw [hchange.jobs id hid] at hlookup
      exact (h.sound id job hlookup).mono (hchange.cancellations id hid) hchange.log
        fun hmem => hchange.old hmem rfl fun _ h => hid (Event.ended.inj h).1
  ended id state hmem := by
    by_cases hid : id = j
    · exact hid ▸ hchange.born
    · exact (h.ended id state (hchange.old hmem rfl fun _ h => hid (Event.ended.inj h).1)).trans_le
        hchange.nextId
  active := hactive
  checked t worker hworker := by
    have hbefore := hthreads t worker hworker
    by_cases hid : worker.id = j
    · exact hchecked t worker hbefore hid (h.checked t worker hbefore)
    · refine (h.checked t worker hbefore).mono hchange.log fun run hrun => ?_
      unfold Current
      rw [hchange.cancellations _ hid, hchange.jobs _ hid]
      exact hrun

/-- A step that the store has told nothing about. -/
structure Tacit (s s' : Store) : Prop where
  downloads : s'.downloads = s.downloads
  cancellations : s'.cancellations = s.cancellations
  committing : s'.committingInstalls = s.committingInstalls
  flags : s'.flags = s.flags
  nextFlag : s'.nextFlag = s.nextFlag
  nextId : s.nextId ≤ s'.nextId
  log : s.log ⊆ s'.log
  new : ∀ event ∈ s'.log, event ∈ s.log ∨ event.quiet = true

theorem Tacit.old (h : s.Tacit s') {event : Event} (hmem : event ∈ s'.log)
    (hquiet : event.quiet = false) : event ∈ s.log :=
  (h.new event hmem).resolve_right fun hnew => Bool.false_ne_true (hquiet.symm.trans hnew)

theorem Tacit.checked (h : s.Tacit s') (hchecked : s.Checked id pc) : s'.Checked id pc := by
  refine hchecked.mono h.log fun run hrun => ?_
  unfold Current
  rw [h.cancellations, h.downloads]
  exact hrun

theorem Tacit.record {event : Event} (hquiet : event.quiet = true) : s.Tacit (s.record event) where
  downloads := rfl
  cancellations := rfl
  committing := rfl
  flags := rfl
  nextFlag := rfl
  nextId := le_rfl
  log := List.subset_cons_self event s.log
  new other hmem := by
    rcases List.mem_cons.1 hmem with rfl | hold
    · exact .inr hquiet
    · exact .inl hold

theorem Told.tacit (h : s.Told) (htacit : s.Tacit s')
    (hchecked : ∀ t worker, s'.threads t = some worker →
      s.threads t = some worker ∨ s'.Checked worker.id worker.pc) : s'.Told where
  fresh := by
    rw [htacit.cancellations, htacit.nextFlag]
    exact h.fresh
  owned := by
    rw [htacit.cancellations]
    exact h.owned
  accepted flag hmem := by
    rw [htacit.nextFlag, htacit.flags]
    exact h.accepted flag (htacit.old hmem rfl)
  committed flag hmem := by
    rw [htacit.nextFlag, htacit.flags]
    exact h.committed flag (htacit.old hmem rfl)
  committing flag hmem := by
    rw [htacit.cancellations, htacit.downloads, htacit.committing]
    exact h.committing flag (htacit.old hmem rfl)
  registered flag name artifacts hmem := by
    obtain ⟨hcommitted, hverified⟩ := h.registered flag name artifacts (htacit.old hmem rfl)
    refine ⟨htacit.log hcommitted, fun artifact hartifact => ?_⟩
    obtain ⟨size, checksum, hmem', hmatch⟩ := hverified artifact hartifact
    exact ⟨size, checksum, htacit.log hmem', hmatch⟩
  sound id job hlookup := by
    rw [htacit.downloads] at hlookup
    exact (h.sound id job hlookup).mono (by rw [htacit.cancellations]) htacit.log
      fun hmem => htacit.old hmem rfl
  ended id state hmem := (h.ended id state (htacit.old hmem rfl)).trans_le htacit.nextId
  active := by
    unfold activeInstalls
    rw [htacit.downloads]
    exact h.active
  checked t worker hworker := by
    rcases hchecked t worker hworker with hbefore | hnew
    · exact htacit.checked (h.checked t worker hbefore)
    · exact hnew

/-- A step of a thread that knows what it needs. -/
theorem Told.goto (h : s.Told) (hchecked : s.Checked id pc) : (s.goto t ⟨id, pc⟩).Told := by
  have htacit : s.Tacit (s.goto t ⟨id, pc⟩) :=
    ⟨rfl, rfl, rfl, rfl, rfl, le_rfl, List.Subset.refl _, fun _ hmem => .inl hmem⟩
  refine h.tacit htacit fun t' worker hworker => ?_
  by_cases ht : t' = t
  · subst ht
    obtain rfl := Option.some.inj ((update_self t' _ s.threads).symm.trans hworker)
    exact .inr (htacit.checked hchecked)
  · exact .inl ((update_of_ne ht _ _).symm.trans hworker)

theorem Told.record (h : s.Told) {event : Event} (hquiet : event.quiet = true) :
    (s.record event).Told := h.tacit (.record hquiet) fun _ _ hworker => .inl hworker

theorem Told.answer (h : s.Told) (result : Result ℕ) : (s.answer k result).Told := by
  have hrecord : s.Tacit (s.record (.returned k result)) := .record rfl
  exact h.tacit { hrecord with } fun _ _ hworker => .inl hworker

theorem Told.same (h : s.Told) {workers : Map ℕ ℕ} {calls : ℕ → Option Call}
    {installed : Map String Json} {registry : ModelRegistry} :
    Told { s with workers, calls, installed, registry } :=
  h.tacit ⟨rfl, rfl, rfl, rfl, rfl, le_rfl, List.Subset.refl _, fun _ hmem => .inl hmem⟩
    fun _ _ hworker => .inl hworker

/-- A cancel is accepted only of a start that has not gone on. -/
theorem Told.cancel (h : s.Told) (id : ℕ) : (s.cancel id).2.Told := by
  unfold Store.cancel
  split
  · exact h
  next flag hflag =>
    split_ifs with hcommitting
    · exact h
    split
    · exact h
    next job hlookup =>
      split_ifs with hactive
      · exact h
      have hopen : .committed flag ∉ s.log := fun hmem =>
        hcommitting (h.committing flag hmem id job hflag hlookup (by simpa using hactive))
      refine ⟨h.fresh, h.owned, fun other hmem => ?_, fun other hmem => ?_, fun other hmem => ?_,
        fun other name artifacts hmem => ?_, fun other job' hlookup' => ?_,
        fun other state hmem => ?_, h.active, fun t worker hworker => ?_⟩
      · rcases List.mem_cons.1 hmem with hnew | hold
        · obtain rfl := Event.accepted.inj hnew
          exact ⟨h.fresh id other hflag, update_self ..⟩
        · obtain ⟨hlt, hraised⟩ := h.accepted other hold
          refine ⟨hlt, ?_⟩
          by_cases hother : other = flag
          · rw [hother]
            exact update_self ..
          · exact (update_of_ne hother _ _).trans hraised
      · have hold : .committed other ∈ s.log :=
          (List.mem_cons.1 hmem).resolve_left fun h => by cases h
        obtain ⟨hlt, hraised⟩ := h.committed other hold
        refine ⟨hlt, (update_of_ne ?_ _ _).trans hraised⟩
        rintro rfl
        exact hopen hold
      · exact h.committing other ((List.mem_cons.1 hmem).resolve_left fun h => by cases h)
      · obtain ⟨hcommitted, hverified⟩ := h.registered other name artifacts
          ((List.mem_cons.1 hmem).resolve_left fun h => by cases h)
        exact ⟨List.mem_cons_of_mem _ hcommitted, fun artifact hartifact =>
          (hverified artifact hartifact).cons _⟩
      · exact (h.sound other job' hlookup').mono rfl (List.subset_cons_self _ _)
          fun hmem => (List.mem_cons.1 hmem).resolve_left fun h => by cases h
      · exact h.ended other state ((List.mem_cons.1 hmem).resolve_left fun h => by cases h)
      · exact (h.checked t worker hworker).mono (List.subset_cons_self _ _) fun run hrun => hrun

/-- A start that goes on has not been cancelled. -/
theorem Told.commit (h : s.Told) {flag : ℕ} (hflag : s.cancellations.lookup id = some flag)
    (hraised : s.flags flag = false) : Told ({ s with
      committingInstalls := insert id s.committingInstalls }.record (.committed flag)) where
  fresh := h.fresh
  owned := h.owned
  accepted other hmem := h.accepted other ((List.mem_cons.1 hmem).resolve_left fun h => by cases h)
  committed other hmem := by
    rcases List.mem_cons.1 hmem with hnew | hold
    · obtain rfl := Event.committed.inj hnew
      exact ⟨h.fresh id other hflag, hraised⟩
    · exact h.committed other hold
  committing other hmem id' job hflag' hlookup hstate := by
    rcases List.mem_cons.1 hmem with hnew | hold
    · obtain rfl := Event.committed.inj hnew
      exact Finset.mem_insert.2 (.inl (h.owned id' id other hflag' hflag))
    · exact Finset.mem_insert_of_mem (h.committing other hold id' job hflag' hlookup hstate)
  registered other name artifacts hmem := by
    obtain ⟨hcommitted, hverified⟩ := h.registered other name artifacts
      ((List.mem_cons.1 hmem).resolve_left fun h => by cases h)
    exact ⟨List.mem_cons_of_mem _ hcommitted, fun artifact hartifact =>
      (hverified artifact hartifact).cons _⟩
  sound other job hlookup := (h.sound other job hlookup).mono rfl (List.subset_cons_self _ _)
    fun hmem => (List.mem_cons.1 hmem).resolve_left fun h => by cases h
  ended other state hmem := h.ended other state
    ((List.mem_cons.1 hmem).resolve_left fun h => by cases h)
  active := h.active
  checked t worker hworker := (h.checked t worker hworker).mono (List.subset_cons_self _ _)
    fun run hrun => hrun

/-- A model is registered with what has been verified. -/
theorem Told.register (h : s.Told) {run : Run} (hcommitted : s.Committed id run)
    (registry : ModelRegistry) : Told ({ s with registry }.record
      (.registered run.cancelled run.job.modelName run.job.artifacts)) where
  fresh := h.fresh
  owned := h.owned
  accepted other hmem := h.accepted other ((List.mem_cons.1 hmem).resolve_left fun h => by cases h)
  committed other hmem := h.committed other
    ((List.mem_cons.1 hmem).resolve_left fun h => by cases h)
  committing other hmem := h.committing other
    ((List.mem_cons.1 hmem).resolve_left fun h => by cases h)
  registered other name artifacts hmem := by
    rcases List.mem_cons.1 hmem with hnew | hold
    · obtain ⟨rfl, rfl, rfl⟩ := Event.registered.inj hnew
      obtain ⟨⟨hcurrent, done, hartifacts, hdone⟩, hmem'⟩ := hcommitted
      refine ⟨List.mem_cons_of_mem _ hmem', fun artifact hartifact => (hdone artifact ?_).cons _⟩
      rw [hartifacts, List.append_nil] at hartifact
      exact hartifact
    · obtain ⟨hcommitted', hverified⟩ := h.registered other name artifacts hold
      exact ⟨List.mem_cons_of_mem _ hcommitted', fun artifact hartifact =>
        (hverified artifact hartifact).cons _⟩
  sound other job hlookup := (h.sound other job hlookup).mono rfl (List.subset_cons_self _ _)
    fun hmem => (List.mem_cons.1 hmem).resolve_left fun h => by cases h
  ended other state hmem := h.ended other state
    ((List.mem_cons.1 hmem).resolve_left fun h => by cases h)
  active := h.active
  checked t worker hworker := (h.checked t worker hworker).mono (List.subset_cons_self _ _)
    fun run hrun => hrun

/-- An entry that is written again. -/
theorem Told.rewrite (h : s.Told) {job job' : StoreDownload} (hborn : j < s.nextId)
    (hlookup : s.downloads.lookup j = some job) (hname : job'.modelName = job.modelName)
    (hartifacts : job'.artifacts = job.artifacts ∧ job'.file = job.file)
    (hstate : job'.state.active = true → job.state.active = true)
    (hinstalled : job'.state = .installed ↔ job.state = .installed)
    (reservedNames : Map String ℕ) :
    Told { s with downloads := s.downloads.insert j job', reservedNames } := by
  have hsame : ∀ {run}, s.Current j run → Current
      { s with downloads := s.downloads.insert j job', reservedNames } j run := by
    rintro run ⟨hflag, before, hbefore, hrun⟩
    obtain rfl := Option.some.inj (hlookup.symm.trans hbefore)
    exact ⟨hflag, job', AList.lookup_insert _, hname.trans hrun.1, hartifacts.1.trans hrun.2⟩
  have hsound := h.sound j job hlookup
  refine h.change (j := j) ⟨fun id hid => AList.lookup_insert_ne hid, fun _ _ => rfl,
    fun _ _ hmem => hmem, fun _ _ => rfl, le_rfl, le_rfl, List.Subset.refl _,
    fun _ hmem => .inl hmem, hborn, fun _ hflag => .inl hflag, fun other hother => ?_,
    fun other hother hactive => .inr ⟨⟨job, hlookup, hstate ?_⟩, id⟩⟩ ?_
    (fun _ _ hworker => hworker) fun t worker _ hid hchecked => ?_
  · obtain rfl := eq_of_lookup_insert hother
    exact
      { flagged := hsound.flagged
        single := by
          rw [hartifacts.1, hartifacts.2]
          exact hsound.single
        installed := by
          rw [hinstalled, hname, hartifacts.1]
          exact hsound.installed
        final := fun hmem => hinstalled.2 (hsound.final hmem) }
  · obtain rfl := eq_of_lookup_insert hother
    exact hactive
  · refine le_trans ?_ h.active
    unfold activeInstalls
    rw [count_insert_self]
    refine le_trans (Nat.add_le_add_left (Bool.toNat_le_toNat fun hactive => hstate hactive) _) ?_
    exact (count_others (fun _ (job : StoreDownload) => job.state.active) hlookup).ge
  · subst hid
    exact hchecked.mono (List.Subset.refl _) fun run hrun => hsame hrun

/-- A job is over, and its start is the one that has been registered if it is installed. -/
theorem Told.finish (h : s.Told) {state : JobState} {error : String} {job : StoreDownload}
    (hborn : j < s.nextId) (hlookup : s.downloads.lookup j = some job)
    (hrunning : job.state ≠ .installed) (hchecked : s.Checked j (.finish state error)) :
    (s.finishJob j state error).Told := by
  have hsame : ∀ {run}, s.Current j run → (s.finishJob j state error).Current j run := by
    rintro run ⟨hflag, before, hbefore, hrun⟩
    obtain rfl := Option.some.inj (hlookup.symm.trans hbefore)
    rw [finishJob_eq hlookup]
    exact ⟨hflag, _, AList.lookup_insert _, hrun⟩
  have hinactive : state.active = false := active_of_terminal hchecked.1
  have hlog : s.log ⊆ (s.finishJob j state error).log := by
    rw [finishJob_eq hlookup]
    exact List.subset_cons_self _ _
  have hsound := h.sound j job hlookup
  refine h.change (j := j) ?_ ?_ (fun t worker hworker => ?_) fun t worker _ hid hworker => ?_
  · rw [finishJob_eq hlookup]
    refine ⟨fun id hid => AList.lookup_insert_ne hid, fun _ _ => rfl,
      fun id hid hmem => Finset.mem_erase.2 ⟨hid, hmem⟩, fun _ _ => rfl, le_rfl, le_rfl,
      List.subset_cons_self _ _, fun event hmem => ?_, hborn, fun _ hflag => .inl hflag,
      fun other hother => ?_, fun other hother hactive => ?_⟩
    · rcases List.mem_cons.1 hmem with rfl | hold
      · exact .inr (.inr ⟨state, rfl⟩)
      · exact .inl hold
    · obtain rfl := eq_of_lookup_insert hother
      refine ⟨hsound.flagged, hsound.single, fun hinstalled => ?_, fun hmem => ?_⟩
      · obtain ⟨run, ⟨hflag, before, hbefore, hname, hartifacts⟩, hmem⟩ := hchecked.2 hinstalled
        obtain rfl := Option.some.inj (hlookup.symm.trans hbefore)
        dsimp only
        rw [hname, hartifacts]
        exact ⟨run.cancelled, hflag, List.mem_cons_of_mem _ hmem⟩
      · rcases List.mem_cons.1 hmem with hnew | hold
        · exact (Event.ended.inj hnew).2.symm
        · exact absurd (hsound.final hold) hrunning
    · obtain rfl := eq_of_lookup_insert hother
      exact absurd (hinactive.symm.trans hactive) Bool.false_ne_true
  · rw [finishJob_eq hlookup]
    refine le_trans (le_of_eq (count_insert_self _)) (le_trans ?_ h.active)
    dsimp only
    rw [hinactive, Bool.toNat_false, Nat.add_zero]
    exact Map.count_le_count fun _ _ _ hactive => (Bool.and_eq_true _ _ ▸ hactive).2
  · rw [finishJob_eq hlookup] at hworker
    exact hworker
  · subst hid
    exact hworker.mono hlog fun run hrun => hsame hrun

/-- A job is forgotten that nobody works on. -/
theorem Told.erase (h : s.Told) (hborn : j < s.nextId)
    (hidle : ∀ t worker, s.threads t = some worker → worker.id = j → worker.pc.phase ≠ .working)
    (reservedNames : Map String ℕ) : Told { s with
      downloads := s.downloads.erase j
      cancellations := s.cancellations.erase j
      reservedNames } := by
  refine h.change (j := j) ⟨fun id hid => AList.lookup_erase_ne hid,
    fun id hid => AList.lookup_erase_ne hid, fun _ _ hmem => hmem, fun _ _ => rfl, le_rfl, le_rfl,
    List.Subset.refl _, fun _ hmem => .inl hmem, hborn, fun flag hflag => ?_,
    fun job hlookup => ?_, fun job hlookup => ?_⟩ ?_ (fun _ _ hworker => hworker)
    fun t worker hworker hid _ => checked_of_idle (hidle t worker hworker hid)
  · cases (AList.lookup_erase j s.cancellations).symm.trans hflag
  · cases (AList.lookup_erase j s.downloads).symm.trans hlookup
  · cases (AList.lookup_erase j s.downloads).symm.trans hlookup
  · refine le_trans (le_of_eq (count_erase_self _)) (le_trans ?_ h.active)
    exact Map.count_le_count fun _ _ _ hactive => (Bool.and_eq_true _ _ ▸ hactive).2

/-- A job gets a new flag. -/
theorem Told.enter (h : s.Told) {job : StoreDownload} {nextId : ℕ} (hnextId : s.nextId ≤ nextId)
    (hborn : j < nextId) (hqueued : job.state = .queued)
    (hsingle : job.artifacts.length ≤ 1 → job.artifacts = [job.file])
    (hfinal : .ended j .installed ∉ s.log)
    (hcount : Map.count s.downloads (fun id job => decide (id ≠ j) && job.state.active) <
      maxActiveInstalls)
    (hidle : ∀ t worker, s.threads t = some worker → worker.id = j → worker.pc.phase ≠ .working)
    (reservedNames workers : _) : Told { s with
      nextId
      workers
      reservedNames
      downloads := s.downloads.insert j job
      cancellations := s.cancellations.insert j s.nextFlag
      flags := update s.flags s.nextFlag false
      nextFlag := s.nextFlag + 1 } := by
  refine h.change (j := j) ⟨fun id hid => AList.lookup_insert_ne hid,
    fun id hid => AList.lookup_insert_ne hid, fun _ _ hmem => hmem,
    fun flag hflag => update_of_ne (Nat.ne_of_lt hflag) _ _, Nat.le_succ _, hnextId,
    List.Subset.refl _, fun _ hmem => .inl hmem, hborn, fun flag hflag => ?_,
    fun job' hlookup => ?_, fun job' hlookup hactive => .inl fun flag hflag => ?_⟩ ?_
    (fun _ _ hworker => hworker)
    fun t worker hworker hid _ => checked_of_idle (hidle t worker hworker hid)
  · obtain rfl := eq_of_lookup_insert hflag
    exact .inr ⟨rfl, Nat.lt_succ_self _⟩
  · obtain rfl := eq_of_lookup_insert hlookup
    refine ⟨by rw [AList.lookup_insert]; rfl, hsingle, fun hinstalled => ?_,
      fun hmem => absurd hmem hfinal⟩
    cases hqueued.symm.trans hinstalled
  · exact (eq_of_lookup_insert hflag).symm
  · refine le_trans (le_of_eq (count_insert_self _)) ?_
    exact (Nat.add_le_add_left (Bool.toNat_le _) _).trans hcount

end Store

end InferDeck.Gateway.InstallJobs
