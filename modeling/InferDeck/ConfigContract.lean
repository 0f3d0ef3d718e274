import InferDeck.ConfigRepository
import InferDeck.Execution

/-!
# The contract of the configuration repository

A call succeeds only for the revision of the current text, and then the file holds exactly the text
that was validated. After a call that fails everything is to be as it was before. That holds of an
error wherever the rollback undoes the transform, except where an active file without text is
removed; it fails of an exception that comes after an effect.
-/

namespace InferDeck.Gateway

open InferDeck.Foundation

variable {C G : Type}

inductive ConfigCall (G : Type) where
  | writeBase (expected : String) (text : Bytes) (fault : Option WriteFault)
  | writeActive (expected : String) (text : Bytes) (fault : Option WriteFault)
  | resetActive (expected : String) (fault : Option String)
  | transactActive (expected : String) (t : ActiveTransaction G) (policy : ReloadPolicy)
      (fault : Option WriteFault)

namespace ConfigCall

def expected : ConfigCall G → String
  | .writeBase expected .. => expected
  | .writeActive expected .. => expected
  | .resetActive expected _ => expected
  | .transactActive expected .. => expected

end ConfigCall

namespace World

variable [Setoid G]

/-- The files and the configuration in memory are the same, and the state of the callbacks is the
same to all who look at it. -/
structure Same (w w' : World C G) : Prop where
  files : w'.files = w.files
  config : w'.config = w.config
  state : w'.state ≈ w.state

theorem Same.refl (w : World C G) : w.Same w := ⟨rfl, rfl, Setoid.refl _⟩

end World

namespace ConfigRepository

variable (repository : ConfigRepository C)

def perform (w : World C G) : ConfigCall G → Outcome ConfigCommit × World C G
  | .writeBase expected text fault => repository.writeBase expected text fault w
  | .writeActive expected text fault => repository.writeActive expected text fault w
  | .resetActive expected fault => repository.resetActive expected fault w
  | .transactActive expected t policy fault =>
      repository.transactActive expected t policy fault w

def next (w : World C G) (call : ConfigCall G) : Option (World C G) :=
  some (repository.perform w call).2

def activeText (files : Files) : Bytes :=
  if readFile files repository.activePath = [] then readFile files repository.basePath
  else readFile files repository.activePath

def currentText (files : Files) : ConfigCall G → Bytes
  | .writeBase .. => readFile files repository.basePath
  | _ => repository.activeText files

/-- The file at the path holds exactly the text, which is valid, and no other file has changed. -/
structure Holds (files files' : Files) (path : String) (text : Bytes) (commit : ConfigCommit) :
    Prop where
  valid : repository.validateLocked text = .ok ()
  files : files' = Function.update files path (some text)
  revision : commit.revision = revision text

def Written (w w' : World C G) (commit : ConfigCommit) : ConfigCall G → Prop
  | .writeBase _ text _ =>
      repository.Holds w.files w'.files repository.basePath
        (repository.restoreConfigSecrets text (readFile w.files repository.basePath)) commit
  | .writeActive _ text _ =>
      repository.Holds w.files w'.files repository.activePath
        (repository.restoreConfigSecrets text (repository.activeText w.files)) commit
  | .resetActive _ _ =>
      readFile w'.files repository.activePath = [] ∧
        (∀ path, path ≠ repository.activePath → w'.files path = w.files path) ∧
        commit.revision = revision (readFile w.files repository.basePath)
  | .transactActive _ t _ _ => ∃ current text,
      repository.snapshotLocked w.files = .ok current ∧ t.proposal current w.state = .ok text ∧
        repository.Holds w.files w'.files repository.activePath text commit

variable [Setoid G]

structure CallContract (w : World C G) (call : ConfigCall G) : Prop where
  matched : ∀ commit, (repository.perform w call).1 = .ok commit →
    call.expected = revision (repository.currentText w.files call)
  written : ∀ commit, (repository.perform w call).1 = .ok commit →
    repository.Written w (repository.perform w call).2 commit call
  unchanged : ∀ failure, (repository.perform w call).1 = .error failure →
    w.Same (repository.perform w call).2

/-- A failure of the reload after the active file became `files` leaves nothing behind. For an error
the active file is written back, or removed where it had no text; an exception leaves the files and
the configuration as they are then. -/
def ReloadLeaves (w : World C G) (files : Files) (config : C) : Failure → Prop
  | .error _ => w.files repository.activePath ≠ some []
  | .exception _ => files = w.files ∧ config = w.config

/-- The reload that the call makes once the active file is `files`, where it fails. -/
def ReloadFails (w : World C G) (files : Files) (config : C) (failure : Failure) : Prop :=
  ∃ reload, repository.reload = some reload ∧ reload.run files w.config = (.error failure, config)

structure TransactionCalm (w : World C G) (current : ConfigSnapshot) (t : ActiveTransaction G)
    (policy : ReloadPolicy) (fault : Option WriteFault) : Prop where
  transform : ∀ failure, t.proposal current w.state = .error failure →
    t.leaves current w.state failure ≈ w.state
  validation : ∀ text failure, t.proposal current w.state = .ok text →
    repository.validateLocked text = .error failure → t.leaves current w.state failure ≈ w.state
  writing : ∀ text failure, t.proposal current w.state = .ok text →
    repository.validateLocked text = .ok () →
    (writeAtomicLocked fault repository.activePath text w.files).1 = .error failure →
    t.leaves current w.state failure ≈ w.state
  reloading : ∀ text config failure, t.proposal current w.state = .ok text →
    repository.validateLocked text = .ok () → policy = .afterCommit → fault = none →
    repository.activePath ≠ "" →
    repository.ReloadFails w (Function.update w.files repository.activePath (some text)) config
      failure →
    repository.ReloadLeaves w (Function.update w.files repository.activePath (some text)) config
        failure ∧
      t.leaves current w.state failure ≈ w.state

def Calm (w : World C G) : ConfigCall G → Prop
  | .writeBase .. => True
  | .writeActive expected text fault =>
      let restored := repository.restoreConfigSecrets text (repository.activeText w.files)
      let files := Function.update w.files repository.activePath (some restored)
      ∀ current, repository.snapshotLocked w.files = .ok current →
        expected = current.activeRevision → repository.validateLocked restored = .ok () →
        fault = none → repository.activePath ≠ "" → ∀ config failure,
          repository.ReloadFails w files config failure →
            repository.ReloadLeaves w files config failure
  | .resetActive expected fault =>
      let files := Function.update w.files repository.activePath none
      ∀ current, repository.snapshotLocked w.files = .ok current →
        expected = current.activeRevision → current.hasActive = true → fault = none →
        ∀ config what, ¬ repository.ReloadFails w files config (.exception what)
  | .transactActive expected t policy fault =>
      ∀ current, repository.snapshotLocked w.files = .ok current →
        expected = current.activeRevision → repository.TransactionCalm w current t policy fault

section Snapshot

variable {repository} {files : Files} {current : ConfigSnapshot}

theorem snapshot_eq (h : repository.snapshotLocked files = .ok current) :
    current =
      { base := readFile files repository.basePath
        active := readFile files repository.activePath
        baseRevision := revision (readFile files repository.basePath)
        activeRevision := revision (repository.activeText files)
        hasActive := !(readFile files repository.activePath).isEmpty } := by
  rw [snapshotLocked] at h
  split at h
  · cases h
  · cases h
    rw [activeText]
    cases readFile files repository.activePath <;> rfl

theorem snapshot_source (h : repository.snapshotLocked files = .ok current) :
    (if current.hasActive then current.active else current.base) = repository.activeText files := by
  rw [snapshot_eq h, activeText]
  cases readFile files repository.activePath <;> rfl

theorem readFile_eq_some {path : String} (h : readFile files path ≠ []) :
    path ≠ "" ∧ files path = some (readFile files path) := by
  rw [readFile] at h ⊢
  split_ifs at h ⊢ with hpath
  · exact absurd rfl h
  · refine ⟨hpath, ?_⟩
    cases hfile : files path with
    | none => simp [hfile] at h
    | some text => rfl

/-- The write-back of the active file gives the files as they were, unless the file had no text. -/
theorem restoreActive_eq_iff (h : repository.snapshotLocked files = .ok current)
    (hpath : repository.activePath ≠ "") (text : Option Bytes) :
    repository.restoreActive current (Function.update files repository.activePath text) = files ↔
      files repository.activePath ≠ some [] := by
  rw [restoreActive, snapshot_eq h]
  by_cases hactive : readFile files repository.activePath = []
  · have hread : (files repository.activePath).getD [] = [] := by
      rwa [readFile, if_neg hpath] at hactive
    simp only [hactive, List.isEmpty_nil, Bool.not_true, Bool.false_eq_true, if_false,
      Function.update_idem]
    rw [Function.update_eq_self_iff]
    cases hfile : files repository.activePath with
    | none => simp
    | some text =>
        rw [hfile, Option.getD_some] at hread
        simp [hread]
  · obtain ⟨-, hfile⟩ := readFile_eq_some hactive
    have hset : (!(readFile files repository.activePath).isEmpty) = true := by simpa using hactive
    rw [if_pos hset]
    simp only [writeAtomicLocked, if_neg hpath, Function.update_idem]
    rw [← hfile, Function.update_eq_self]
    simp [hfile, hactive]

end Snapshot

def Answered (w : World C G) (call : ConfigCall G) : Outcome ConfigCommit × World C G → Prop
  | (.ok commit, w') =>
      call.expected = revision (repository.currentText w.files call) ∧
        repository.Written w w' commit call
  | (.error _, w') => w.Same w'

variable {repository} {w : World C G} {call : ConfigCall G}

theorem callContract_iff :
    repository.CallContract w call ↔ repository.Answered w call (repository.perform w call) := by
  rcases hperform : repository.perform w call with ⟨outcome, w'⟩
  cases outcome with
  | ok commit =>
      constructor
      · intro h
        have hwritten := h.written commit (by rw [hperform])
        rw [hperform] at hwritten
        exact ⟨h.matched commit (by rw [hperform]), hwritten⟩
      · rintro ⟨hmatched, hwritten⟩
        refine ⟨fun _ _ => hmatched, fun commit' hok => ?_, fun failure herror => ?_⟩
        · rw [hperform] at hok ⊢
          cases hok
          exact hwritten
        · rw [hperform] at herror
          cases herror
  | error failure =>
      constructor
      · intro h
        have hsame := h.unchanged failure (by rw [hperform])
        rwa [hperform] at hsame
      · intro hsame
        refine ⟨fun commit hok => ?_, fun commit hok => ?_, fun _ _ => ?_⟩
        · rw [hperform] at hok
          cases hok
        · rw [hperform] at hok
          cases hok
        · rwa [hperform]

section Reload

omit [Setoid G]

variable {reload : Reload C} {files : Files} {config config' : C}

theorem reloadFails_iff (hreload : repository.reload = some reload) {outcome : Outcome Unit}
    {failure : Failure} (hrun : reload.run files w.config = (outcome, config')) :
    repository.ReloadFails w files config failure ↔ outcome = .error failure ∧ config' = config := by
  constructor
  · rintro ⟨reload', hreload', hrun'⟩
    obtain rfl : reload = reload' := Option.some.inj (hreload.symm.trans hreload')
    rw [hrun, Prod.mk.injEq] at hrun'
    exact hrun'
  · rintro ⟨rfl, rfl⟩
    exact ⟨reload, hreload, hrun⟩

theorem forall_reloadFails_iff (hreload : repository.reload = some reload)
    {failure : Failure} (hrun : reload.run files w.config = (.error failure, config'))
    {P : C → Failure → Prop} :
    (∀ config failure, repository.ReloadFails w files config failure → P config failure) ↔
      P config' failure := by
  constructor
  · intro h
    exact h config' failure ⟨reload, hreload, hrun⟩
  · intro h config failure' hfails
    obtain ⟨hfailure, rfl⟩ := (reloadFails_iff hreload hrun).1 hfails
    rw [Except.error.injEq] at hfailure
    exact hfailure ▸ h

theorem not_reloadFails (hreload : repository.reload = none) {failure : Failure} :
    ¬ repository.ReloadFails w files config failure := by
  rintro ⟨reload, hreload', -⟩
  rw [hreload] at hreload'
  cases hreload'

theorem config_eq_of_error {e : Error} (h : reload.run files config = (.error (.error e), config')) :
    config' = config := by
  have hkeeps := reload.keeps files config e
  rw [h] at hkeeps
  exact hkeeps rfl

end Reload

omit [Setoid G] in
theorem writeAtomicLocked_cases (fault : Option WriteFault) (path : String) (text : Bytes)
    (files : Files) :
    (∃ failure, writeAtomicLocked fault path text files = (.error failure, files) ∧
        ¬ (fault = none ∧ path ≠ "")) ∨
      fault = none ∧ path ≠ "" ∧
        writeAtomicLocked fault path text files =
          (.ok (), Function.update files path (some text)) := by
  by_cases hpath : path = ""
  · exact Or.inl ⟨_, if_pos hpath, fun h => h.2 hpath⟩
  · cases fault with
    | some fault => exact Or.inl ⟨_, if_neg hpath, fun h => by cases h.1⟩
    | none => exact Or.inr ⟨rfl, hpath, if_neg hpath⟩

theorem writeBase_contract (expected : String) (text : Bytes) (fault : Option WriteFault) :
    repository.CallContract w (.writeBase expected text fault) := by
  rw [callContract_iff, perform, writeBase]
  cases hsnap : repository.snapshotLocked w.files with
  | error failure => exact World.Same.refl w
  | ok current =>
      obtain rfl := snapshot_eq hsnap
      by_cases hexpected : expected = revision (readFile w.files repository.basePath)
      · simp only [hexpected, ne_eq, not_true_eq_false, if_false]
        cases hvalid : repository.validateLocked (repository.restoreConfigSecrets text
            (readFile w.files repository.basePath)) with
        | error failure => exact World.Same.refl w
        | ok _ =>
            rcases writeAtomicLocked_cases fault repository.basePath
                (repository.restoreConfigSecrets text (readFile w.files repository.basePath))
                w.files with ⟨failure, hwrite, -⟩ | ⟨-, -, hwrite⟩
            · simp only [hwrite]
              exact World.Same.refl w
            · simp only [hwrite]
              exact ⟨rfl, hvalid, rfl, rfl⟩
      · simp only [ne_eq, hexpected, not_false_eq_true, if_true]
        exact World.Same.refl w

section Leaves

variable {current : ConfigSnapshot} {text : Option Bytes} {state : G} {reload : Reload C} {config : C}

theorem same_iff_of_reload_error {e : Error} (hsnap : repository.snapshotLocked w.files = .ok current)
    (hpath : repository.activePath ≠ "")
    (hrun : reload.run (Function.update w.files repository.activePath text) w.config =
      (.error (.error e), config)) :
    w.Same
        { config, state
          files := repository.restoreActive current
            (Function.update w.files repository.activePath text) } ↔
      repository.ReloadLeaves w (Function.update w.files repository.activePath text) config
        (.error e) ∧ state ≈ w.state := by
  rw [ReloadLeaves, ← restoreActive_eq_iff hsnap hpath text]
  exact ⟨fun h => ⟨h.files, h.state⟩, fun h => ⟨h.1, config_eq_of_error hrun, h.2⟩⟩

theorem same_iff_of_reload_exception {what : String} {files : Files} :
    w.Same { files, config, state } ↔
      repository.ReloadLeaves w files config (.exception what) ∧ state ≈ w.state :=
  ⟨fun h => ⟨⟨h.files, h.config⟩, h.state⟩, fun h => ⟨h.1.1, h.1.2, h.2⟩⟩

end Leaves

theorem writeActive_contract_iff (expected : String) (text : Bytes) (fault : Option WriteFault) :
    repository.CallContract w (.writeActive expected text fault) ↔
      repository.Calm w (.writeActive expected text fault) := by
  rw [callContract_iff, perform, writeActive, Calm]
  generalize hrestored : repository.restoreConfigSecrets text (repository.activeText w.files) =
    restored
  cases hsnap : repository.snapshotLocked w.files with
  | error failure =>
      refine iff_of_true (World.Same.refl w) fun current hcurrent => ?_
      cases hcurrent
  | ok current =>
      have hsource := snapshot_source hsnap
      have hrevision : current.activeRevision = revision (repository.activeText w.files) := by
        rw [snapshot_eq hsnap]
      simp only [Except.ok.injEq, forall_eq', hsource, hrestored]
      by_cases hexpected : expected = current.activeRevision
      · subst hexpected
        simp only [ne_eq, not_true_eq_false, if_false, forall_const]
        cases hvalid : repository.validateLocked restored with
        | error failure =>
            refine iff_of_true (World.Same.refl w) fun hok => ?_
            cases hok
        | ok _ =>
            rcases writeAtomicLocked_cases fault repository.activePath restored w.files with
              ⟨failure, hwrite, hnot⟩ | ⟨rfl, hpath, hwrite⟩
            · simp only [hwrite]
              exact iff_of_true (World.Same.refl w) fun _ hfault hpath =>
                absurd ⟨hfault, hpath⟩ hnot
            · simp only [hwrite, hpath, not_false_eq_true, forall_const]
              have hwritten (changed : Bool) (config : C) :
                  repository.Answered w (.writeActive current.activeRevision text none)
                    (.ok ⟨revision restored, changed⟩,
                      { w with
                        files := Function.update w.files repository.activePath (some restored)
                        config }) := by
                refine ⟨hrevision, ?_, ?_, ?_⟩ <;> rw [hrestored]
                exact hvalid
              cases hreload : repository.reload with
              | none =>
                  exact iff_of_true (hwritten _ _) fun config failure hfails =>
                    absurd hfails (not_reloadFails hreload)
              | some reload =>
                  rcases hrun : reload.run (Function.update w.files repository.activePath
                    (some restored)) w.config with ⟨outcome, config⟩
                  cases outcome with
                  | ok _ =>
                      simp only [hrun]
                      refine iff_of_true (hwritten _ _) fun config failure hfails => ?_
                      cases ((reloadFails_iff hreload hrun).1 hfails).1
                  | error failure =>
                      rw [forall_reloadFails_iff hreload hrun]
                      rw [← and_iff_left (a := repository.ReloadLeaves ..) (Setoid.refl w.state)]
                      simp only [hrun]
                      cases failure with
                      | error e => exact same_iff_of_reload_error hsnap hpath hrun
                      | exception what => exact same_iff_of_reload_exception
      · simp only [ne_eq, hexpected, not_false_eq_true, if_true]
        exact iff_of_true (World.Same.refl w) fun h => absurd h id

theorem resetActive_contract_iff (expected : String) (fault : Option String) :
    repository.CallContract w (.resetActive expected fault) ↔
      repository.Calm w (.resetActive expected fault) := by
  rw [callContract_iff, perform, resetActive, Calm]
  cases hsnap : repository.snapshotLocked w.files with
  | error failure =>
      refine iff_of_true (World.Same.refl w) fun current hcurrent => ?_
      cases hcurrent
  | ok current =>
      have hrevision : current.activeRevision = revision (repository.activeText w.files) := by
        rw [snapshot_eq hsnap]
      have hbase : current.baseRevision = revision (readFile w.files repository.basePath) := by
        rw [snapshot_eq hsnap]
      have hread : current.hasActive = !(readFile w.files repository.activePath).isEmpty := by
        rw [snapshot_eq hsnap]
      simp only [Except.ok.injEq, forall_eq']
      by_cases hexpected : expected = current.activeRevision
      · subst hexpected
        simp only [ne_eq, not_true_eq_false, if_false, forall_const]
        by_cases hactive : current.hasActive = true
        · simp only [hactive, Bool.not_true, Bool.false_eq_true, if_false, forall_const]
          cases fault with
          | some message =>
              refine iff_of_true (World.Same.refl w) fun hfault => ?_
              cases hfault
          | none =>
              have hpresent : readFile w.files repository.activePath ≠ [] := by
                rw [hread] at hactive
                simpa using hactive
              obtain ⟨hpath, hfile⟩ := readFile_eq_some hpresent
              have hwritten (config : C) :
                  repository.Answered w (.resetActive current.activeRevision none)
                    (.ok ⟨current.baseRevision, true⟩,
                      { w with
                        files := Function.update w.files repository.activePath none
                        config }) := by
                refine ⟨hrevision, ?_, fun path hne => Function.update_of_ne hne _ _, hbase⟩
                simp [readFile]
              simp only [forall_const]
              cases hreload : repository.reload with
              | none =>
                  exact iff_of_true (hwritten _) fun config what => not_reloadFails hreload
              | some reload =>
                  rcases hrun : reload.run (Function.update w.files repository.activePath none)
                    w.config with ⟨outcome, config⟩
                  cases outcome with
                  | ok _ =>
                      simp only [hrun]
                      refine iff_of_true (hwritten _) fun config what hfails => ?_
                      cases ((reloadFails_iff hreload hrun).1 hfails).1
                  | error failure =>
                      cases failure with
                      | error e =>
                          have hback : Function.update (Function.update w.files
                              repository.activePath none) repository.activePath
                              (some current.active) = w.files := by
                            rw [snapshot_eq hsnap, Function.update_idem, ← hfile,
                              Function.update_eq_self]
                          simp only [hrun, writeAtomicLocked, if_neg hpath, hback]
                          refine iff_of_true ⟨rfl, config_eq_of_error hrun, Setoid.refl _⟩ ?_
                          intro config what hfails
                          cases ((reloadFails_iff hreload hrun).1 hfails).1
                      | exception what =>
                          simp only [hrun]
                          refine iff_of_false (fun hsame => ?_) fun h =>
                            h config what ⟨reload, hreload, hrun⟩
                          have hgone := congrFun hsame.files repository.activePath
                          rw [hfile] at hgone
                          simp at hgone
        · simp only [hactive, Bool.not_false, if_true]
          refine iff_of_true ⟨hrevision, ?_, fun _ _ => rfl, hbase⟩ fun h => ?_
          · rw [hread] at hactive
            simpa using hactive
          · cases h
      · simp only [ne_eq, hexpected, not_false_eq_true, if_true]
        exact iff_of_true (World.Same.refl w) fun h => absurd h id

section Transaction

variable {current : ConfigSnapshot} {t : ActiveTransaction G} {policy : ReloadPolicy} {text : Bytes}
  {failure : Failure}

theorem World.same_state_iff {state : G} : w.Same { w with state } ↔ state ≈ w.state :=
  ⟨fun h => h.state, fun h => ⟨rfl, rfl, h⟩⟩

theorem transactionCalm_iff_of_proposal_error (hproposal : t.proposal current w.state = .error failure)
    (fault : Option WriteFault) :
    repository.TransactionCalm w current t policy fault ↔
      t.leaves current w.state failure ≈ w.state := by
  constructor
  · intro h
    exact h.transform failure hproposal
  · intro h
    refine ⟨fun failure' hfails => ?_, fun text _ htext _ => ?_, fun text _ htext _ _ => ?_,
      fun text _ _ htext => ?_⟩
    · rw [hproposal, Except.error.injEq] at hfails
      exact hfails ▸ h
    all_goals
      rw [hproposal] at htext
      cases htext

theorem transactionCalm_iff_of_invalid (hproposal : t.proposal current w.state = .ok text)
    (hinvalid : repository.validateLocked text = .error failure) (fault : Option WriteFault) :
    repository.TransactionCalm w current t policy fault ↔
      t.leaves current w.state failure ≈ w.state := by
  constructor
  · intro h
    exact h.validation text failure hproposal hinvalid
  · intro h
    refine ⟨fun failure' hfails => ?_, fun text' failure' htext hfails => ?_,
      fun text' _ htext hok _ => ?_, fun text' _ _ htext hok => ?_⟩
    · rw [hproposal] at hfails
      cases hfails
    · rw [hproposal, Except.ok.injEq] at htext
      rw [← htext, hinvalid, Except.error.injEq] at hfails
      exact hfails ▸ h
    all_goals
      rw [hproposal, Except.ok.injEq] at htext
      rw [← htext, hinvalid] at hok
      cases hok

theorem transactionCalm_iff_of_unwritten {fault : Option WriteFault}
    (hproposal : t.proposal current w.state = .ok text)
    (hvalid : repository.validateLocked text = .ok ())
    (hwrite : writeAtomicLocked fault repository.activePath text w.files =
      (.error failure, w.files))
    (hnot : ¬ (fault = none ∧ repository.activePath ≠ "")) :
    repository.TransactionCalm w current t policy fault ↔
      t.leaves current w.state failure ≈ w.state := by
  constructor
  · intro h
    exact h.writing text failure hproposal hvalid (by rw [hwrite])
  · intro h
    refine ⟨fun failure' hfails => ?_, fun text' failure' htext hfails => ?_,
      fun text' failure' htext _ hfails => ?_,
      fun text' _ _ _ _ _ hfault hpath => absurd ⟨hfault, hpath⟩ hnot⟩
    · rw [hproposal] at hfails
      cases hfails
    · rw [hproposal, Except.ok.injEq] at htext
      rw [← htext, hvalid] at hfails
      cases hfails
    · rw [hproposal, Except.ok.injEq] at htext
      rw [← htext, hwrite, Except.error.injEq] at hfails
      exact hfails ▸ h

/-- Where the transform gives a text that is valid and written, what is left is the reload. -/
theorem transactionCalm_iff_of_written (hproposal : t.proposal current w.state = .ok text)
    (hvalid : repository.validateLocked text = .ok ()) (hpath : repository.activePath ≠ "") :
    repository.TransactionCalm w current t policy none ↔
      (policy = .afterCommit → ∀ config failure,
        repository.ReloadFails w (Function.update w.files repository.activePath (some text)) config
            failure →
          repository.ReloadLeaves w (Function.update w.files repository.activePath (some text))
              config failure ∧
            t.leaves current w.state failure ≈ w.state) := by
  constructor
  · intro h hpolicy config failure hfails
    exact h.reloading text config failure hproposal hvalid hpolicy rfl hpath hfails
  · intro h
    refine ⟨fun failure hfails => ?_, fun text' failure htext hfails => ?_,
      fun text' failure _ _ hfails => ?_, fun text' config failure htext _ hpolicy _ _ hfails => ?_⟩
    · rw [hproposal] at hfails
      cases hfails
    · rw [hproposal, Except.ok.injEq] at htext
      rw [← htext, hvalid] at hfails
      cases hfails
    · rw [writeAtomicLocked, if_neg hpath] at hfails
      cases hfails
    · rw [hproposal, Except.ok.injEq] at htext
      subst htext
      exact h hpolicy config failure hfails

end Transaction

theorem transactActive_contract_iff (expected : String) (t : ActiveTransaction G)
    (policy : ReloadPolicy) (fault : Option WriteFault) :
    repository.CallContract w (.transactActive expected t policy fault) ↔
      repository.Calm w (.transactActive expected t policy fault) := by
  rw [callContract_iff, perform, transactActive, Calm]
  cases hsnap : repository.snapshotLocked w.files with
  | error failure =>
      refine iff_of_true (World.Same.refl w) fun current hcurrent => ?_
      cases hcurrent
  | ok current =>
      have hrevision : current.activeRevision = revision (repository.activeText w.files) := by
        rw [snapshot_eq hsnap]
      simp only [Except.ok.injEq, forall_eq']
      by_cases hexpected : expected = current.activeRevision
      · subst hexpected
        simp only [ne_eq, not_true_eq_false, if_false, forall_const]
        cases hproposal : t.proposal current w.state with
        | error failure =>
            rw [transactionCalm_iff_of_proposal_error hproposal]
            exact World.same_state_iff
        | ok text =>
            cases hvalid : repository.validateLocked text with
            | error failure =>
                rw [transactionCalm_iff_of_invalid hproposal hvalid]
                simp only [hvalid]
                exact World.same_state_iff
            | ok _ =>
                rcases writeAtomicLocked_cases fault repository.activePath text w.files with
                  ⟨failure, hwrite, hnot⟩ | ⟨rfl, hpath, hwrite⟩
                · rw [transactionCalm_iff_of_unwritten hproposal hvalid hwrite hnot]
                  simp only [hvalid, hwrite]
                  exact World.same_state_iff
                · rw [transactionCalm_iff_of_written hproposal hvalid hpath]
                  simp only [hvalid, hwrite]
                  have hwritten (changed : Bool) (config : C) :
                      repository.Answered w
                        (.transactActive current.activeRevision t policy none)
                        (.ok ⟨revision text, changed⟩,
                          { config
                            files := Function.update w.files repository.activePath (some text)
                            state := t.effects current w.state }) :=
                    ⟨hrevision, current, text, hsnap, hproposal, hvalid, rfl, rfl⟩
                  cases hreload : repository.reload with
                  | none =>
                      exact iff_of_true (hwritten _ _) fun _ config failure hfails =>
                        absurd hfails (not_reloadFails hreload)
                  | some reload =>
                      cases policy with
                      | skip =>
                          refine iff_of_true (hwritten _ _) fun hpolicy => ?_
                          cases hpolicy
                      | afterCommit =>
                          rcases hrun : reload.run (Function.update w.files repository.activePath
                            (some text)) w.config with ⟨outcome, config⟩
                          simp only [forall_const, hrun]
                          cases outcome with
                          | ok _ =>
                              refine iff_of_true (hwritten _ _) fun config failure hfails => ?_
                              cases ((reloadFails_iff hreload hrun).1 hfails).1
                          | error failure =>
                              rw [forall_reloadFails_iff hreload hrun (P := fun config failure =>
                                repository.ReloadLeaves w _ config failure ∧
                                  t.leaves current w.state failure ≈ w.state)]
                              cases failure with
                              | error e => exact same_iff_of_reload_error hsnap hpath hrun
                              | exception what => exact same_iff_of_reload_exception
      · simp only [ne_eq, hexpected, not_false_eq_true, if_true]
        exact iff_of_true (World.Same.refl w) fun h => absurd h id

theorem callContract_iff_calm (call : ConfigCall G) :
    repository.CallContract w call ↔ repository.Calm w call := by
  cases call with
  | writeBase expected text fault => exact iff_of_true (writeBase_contract expected text fault) trivial
  | writeActive expected text fault => exact writeActive_contract_iff expected text fault
  | resetActive expected fault => exact resetActive_contract_iff expected fault
  | transactActive expected t policy fault => exact transactActive_contract_iff expected t policy fault

/-- In a run of any calls on any files, every call keeps the contract if and only if no call fails
where it leaves something behind. -/
theorem contract_throughout_iff (repository : ConfigRepository C) (w : World C G)
    (calls : List (ConfigCall G)) :
    Execution.Meets repository.next repository.CallContract w calls ↔
      Execution.Meets repository.next repository.Calm w calls :=
  ⟨Execution.Meets.mono fun _ call => (callContract_iff_calm call).1,
    Execution.Meets.mono fun _ call => (callContract_iff_calm call).2⟩

end ConfigRepository

end InferDeck.Gateway
