import InferDeck.AliasContract

/-!
# The configuration repository

The base configuration and the active one are files, and each operation names the revision of the
text that it means to replace. A text is validated before it is written, the configuration in memory
is loaded again after it, and what fails on the way is to be undone.

A call of a callback ends with a result or by an exception. An operation undoes what it did for an
error that it is given; an exception leaves it where it is.
-/

namespace InferDeck.Gateway

open InferDeck.Foundation

abbrev Bytes := List UInt8

inductive Failure where
  | error (error : Error)
  | exception (what : String)
  deriving DecidableEq

abbrev Outcome (α : Type) := Except Failure α

namespace Failure

/-- `Err(error.code, error.message)`, which drops the field. -/
def reissue (wrap : String → String) : Failure → Failure
  | .error e => .error { code := e.code, message := wrap e.message }
  | .exception what => .exception what

end Failure

def failed {α : Type} (code : ErrorCode) (message : String) : Outcome α :=
  .error (.error { code, message })

abbrev Files := String → Option Bytes

structure ConfigSnapshot where
  base : Bytes
  active : Bytes
  baseRevision : String
  activeRevision : String
  hasActive : Bool

structure ConfigCommit where
  revision : String
  changed : Bool

inductive ReloadPolicy where
  | afterCommit
  | skip
  deriving DecidableEq

/-- What goes wrong while a file is replaced. The file keeps its text in each case. -/
inductive WriteFault where
  | cannotOpen
  | cannotWrite
  | cannotReplace (message : String)
  | exception (what : String)

def WriteFault.failure : WriteFault → Failure
  | .cannotOpen => .error ⟨.ioError, "cannot open temporary configuration file", ""⟩
  | .cannotWrite => .error ⟨.ioError, "cannot write temporary configuration file", ""⟩
  | .cannotReplace message => .error ⟨.ioError, message, ""⟩
  | .exception what => .exception what

/-- The callback that loads the configuration into memory. One that returns an error has not. -/
structure Reload (C : Type) where
  run : Files → C → Outcome Unit × C
  keeps : ∀ files config error, (run files config).1 = .error (.error error) →
    (run files config).2 = config

structure ConfigRepository (C : Type) where
  basePath : String
  activePath : String
  validator : Option (Bytes → Outcome Unit)
  reload : Option (Reload C)
  /-- The secrets of the current text, where the submitted text masks them. -/
  restoreConfigSecrets : Bytes → Bytes → Bytes

/-- The callbacks of a transaction, on a state of their own. -/
structure ActiveTransaction (G : Type) where
  transform : ConfigSnapshot → G → Outcome Bytes × G
  rollback : Option (G → G)

structure World (C G : Type) where
  files : Files
  config : C
  state : G

def fnv1a (text : Bytes) : UInt64 :=
  text.foldl (fun hash byte => (hash ^^^ byte.toUInt64) * 1099511628211) 1469598103934665603

def revision (text : Bytes) : String :=
  String.ofList (List.leftpad 16 '0' (Nat.toDigits 16 (fnv1a text).toNat))

def readFile (files : Files) (path : String) : Bytes :=
  if path = "" then [] else (files path).getD []

namespace ConfigRepository

variable {C G : Type} (repository : ConfigRepository C)

def snapshotLocked (files : Files) : Outcome ConfigSnapshot :=
  let base := readFile files repository.basePath
  if base = [] then failed .ioError "base configuration is empty or unreadable"
  else
    let active := readFile files repository.activePath
    let hasActive := !active.isEmpty
    .ok
      { base, active, hasActive
        baseRevision := revision base
        activeRevision := revision (if hasActive then active else base) }

def validateLocked (text : Bytes) : Outcome Unit :=
  if text = [] ∨ text.length > 2 * 1024 * 1024 then
    failed .invalidArgument "configuration size is invalid"
  else
    match repository.validator with
    | none => failed .unavailable "configuration validator is unavailable"
    | some validator => validator text

def writeAtomicLocked (fault : Option WriteFault) (path : String) (text : Bytes) (files : Files) :
    Outcome Unit × Files :=
  if path = "" then (failed .unavailable "configuration path is unavailable", files)
  else
    match fault with
    | some fault => (.error fault.failure, files)
    | none => (.ok (), Function.update files path (some text))

/-- The active file as the snapshot has it: its text, or no file. -/
def restoreActive (current : ConfigSnapshot) (files : Files) : Files :=
  if current.hasActive then (writeAtomicLocked none repository.activePath current.active files).2
  else Function.update files repository.activePath none

def writeBase (expected : String) (text : Bytes) (fault : Option WriteFault) (w : World C G) :
    Outcome ConfigCommit × World C G :=
  match repository.snapshotLocked w.files with
  | .error failure => (.error (failure.reissue id), w)
  | .ok current =>
      if expected ≠ current.baseRevision then
        (failed .alreadyExists "base configuration revision conflict", w)
      else
        let restored := repository.restoreConfigSecrets text current.base
        match repository.validateLocked restored with
        | .error failure => (.error (failure.reissue id), w)
        | .ok () =>
            match writeAtomicLocked fault repository.basePath restored w.files with
            | (.error failure, files) => (.error (failure.reissue id), { w with files })
            | (.ok (), files) =>
                (.ok ⟨revision restored, decide (restored ≠ current.base)⟩, { w with files })

def writeActive (expected : String) (text : Bytes) (fault : Option WriteFault) (w : World C G) :
    Outcome ConfigCommit × World C G :=
  match repository.snapshotLocked w.files with
  | .error failure => (.error (failure.reissue id), w)
  | .ok current =>
      if expected ≠ current.activeRevision then
        (failed .alreadyExists "active configuration revision conflict", w)
      else
        let source := if current.hasActive then current.active else current.base
        let restored := repository.restoreConfigSecrets text source
        let commit : ConfigCommit :=
          ⟨revision restored, !current.hasActive || decide (restored ≠ current.active)⟩
        match repository.validateLocked restored with
        | .error failure => (.error (failure.reissue id), w)
        | .ok () =>
            match writeAtomicLocked fault repository.activePath restored w.files with
            | (.error failure, files) => (.error (failure.reissue id), { w with files })
            | (.ok (), files) =>
                match repository.reload with
                | none => (.ok commit, { w with files })
                | some reload =>
                    match reload.run files w.config with
                    | (.ok (), config) => (.ok commit, { w with files, config })
                    | (.error (.exception what), config) =>
                        (.error (.exception what), { w with files, config })
                    | (.error (.error e), config) =>
                        (failed e.code ("reload failed; active configuration restored: " ++ e.message),
                          { w with files := repository.restoreActive current files, config })

/-- A fault is the message of a `remove` that fails. -/
def resetActive (expected : String) (fault : Option String) (w : World C G) :
    Outcome ConfigCommit × World C G :=
  match repository.snapshotLocked w.files with
  | .error failure => (.error (failure.reissue id), w)
  | .ok current =>
      if expected ≠ current.activeRevision then
        (failed .alreadyExists "active configuration revision conflict", w)
      else if !current.hasActive then (.ok ⟨current.baseRevision, false⟩, w)
      else
        match fault with
        | some message => (failed .ioError message, w)
        | none =>
            let files := Function.update w.files repository.activePath none
            let commit : ConfigCommit := ⟨current.baseRevision, true⟩
            match repository.reload with
            | none => (.ok commit, { w with files })
            | some reload =>
                match reload.run files w.config with
                | (.ok (), config) => (.ok commit, { w with files, config })
                | (.error (.exception what), config) =>
                    (.error (.exception what), { w with files, config })
                | (.error (.error e), config) =>
                    match writeAtomicLocked none repository.activePath current.active files with
                    | (.ok (), files) =>
                        (failed e.code
                          ("reload failed; active configuration restored: " ++ e.message),
                          { w with files, config })
                    | (.error _, files) =>
                        (failed e.code
                          ("reload failed; active configuration rollback failed: " ++ e.message),
                          { w with files, config })

end ConfigRepository

namespace ActiveTransaction

variable {G : Type} (t : ActiveTransaction G) (current : ConfigSnapshot) (g : G)

def proposal : Outcome Bytes := (t.transform current g).1

def effects : G := (t.transform current g).2

def undone : G := t.rollback.getD id (t.effects current g)

/-- A failure that is an error is followed by the rollback, and an exception is not. -/
def leaves : Failure → G
  | .error _ => t.undone current g
  | .exception _ => t.effects current g

end ActiveTransaction

namespace ConfigRepository

variable {C G : Type} (repository : ConfigRepository C)

def transactActive (expected : String) (t : ActiveTransaction G) (policy : ReloadPolicy)
    (fault : Option WriteFault) (w : World C G) : Outcome ConfigCommit × World C G :=
  match repository.snapshotLocked w.files with
  | .error failure => (.error (failure.reissue id), w)
  | .ok current =>
      if expected ≠ current.activeRevision then
        (failed .alreadyExists "active configuration revision conflict", w)
      else
        match t.proposal current w.state with
        | .error failure =>
            (.error (failure.reissue id), { w with state := t.leaves current w.state failure })
        | .ok text =>
            let commit : ConfigCommit :=
              ⟨revision text, !current.hasActive || decide (text ≠ current.active)⟩
            match repository.validateLocked text with
            | .error failure =>
                (.error (failure.reissue id), { w with state := t.leaves current w.state failure })
            | .ok () =>
                match writeAtomicLocked fault repository.activePath text w.files with
                | (.error failure, files) =>
                    (.error (failure.reissue id),
                      { w with files, state := t.leaves current w.state failure })
                | (.ok (), files) =>
                    let state := t.effects current w.state
                    match repository.reload, policy with
                    | some reload, .afterCommit =>
                        match reload.run files w.config with
                        | (.ok (), config) => (.ok commit, { files, config, state })
                        | (.error (.exception what), config) =>
                            (.error (.exception what), { files, config, state })
                        | (.error (.error e), config) =>
                            (failed e.code
                              ("reload failed; configuration and state restored: " ++ e.message),
                              { files := repository.restoreActive current files, config
                                state := t.undone current w.state })
                    | _, _ => (.ok commit, { w with files, state })

end ConfigRepository

end InferDeck.Gateway
