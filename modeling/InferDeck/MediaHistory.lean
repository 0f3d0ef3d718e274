import InferDeck.Execution
import InferDeck.FiniteMap
import InferDeck.Foundation
import InferDeck.StreamingSanitizer

/-!
# The history of media jobs

Jobs with their outputs are kept under `jobs_mutex`. `store_job_outputs` writes its files without
the mutex and publishes them in one section; it removes what it has written where it fails.
Pruning drops the oldest jobs that are not running and retires their output files.
`persist_jobs_serialized`, of which one runs at a time, copies the jobs, takes the retired paths,
saves `history.json` and then deletes the paths that its copy does not name.

A path is the name of a file under `media_history_root`. A media store without a root keeps its
outputs in memory and saves nothing.
-/

namespace InferDeck.Gateway.MediaHistory

open InferDeck.Foundation

inductive JobState where
  | running
  | completed
  | failed
  | cancelled
  deriving DecidableEq

structure MediaOutputRecord where
  contentType : String
  filename : Text
  bytes : ℕ
  deriving DecidableEq

structure MediaJob where
  model : String
  modality : String
  prompt : Text := []
  progress : ℤ := 0
  state : JobState := .running
  error : String := ""
  createdAtUnixMs : ℤ := 0
  finishedAtUnixMs : ℤ := 0
  outputs : List MediaOutputRecord := []
  deriving DecidableEq

def MediaJob.filenames (job : MediaJob) : List Text := job.outputs.map MediaOutputRecord.filename

/-- `bytes` is how many there are: none also where the pointer is null. -/
structure PendingMediaOutput where
  contentType : String
  extension : Text
  bytes : ℕ
  deriving DecidableEq

inductive WriteOutcome where
  | written
  | notOpened
  | notWritten
  | notFinalized (reason : String)
  deriving DecidableEq

inductive StorePc where
  | writing
  /-- `fail` is removing the files that the call has created. -/
  | failing (message : String) (remaining : List Text)
  | returned (result : Result Unit)
  deriving DecidableEq

/-- A call of `store_job_outputs` that is past its first section. -/
structure StoreCall where
  job : ℕ
  modality : String
  pending : List PendingMediaOutput
  staged : List MediaOutputRecord := []
  createdFiles : List Text := []
  pc : StorePc := .writing
  deriving DecidableEq

abbrev Snapshot := List (ℕ × MediaJob)

/-- Where the one call of `persist_jobs_serialized` is. -/
inductive Persisting where
  | saving (snapshot : Snapshot) (retiredOutputs : List Text)
  | deleting (snapshot : Snapshot) (retiredOutputs : List Text)
  deriving DecidableEq

structure World where
  /-- `media_history_root` is not empty. -/
  durable : Bool
  jobs : Map ℕ MediaJob := ∅
  nextJobId : ℕ := 1
  retired : List Text := []
  files : Finset Text := ∅
  /-- What `history.json` holds. -/
  history : Snapshot := []
  stores : Map ℕ StoreCall := ∅
  /-- The callers that wait for `history_persistence_mutex`. -/
  waiting : ℕ := 0
  persisting : Option Persisting := none

inductive Action where
  | beginJob (model modality : String) (prompt : Text) (now : ℤ)
  | finishJob (id : ℕ) (state : JobState) (error : String) (now : ℤ)
  | store (call : ℕ) (job : ℕ) (pending : List PendingMediaOutput)
  | write (call : ℕ) (outcome : WriteOutcome)
  | publish (call : ℕ)
  | unwind (call : ℕ)
  | snapshot
  | save (saved : Bool)
  | delete

def maxMediaHistoryJobs : ℕ := 100

def maxMediaHistoryBytes : ℕ := 2 * 1024 * 1024 * 1024

def promptSummary (text : Text) : Text :=
  let text := text.map fun c => if c = '\r' ∨ c = '\n' then ' ' else c
  if text.length > 512 then text.take 509 ++ "...".toList else text

def stem (modality : String) : Text :=
  if modality = "image" then "image-".toList
  else if modality = "video_generation" then "video-".toList
  else "music-".toList

def outputName (modality : String) (id index : ℕ) (extension : Text) : Text :=
  stem modality ++ (Nat.toDigits 10 id ++ '-' :: (Nat.toDigits 10 (index + 1) ++ extension))

def names (snapshot : Snapshot) : List Text := snapshot.flatMap fun record => record.2.filenames

/-- One more output, in 64 bits. -/
def addBytes (total bytes : ℕ) : ℕ :=
  if 2 ^ 64 - 1 - total < bytes then 2 ^ 64 - 1 else total + bytes

def outputBytes (jobs : Map ℕ MediaJob) : List ℕ :=
  jobs.values.flatMap fun job => job.outputs.map MediaOutputRecord.bytes

namespace World

variable (w : World)

def historyBytes : ℕ := (outputBytes w.jobs).foldl addBytes 0

def removeJobOutputs (job : MediaJob) : World :=
  if w.durable then { w with retired := w.retired ++ job.filenames } else w

/-- Too many jobs, or too many bytes. -/
def full : Bool :=
  decide (maxMediaHistoryJobs < w.jobs.entries.length) ||
    decide (maxMediaHistoryBytes < w.historyBytes)

/-- The lowest id of a job that is not running. -/
def oldest : Option ℕ :=
  ((w.jobs.entries.filter fun e => decide (e.2.state ≠ .running)).map Sigma.fst).min?

def dropJob (id : ℕ) (job : MediaJob) : World :=
  { w.removeJobOutputs job with jobs := w.jobs.erase id }

/-- Each round drops a job, so that there are no more rounds than jobs. -/
def pruneRounds : ℕ → World → World
  | 0, w => w
  | rounds + 1, w =>
      if w.full then
        match w.oldest.bind fun id => (w.jobs.lookup id).map (id, ·) with
        | none => w
        | some (id, job) => pruneRounds rounds (w.dropJob id job)
      else w

def pruneJobs : World := pruneRounds w.jobs.entries.length w

def beginJob (model modality : String) (prompt : Text) (now : ℤ) : World :=
  { w with
    jobs := w.jobs.insert w.nextJobId
      { model, modality, prompt := promptSummary prompt, createdAtUnixMs := now }
    nextJobId := w.nextJobId + 1
    waiting := w.waiting + 1 }

def finished (job : MediaJob) (state : JobState) (error : String) (now : ℤ) : MediaJob :=
  { job with
    state, error, finishedAtUnixMs := now
    progress := if state = .completed then 100 else job.progress }

/-- The job of the call is no entry of `jobs` any more where it has been pruned. -/
def finishJob (id : ℕ) (state : JobState) (error : String) (now : ℤ) : World :=
  let jobs := match w.jobs.lookup id with
    | some job => w.jobs.insert id (finished job state error now)
    | none => w.jobs
  { ({ w with jobs } : World).pruneJobs with waiting := w.waiting + 1 }

def goto (id : ℕ) (call : StoreCall) : World := { w with stores := w.stores.insert id call }

def store (id job : ℕ) (pending : List PendingMediaOutput) : World :=
  match w.jobs.lookup job with
  | some { modality, .. } => w.goto id { job, modality, pending }
  | none =>
      w.goto id { job, modality := "", pending
                  pc := .returned (err .notFound "media job not found") }

def fail (id : ℕ) (call : StoreCall) (message : String) : World :=
  w.goto id { call with pc := .failing message call.createdFiles }

/-- The next round of the loop over the pending outputs, each of which stages one record. -/
def write (id : ℕ) (call : StoreCall) (input : PendingMediaOutput) (outcome : WriteOutcome) :
    World :=
  if input.bytes = 0 then w.fail id call "generated media output is empty"
  else
    let filename := outputName call.modality call.job call.staged.length input.extension
    let staged := call.staged ++ [⟨input.contentType, filename, input.bytes⟩]
    if !w.durable then w.goto id { call with staged }
    else
      match outcome with
      | .notOpened => w.fail id call "cannot open generated media output for writing"
      | .notWritten => w.fail id call "cannot write generated media output"
      | .notFinalized reason =>
          w.fail id call ("cannot finalize generated media output: " ++ reason)
      | .written =>
          { w.goto id { call with staged, createdFiles := call.createdFiles ++ [filename] } with
            files := insert filename w.files }

def publish (id : ℕ) (call : StoreCall) : World :=
  match w.jobs.lookup call.job with
  | none => w.fail id call "media history changed while saving output"
  | some job =>
      let w := w.removeJobOutputs job
      let w := ({ w with
        jobs := w.jobs.insert call.job { job with outputs := call.staged } } : World).pruneJobs
      { w.goto id { call with pc := .returned (.ok ()) } with waiting := w.waiting + 1 }

def unwind (id : ℕ) (call : StoreCall) : Option World :=
  match call.pc with
  | .failing message (p :: remaining) =>
      some { w.goto id { call with pc := .failing message remaining } with
        files := w.files.erase p }
  | .failing message [] => some (w.goto id { call with pc := .returned (err .ioError message) })
  | _ => none

def snapshotOf : Snapshot :=
  (w.jobs.entries.map fun e => (e.1, e.2)).mergeSort fun left right => left.1 ≤ right.1

def snapshot : Option World :=
  if w.persisting.isSome || w.waiting == 0 then none
  else if !w.durable then some { w with waiting := w.waiting - 1 }
  else
    some { w with
      waiting := w.waiting - 1
      retired := []
      persisting := some (.saving w.snapshotOf w.retired) }

def save (saved : Bool) : Option World :=
  match w.persisting with
  | some (.saving snapshot retiredOutputs) =>
      if saved then
        some { w with
          history := snapshot, persisting := some (.deleting snapshot retiredOutputs) }
      else some { w with retired := w.retired ++ retiredOutputs, persisting := none }
  | _ => none

def retained (snapshot : Snapshot) (p : Text) : Bool :=
  snapshot.any fun record => record.2.outputs.any fun output => output.filename == p

def delete : Option World :=
  match w.persisting with
  | some (.deleting snapshot (p :: rest)) =>
      some { w with
        files := if retained snapshot p then w.files else w.files.erase p
        persisting := some (.deleting snapshot rest) }
  | some (.deleting _ []) => some { w with persisting := none }
  | _ => none

/-- A call that is still in its loop, or about to publish. -/
def storing (id : ℕ) : Option StoreCall :=
  (w.stores.lookup id).bind fun call => if call.pc = .writing then some call else none

def next (w : World) : Action → Option World
  | .beginJob model modality prompt now => some (w.beginJob model modality prompt now)
  | .finishJob id state error now => some (w.finishJob id state error now)
  | .store id job pending =>
      if w.stores.contains id then none else some (w.store id job pending)
  | .write id outcome => (w.storing id).bind fun call =>
      call.pending[call.staged.length]?.map fun input => w.write id call input outcome
  | .publish id => (w.storing id).bind fun call =>
      if call.staged.length = call.pending.length then some (w.publish id call) else none
  | .unwind id => (w.stores.lookup id).bind fun call => w.unwind id call
  | .snapshot => w.snapshot
  | .save saved => w.save saved
  | .delete => w.delete

end World

end InferDeck.Gateway.MediaHistory
