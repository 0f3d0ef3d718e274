import InferDeck.Execution
import InferDeck.ModelStoreBundles

/-!
# Install jobs of the model store

`install` reserves a model's name for a new job and starts a worker for it, `resume` starts one
again for a job that failed or was cancelled. The worker downloads the artifacts of its job,
compares their sizes and checksums, and publishes the model. A step is one critical section of the
store's mutex with what its thread does up to the next one. Of a quantization job only its start,
its worker and the name that it reserves are here, not whether another one is active. What else is
installed and registered changes at any time.
-/

namespace InferDeck.Gateway.InstallJobs

open Function InferDeck.Foundation InferDeck.Model ModelStore

def maxActiveInstalls : ℕ := 2

def maxRetainedJobs : ℕ := 100

inductive JobState where
  | queued
  | downloading
  | installed
  | failed
  | cancelled
  deriving DecidableEq

def JobState.active (state : JobState) : Bool := state == .queued || state == .downloading

def JobState.terminal (state : JobState) : Bool :=
  state == .installed || state == .failed || state == .cancelled

structure StoreDownload where
  repo : String
  file : StoreFile
  modelName : String
  state : JobState := .queued
  error : String := ""
  bytesDownloaded : UInt64 := 0
  bytesTotal : UInt64
  installedPath : String := ""
  artifacts : List StoreFile

/-- What a worker has read when it begins: its job, and the flag that cancels it. -/
structure Run where
  job : StoreDownload
  cancelled : ℕ

/-- Where a worker is. -/
inductive WorkerPc where
  | begin
  /-- The partial file of the only artifact has not been looked at. -/
  | inspect (run : Run)
  | transfer (run : Run) (exceeded : Bool)
  | verify (run : Run)
  /-- The directories of a bundle have not been made. -/
  | stage (run : Run)
  | nextArtifact (run : Run) (rest : List StoreFile) (completed : UInt64)
  | transferArtifact (run : Run) (artifact : StoreFile) (rest : List StoreFile) (completed : UInt64)
  | verifyArtifact (run : Run) (artifact : StoreFile) (rest : List StoreFile) (completed : UInt64)
  | placeArtifact (run : Run) (artifact : StoreFile) (rest : List StoreFile) (completed : UInt64)
  | finishArtifact (run : Run) (artifact : StoreFile) (rest : List StoreFile) (completed : UInt64)
  | commit (run : Run)
  | place (run : Run)
  | publish (run : Run)
  | save (run : Run)
  | register (run : Run)
  | withdraw (run : Run) (error : String)
  | finish (state : JobState) (error : String)
  | quantizing (name : String)
  | leaving
  | exited

structure Worker where
  id : ℕ
  pc : WorkerPc

/-- What a worker sees outside of the store. -/
inductive Seen where
  | nothing
  /-- An exception, with its text where it has one. -/
  | thrown (what : Option String)
  | partialSize (size : UInt64)
  | progress (bytes : UInt64)
  | transferred (result : Result Unit)
  | file (size : UInt64) (checksum : Result String)
  | staged (failure : Option String)
  | escapes
  | unwritable (error : String)
  /-- The checksum of a file that is there already and has the right size. -/
  | present (checksum : Option (Result String))
  | moved (occupied : Bool) (result : Result Unit)
  | saved (result : Result Unit)

structure InstallRequest where
  repo : String
  filename : String
  modelName : String
  first : StoreFile
  rest : List StoreFile

/-- Who starts a job: its install, or a resume. -/
inductive Origin where
  | install (modelName : String)
  | resume

/-- Where a call of `install`, `resume` or `quantize` is. -/
inductive Call where
  | installReap (request : InstallRequest)
  | installReserve (request : InstallRequest)
  | startReap (id : ℕ) (origin : Origin)
  | startCheck (id : ℕ) (origin : Origin)
  | startJoin (id : ℕ) (origin : Origin) (previous : Option ℕ)
  | startSpawn (id : ℕ) (origin : Origin)
  | installUndo (id : ℕ) (modelName : String) (error : Error)
  | resumeReap (id : ℕ)
  | resumeCheck (id : ℕ)
  | quantizeReserve (source name : String)
  | quantizeReap (id : ℕ) (name : String)
  | quantizeStart (id : ℕ) (name : String)
  | quantizeUndo (id : ℕ) (name : String) (error : Error)

inductive Event where
  | returned (caller : ℕ) (result : Result ℕ)
  /-- A cancel of the start that made the flag has been accepted. -/
  | accepted (flag : ℕ)
  | matched (flag : ℕ) (artifact : StoreFile) (size : UInt64) (checksum : String)
  | committed (flag : ℕ)
  | registered (flag : ℕ) (modelName : String) (artifacts : List StoreFile)
  | ended (id : ℕ) (state : JobState)

/-- The store. The flags and the threads are numbered in the order in which they are made. -/
structure Store where
  root : String
  windows : Bool
  registry : ModelRegistry
  installed : Map String Json := ∅
  downloads : Map ℕ StoreDownload := ∅
  cancellations : Map ℕ ℕ := ∅
  workers : Map ℕ ℕ := ∅
  reservedNames : Map String ℕ := ∅
  committingInstalls : Finset ℕ := ∅
  nextId : ℕ := 1
  flags : ℕ → Bool := fun _ => false
  nextFlag : ℕ := 0
  threads : ℕ → Option Worker := fun _ => none
  nextThread : ℕ := 0
  calls : ℕ → Option Call := fun _ => none
  /-- A thread that still ran has been destroyed. -/
  terminated : Bool := false
  log : List Event := []

/-! ## The model that a job installs -/

section Published

variable (root : String) (job : StoreDownload)

def directory : String :=
  "/".intercalate [root, safeName job.file.runtime.toList, safeName job.repo.toList,
    safeName job.modelName.toList]

def isBundle : Bool := decide (1 < job.artifacts.length)

def finalPath : String :=
  if isBundle job then directory root job
  else directory root job ++ "/" ++ safeName (fileName job.file.name)

def roundedMb (size : UInt64) : ℤ :=
  ((size + (1024 * 1024 - 1)) / (1024 * 1024)).toUInt32.toInt32.toInt

/-- The first free key of `base_2`, `base_3` and so on, unless the key itself is free. -/
def freeKey (taken : List String) (base : String) : ℕ → ℕ → String → String
  | 0, _, key => key
  | fuel + 1, suffix, key =>
      if taken.contains key then
        freeKey taken base fuel (suffix + 1) (base ++ "_" ++ toString suffix)
      else key

def manifestKey (taken : List String) (artifact : StoreFile) : String :=
  let base := if job.file.runtime = "ltx_video_cpp" then ltxArtifactKey artifact.name
    else artifactKey artifact.name
  let isModel := job.file.modality == "audio_speech" && !taken.contains "model" &&
    (extension artifact.name == ".onnx".toList || extension artifact.name == ".ort".toList) &&
    !(["duration_predictor", "text_encoder", "vector_estimator", "vocoder"] : List String).contains
      base
  freeKey taken base taken.length 2 (if isModel then "model" else base)

def artifactManifest : List (String × String) :=
  job.artifacts.foldl (fun manifest artifact =>
    manifest ++ [(manifestKey job (manifest.map Prod.fst) artifact,
      directory root job ++ "/" ++ artifact.name)]) []

def vramRequiredMb : ℤ :=
  if isBundle job && !(job.file.runtime == "ace_step_cpp" || job.file.runtime == "ltx_video_cpp")
  then 0 else roundedMb job.file.size

def info : ModelInfo where
  name := job.modelName
  runtime := job.file.runtime
  modality := job.file.modality
  capabilities := job.file.capabilities
  artifacts := if isBundle job then artifactManifest root job else []
  vramRequiredMb := vramRequiredMb job

def manifestEntry : Json :=
  .object ([("name", .string job.modelName), ("family", .string job.repo),
    ("runtime", .string job.file.runtime), ("modality", .string job.file.modality),
    ("capabilities", .array (job.file.capabilities.map .string)),
    ("path", .string (finalPath root job)), ("size", .unsigned job.file.size)] ++
    (if isBundle job then
      [("artifacts", .object ((artifactManifest root job).map fun entry =>
        (entry.1, .string entry.2))), ("artifactCount", .unsigned (.ofNat job.artifacts.length))]
    else [("sha256", .string job.file.sha256)]) ++
    [("vramRequiredMb", .integer (Int64.ofInt (vramRequiredMb job)))])

end Published

namespace Store

variable (s : Store)

def goto (thread : ℕ) (worker : Worker) : Store :=
  { s with threads := update s.threads thread (some worker) }

def setCall (caller : ℕ) (call : Call) : Store :=
  { s with calls := update s.calls caller (some call) }

def record (event : Event) : Store := { s with log := event :: s.log }

def answer (caller : ℕ) (result : Result ℕ) : Store :=
  { s with calls := update s.calls caller none, log := .returned caller result :: s.log }

def setJob (id : ℕ) (job : StoreDownload) : Store :=
  { s with downloads := s.downloads.insert id job }

def hasExited (thread : ℕ) : Bool :=
  (s.threads thread).any fun worker => match worker.pc with
    | .exited => true
    | _ => false

/-- The names reserved when the job has given back the one that it has reserved. -/
def releaseName (name : String) (id : ℕ) : Map String ℕ :=
  if s.reservedNames.lookup name = some id then s.reservedNames.erase name else s.reservedNames

/-! ## The critical sections -/

def reapCompletedWorkers : Store :=
  { s with workers := s.workers.eraseIf fun _ thread => s.hasExited thread }

/-- `prune_completed_jobs_locked`: jobs that have ended go, the oldest first, until there is
room. -/
def pruneCompletedJobs : ℕ → Store → Store
  | 0, s => s
  | fuel + 1, s =>
      if s.downloads.entries.length < maxRetainedJobs then s
      else
        match ((s.downloads.entries.filter fun e => e.2.state.terminal).map Sigma.fst).min? with
        | none => s
        | some oldest => pruneCompletedJobs fuel
            { s with
              cancellations := s.cancellations.erase oldest
              downloads := s.downloads.erase oldest }

def lowerCollides (name : String) (owned : ℕ → Bool) : Bool :=
  s.windows && s.reservedNames.entries.any fun e => !owned e.2 && lowered e.1 == lowered name

def lowerInstalled (name : String) : Bool :=
  s.windows && s.installed.entries.any fun e => lowered e.1 == lowered name

def taken (name : String) : Bool := s.installed.contains name || s.registry.entries.contains name

def newJob (request : InstallRequest) : StoreDownload :=
  let artifacts := request.first :: request.rest
  let total := (artifacts.map StoreFile.size).sum
  { repo := request.repo
    file := if request.rest.isEmpty then request.first
      else { request.first with name := request.filename, size := total, sha256 := "" }
    modelName := request.modelName
    bytesTotal := total
    artifacts }

/-- A job for the request, with its name reserved. -/
def addJob (request : InstallRequest) : Store :=
  { s with
    nextId := s.nextId + 1
    reservedNames := s.reservedNames.insert request.modelName s.nextId
    downloads := s.downloads.insert s.nextId (newJob request)
    cancellations := s.cancellations.insert s.nextId s.nextFlag
    flags := update s.flags s.nextFlag false
    nextFlag := s.nextFlag + 1 }

/-- `install` up to the start of its job. -/
def reserve (request : InstallRequest) : Result ℕ × Store :=
  let s := pruneCompletedJobs s.downloads.entries.length s
  if maxActiveInstalls ≤ s.downloads.count fun _ job => job.state.active then
    (err .unavailable "model store already has the maximum number of active installs", s)
  else if maxRetainedJobs ≤ s.downloads.entries.length then
    (err .unavailable "model store job history is full; retry after active installs finish", s)
  else if s.reservedNames.contains request.modelName || s.taken request.modelName then
    (err .alreadyExists "model name is already installed, registered, or being installed", s)
  else if s.lowerCollides request.modelName fun _ => false then
    (err .alreadyExists "model name collides with an active installation on Windows", s)
  else if s.lowerInstalled request.modelName then
    (err .alreadyExists "model name collides with an installed model on Windows", s)
  else (.ok s.nextId, s.addJob request)

/-- The job is queued, with a flag of its own. -/
def queueJob (id : ℕ) (job : StoreDownload) : Store :=
  { s with
    workers := s.workers.erase id
    cancellations := s.cancellations.insert id s.nextFlag
    flags := update s.flags s.nextFlag false
    nextFlag := s.nextFlag + 1
    downloads := s.downloads.insert id { job with state := .queued, error := "" }
    reservedNames := s.reservedNames.insert job.modelName id }

/-- The first section of `start`: the thread of the job's last start, if it has one still. -/
def startCheck (id : ℕ) : Result (Option ℕ) × Store :=
  match s.downloads.lookup id with
  | none => (err .notFound "download not found", s)
  | some job =>
      if job.state = .downloading then (err .alreadyExists "download is already running", s)
      else if maxActiveInstalls ≤
          s.downloads.count (fun other job => decide (other ≠ id) && job.state.active) then
        (err .unavailable "model store already has the maximum number of active installs", s)
      else if maxRetainedJobs ≤ s.workers.entries.length then
        (err .unavailable "model store worker history is full; retry after installs finish", s)
      else if (s.reservedNames.lookup job.modelName).elim (s.taken job.modelName)
          (fun owner => decide (owner ≠ id)) then
        (err .alreadyExists "model name is already installed, registered, or being installed", s)
      else if s.lowerCollides job.modelName fun owner => owner == id then
        (err .alreadyExists "model name collides with an active installation on Windows", s)
      else if s.lowerInstalled job.modelName then
        (err .alreadyExists "model name collides with an installed model on Windows", s)
      else (.ok (s.workers.lookup id), s.queueJob id job)

def spawn (id : ℕ) (pc : WorkerPc) : Store :=
  { s with
    workers := s.workers.insert id s.nextThread
    threads := update s.threads s.nextThread (some { id, pc })
    nextThread := s.nextThread + 1 }

def failStart (id : ℕ) (job : StoreDownload) (what : String) : Store :=
  { s with
    downloads := s.downloads.insert id
      { job with
        state := .failed
        error := "cannot start model install worker: " ++ what }
    reservedNames := s.releaseName job.modelName id }

/-- The second section of `start`. A thread that cannot be inserted is destroyed. -/
def startSpawn (id : ℕ) (failure : Option String) : Result Unit × Store :=
  match failure with
  | none =>
      (.ok (), if s.workers.contains id then { s with terminated := true } else s.spawn id .begin)
  | some what =>
      (err .unavailable "cannot start model install worker",
        (s.downloads.lookup id).elim s fun job => s.failStart id job what)

/-- `install` takes its job back. -/
def undoInstall (id : ℕ) (modelName : String) : Store :=
  { s with
    reservedNames := s.releaseName modelName id
    downloads := s.downloads.erase id
    cancellations := s.cancellations.erase id }

/-- A quantization job, with its name reserved. -/
def addQuantization (name : String) : Store :=
  { s with
    nextId := s.nextId + 1
    reservedNames := s.reservedNames.insert name s.nextId }

/-- The name is given back, whoever has reserved it. -/
def dropName (name : String) : Store := { s with reservedNames := s.reservedNames.erase name }

def resumeCheck (id : ℕ) : Result Unit :=
  match s.downloads.lookup id with
  | none => err .notFound "download not found"
  | some job =>
      if job.state ≠ .cancelled ∧ job.state ≠ .failed then
        err .invalidArgument "only cancelled or failed downloads can resume"
      else .ok ()

def cancel (id : ℕ) : Result Unit × Store :=
  match s.cancellations.lookup id with
  | none => (err .notFound "download not found", s)
  | some flag =>
      if id ∈ s.committingInstalls then
        (err .unavailable "model installation is being finalized", s)
      else
        match s.downloads.lookup id with
        | none => (err .invalidArgument "model download is not running", s)
        | some job =>
            if !job.state.active then (err .invalidArgument "model download is not running", s)
            else (.ok (), { s with flags := update s.flags flag true }.record (.accepted flag))

/-- The flag of the start that goes on to install its model. -/
def beginInstallCommit (id flag : ℕ) : Result Unit × Store :=
  if s.flags flag then (err .cancelled "cancelled before installation", s)
  else (.ok (), { s with committingInstalls := insert id s.committingInstalls }.record
    (.committed flag))

def finishJob (id : ℕ) (state : JobState) (error : String) : Store :=
  match s.downloads.lookup id with
  | none => s
  | some job =>
      { s with
        committingInstalls := s.committingInstalls.erase id
        downloads := s.downloads.insert id { job with state, error }
        reservedNames := s.releaseName job.modelName id }.record (.ended id state)

/-! ## The worker -/

/-- What the `at` of a map throws for a key that it does not have. -/
def outOfRange : String := "unordered_map::at"

def unexpected (what : Option String) : WorkerPc :=
  .finish .failed ("model install failed unexpectedly" ++ what.elim "" fun what => ": " ++ what)

/-- A download that did not get to its end. -/
def interrupted (run : Run) (error : Error) : WorkerPc :=
  if s.flags run.cancelled then .finish .cancelled "cancelled" else .finish .failed error.message

/-- The job, for an access that throws without one. -/
def withJob (thread id : ℕ) (f : StoreDownload → Store) : Store :=
  match s.downloads.lookup id with
  | none => s.goto thread { id, pc := unexpected (some outOfRange) }
  | some job => f job

def workStep (thread id : ℕ) (pc : WorkerPc) (seen : Seen) : Option Store :=
  let at' := fun pc => s.goto thread { id, pc }
  match pc with
  | .begin =>
      match s.downloads.lookup id, s.cancellations.lookup id with
      | some job, some cancelled =>
          let run : Run := { job, cancelled }
          some ((s.setJob id { job with state := .downloading }).goto thread
            { id, pc := if isBundle job then .stage run else .inspect run })
      | _, _ => some (at' (unexpected (some outOfRange)))
  | .inspect run =>
      match seen with
      | .thrown what => some (at' (unexpected what))
      | .partialSize size =>
          if run.job.file.size < size then
            some (at' (.finish .failed "partial download exceeds the validated source size"))
          else if size < run.job.file.size then some (at' (.transfer run false))
          else some (at' (.verify run))
      | _ => none
  | .transfer run exceeded =>
      match seen with
      | .thrown what => some (at' (unexpected what))
      | .progress bytes =>
          if run.job.file.size < bytes then some (at' (.transfer run true))
          else some (s.withJob thread id fun job =>
            s.setJob id { job with bytesDownloaded := bytes })
      | .transferred (.ok ()) => some (at' (.verify run))
      | .transferred (.error e) =>
          if exceeded then
            some (at' (.finish .failed "download exceeds the validated source size"))
          else some (at' (s.interrupted run e))
      | _ => none
  | .verify run =>
      match seen with
      | .thrown what => some (at' (unexpected what))
      | .file size checksum =>
          if size ≠ run.job.file.size then
            some (at' (.finish .failed "downloaded size does not match source metadata"))
          else
            match checksum with
            | .error e =>
                some (at' (.finish (if e.code = .cancelled then .cancelled else .failed) e.message))
            | .ok checksum =>
                if lowered checksum ≠ lowered run.job.file.sha256 then
                  some (at' (.finish .failed "downloaded checksum does not match source metadata"))
                else
                  let event := Event.matched run.cancelled run.job.file size checksum
                  some ((s.record event).goto thread { id, pc := .commit run })
      | _ => none
  | .stage run =>
      match seen with
      | .thrown what => some (at' (unexpected what))
      | .staged (some error) => some (at' (.finish .failed error))
      | .staged none => some (at' (.nextArtifact run run.job.artifacts 0))
      | _ => none
  | .nextArtifact run [] _ => some (at' (.commit run))
  | .nextArtifact run (artifact :: rest) completed =>
      if s.flags run.cancelled then some (at' (.finish .cancelled "cancelled"))
      else
        match seen with
        | .thrown what => some (at' (unexpected what))
        | .escapes =>
            some (at' (.finish .failed "bundle artifact path escapes the staging directory"))
        | .unwritable error => some (at' (.finish .failed error))
        | .present none => some (at' (.transferArtifact run artifact rest completed))
        | .present (some (.error e)) =>
            if e.code = .cancelled then some (at' (.finish .cancelled e.message))
            else some (at' (.transferArtifact run artifact rest completed))
        | .present (some (.ok checksum)) =>
            if lowered checksum = lowered artifact.sha256 then
              some ((s.record (.matched run.cancelled artifact artifact.size checksum)).goto thread
                { id, pc := .finishArtifact run artifact rest completed })
            else some (at' (.transferArtifact run artifact rest completed))
        | _ => none
  | .transferArtifact run artifact rest completed =>
      match seen with
      | .thrown what => some (at' (unexpected what))
      | .progress bytes =>
          if artifact.size < bytes then some s
          else some (s.withJob thread id fun job =>
            s.setJob id { job with bytesDownloaded := completed + bytes })
      | .transferred (.ok ()) => some (at' (.verifyArtifact run artifact rest completed))
      | .transferred (.error e) => some (at' (s.interrupted run e))
      | _ => none
  | .verifyArtifact run artifact rest completed =>
      match seen with
      | .thrown what => some (at' (unexpected what))
      | .file size checksum =>
          let invalid := .finish .failed "bundle artifact failed size or checksum validation"
          match checksum with
          | .error e =>
              some (at' (if e.code = .cancelled then .finish .cancelled e.message else invalid))
          | .ok checksum =>
              if size ≠ artifact.size ∨ lowered checksum ≠ lowered artifact.sha256 then
                some (at' invalid)
              else some ((s.record (.matched run.cancelled artifact size checksum)).goto thread
                { id, pc := .placeArtifact run artifact rest completed })
      | _ => none
  | .placeArtifact run artifact rest completed =>
      match seen with
      | .thrown what => some (at' (unexpected what))
      | .moved _ (.error e) => some (at' (.finish .failed e.message))
      | .moved _ (.ok ()) => some (at' (.finishArtifact run artifact rest completed))
      | _ => none
  | .finishArtifact run artifact rest completed =>
      some (s.withJob thread id fun job =>
        (s.setJob id { job with bytesDownloaded := completed + artifact.size }).goto thread
          { id, pc := .nextArtifact run rest (completed + artifact.size) })
  | .commit run =>
      match s.cancellations.lookup id with
      | none => some (at' (unexpected (some outOfRange)))
      | some flag =>
          match s.beginInstallCommit id flag with
          | (.error e, s) => some (s.goto thread { id, pc := .finish .cancelled e.message })
          | (.ok (), s) => some (s.goto thread { id, pc := .place run })
  | .place run =>
      match seen with
      | .thrown what => some (at' (unexpected what))
      | .moved occupied result =>
          if !isBundle run.job && occupied then
            some (at' (.finish .failed "model artifact destination already exists"))
          else
            match result with
            | .error e => some (at' (.finish .failed e.message))
            | .ok () => some (at' (.publish run))
      | _ => none
  | .publish run =>
      let s := { s with
        installed := s.installed.insert run.job.modelName (manifestEntry s.root run.job) }
      some (s.withJob thread id fun job =>
        (s.setJob id
          { job with
            bytesDownloaded := if isBundle run.job then job.bytesDownloaded else run.job.file.size
            installedPath := finalPath s.root run.job }).goto thread { id, pc := .save run })
  | .save run =>
      match seen with
      | .thrown what => some (at' (unexpected what))
      | .saved (.error e) => some (at' (.withdraw run e.message))
      | .saved (.ok ()) => some (at' (.register run))
      | _ => none
  | .register run =>
      match s.registry.registerModel (info s.root run.job) with
      | (.error e, _) => some (at' (.withdraw run e.message))
      | (.ok (), registry) =>
          some (({ s with registry }.record
            (.registered run.cancelled run.job.modelName run.job.artifacts)).goto thread
              { id, pc := .finish .installed "" })
  | .withdraw run error =>
      some ({ s with installed := s.installed.erase run.job.modelName }.goto thread
        { id, pc := .finish .failed error })
  | .finish state error => some ((s.finishJob id state error).goto thread { id, pc := .leaving })
  | .quantizing name =>
      some ({ s with reservedNames := s.releaseName name id }.goto thread { id, pc := .leaving })
  | .leaving => some (at' .exited)
  | .exited => none

/-! ## The calls -/

def startFails (caller id : ℕ) (origin : Origin) (e : Error) : Store :=
  match origin with
  | .install modelName => s.setCall caller (.installUndo id modelName e)
  | .resume => s.answer caller (.error e)

def callStep (caller : ℕ) (call : Call) (failure : Option String) : Option Store :=
  match call with
  | .installReap request =>
      some (s.reapCompletedWorkers.setCall caller (.installReserve request))
  | .installReserve request =>
      match s.reserve request with
      | (.error e, s) => some (s.answer caller (.error e))
      | (.ok id, s) => some (s.setCall caller (.startReap id (.install request.modelName)))
  | .startReap id origin =>
      some (s.reapCompletedWorkers.setCall caller (.startCheck id origin))
  | .startCheck id origin =>
      match s.startCheck id with
      | (.error e, s) => some (s.startFails caller id origin e)
      | (.ok previous, s) => some (s.setCall caller (.startJoin id origin previous))
  | .startJoin id origin previous =>
      if previous.all s.hasExited then some (s.setCall caller (.startSpawn id origin)) else none
  | .startSpawn id origin =>
      match s.startSpawn id failure with
      | (.error e, s) => some (s.startFails caller id origin e)
      | (.ok (), s) => some (s.answer caller (.ok id))
  | .installUndo id modelName e => some ((s.undoInstall id modelName).answer caller (.error e))
  | .resumeReap id => some (s.reapCompletedWorkers.setCall caller (.resumeCheck id))
  | .resumeCheck id =>
      match s.resumeCheck id with
      | .error e => some (s.answer caller (.error e))
      | .ok () => some (s.setCall caller (.startReap id .resume))
  | .quantizeReserve source name =>
      if !s.installed.contains source then
        some (s.answer caller (err .notFound "managed source model not found"))
      else if failure.isSome then
        some (s.answer caller (err .unavailable "a quantization job is already active"))
      else if s.reservedNames.contains name || s.taken name then
        some (s.answer caller
          (err .alreadyExists "output model is already installed, registered, or reserved"))
      else some ((s.addQuantization name).setCall caller (.quantizeReap s.nextId name))
  | .quantizeReap id name =>
      some (s.reapCompletedWorkers.setCall caller (.quantizeStart id name))
  | .quantizeStart id name =>
      let undo := fun code message => Call.quantizeUndo id name { code, message }
      if maxRetainedJobs ≤ s.workers.entries.length then
        some (s.setCall caller (undo .unavailable "model store worker history is full"))
      else if s.workers.contains id then
        some (s.setCall caller (undo .alreadyExists "quantization worker already exists"))
      else
        match failure with
        | none => some ((s.spawn id (.quantizing name)).answer caller (.ok id))
        | some _ => some ((s.dropName name).setCall caller
            (undo .unavailable "cannot start quantization worker"))
  | .quantizeUndo _ name e => some ((s.dropName name).answer caller (.error e))

/-- `install` before it looks at the store: the artifacts are those of the catalogue. -/
def checkInstall (repo filename runtime modelName : String)
    (resolved : Result (StoreFile × List StoreFile)) (available : UInt64) :
    Result InstallRequest :=
  let severalFiles := ["sherpa_onnx", "ace_step_cpp", "ltx_video_cpp"].contains runtime
  let validBundle :=
    if runtime = "sherpa_onnx" then filename == sherpaBundleName
    else if runtime = "ltx_video_cpp" then filename == ltxBundleName
    else (aceStepBundleDit filename).isSome
  if modelName.isEmpty || decide (160 < modelName.utf8ByteSize) ||
      modelName.toList.getLast? == some '.' || safeName modelName.toList != modelName then
    err .invalidArgument "invalid model name"
  else if severalFiles && !validBundle then
    err .invalidArgument "multi-artifact runtime models must be installed as a complete bundle"
  else
    match resolved with
    | .error e => .error e
    | .ok (first, rest) =>
        if available < ((first :: rest).map StoreFile.size).sum + 64 * 1024 * 1024 then
          err .unavailable "insufficient disk space for model artifact"
        else .ok { repo, filename, modelName, first, rest }

end Store

inductive Action where
  | install (caller : ℕ) (repo filename runtime modelName : String)
      (resolved : Result (StoreFile × List StoreFile)) (available : UInt64)
  | resume (caller id : ℕ)
  | cancel (id : ℕ)
  /-- The next section of a call, in which something may fail: a thread may not come about. -/
  | call (caller : ℕ) (failure : Option String)
  | work (thread : ℕ) (seen : Seen)
  | quantize (caller : ℕ) (source name : String)
  /-- The other operations change what is installed and registered. -/
  | elsewhere (installed : Map String Json) (registry : ModelRegistry)

namespace Store

def next (s : Store) (action : Action) : Option Store :=
  if s.terminated then none
  else
    match action with
    | .install caller repo filename runtime modelName resolved available =>
        if (s.calls caller).isSome then none
        else
          match checkInstall repo filename runtime modelName resolved available with
          | .error e => some (s.answer caller (.error e))
          | .ok request => some (s.setCall caller (.installReap request))
    | .resume caller id =>
        if (s.calls caller).isSome then none else some (s.setCall caller (.resumeReap id))
    | .cancel id => some (s.cancel id).2
    | .call caller failure => (s.calls caller).bind fun call => s.callStep caller call failure
    | .work thread seen =>
        (s.threads thread).bind fun worker => s.workStep thread worker.id worker.pc seen
    | .quantize caller source name =>
        if (s.calls caller).isSome then none
        else some (s.setCall caller (.quantizeReserve source name))
    | .elsewhere installed registry => some { s with installed, registry }

def initial (root : String) (windows : Bool) (registry : ModelRegistry)
    (installed : Map String Json) : Store where
  root := root
  windows := windows
  registry := registry
  installed := installed

end Store

end InferDeck.Gateway.InstallJobs
