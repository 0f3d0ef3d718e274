import InferDeck.Execution

/-!
# The speech stream

`handle_audio_speech` has three threads on the state of a stream: the synthesis worker, whose
callback queues the chunks that the backend passes to it, the chunk provider, which writes them,
and the resource releaser. The first call of `finish` cleans up. Any thread may cancel the job.

A step is an access to an atomic or a section under the mutex between two such accesses. Where the
code tests `aborted` and `cancelled` in one condition, the step reads both. Every wait has a time
limit, so that it may end in every state and notifications need not be modelled.
-/

namespace InferDeck.Gateway.SpeechStream

abbrev Bytes := List UInt8

def maxPendingChunks : ℕ := 64

def maxPendingBytes : ℕ := 2 * 1024 * 1024

/-- What `synthesize` leaves the worker with. -/
inductive Outcome where
  | result (bytes : Bytes)
  | failed
  | threw
  deriving DecidableEq

inductive WorkerPc where
  /-- Inside `synthesize`, outside of the callback. -/
  | synthesizing
  /-- The callback goes for the mutex with a chunk. -/
  | locking (chunk : Bytes)
  /-- At the condition of the capacity loop, with the mutex. -/
  | testing (chunk : Bytes)
  | waiting (chunk : Bytes)
  /-- After the loop, with the mutex. -/
  | queueing (chunk : Bytes)
  /-- The callback stores `failed` and returns false. -/
  | failing
  /-- At the last return of the callback. -/
  | returning
  /-- `synthesize` has a result. -/
  | publishing (bytes : Bytes)
  /-- `synthesize` has an error: the steps of its two branches on `cancelled`. -/
  | cancelRead
  | failedStored (failed : Bool)
  | cancelReadAgain
  | abortStored
  /-- It threw, or the worker did. -/
  | throwing
  | finishing
  | ended
  deriving DecidableEq

/-- The steps of a call of `finish` that cleans up, with its status. `isOpen` is before the first
call, and `closed` is when it has returned. -/
inductive Cleanup where
  | isOpen
  | storing (status : ℕ)
  | joining (status : ℕ)
  | recording (status : ℕ)
  | finishingJob (status : ℕ)
  | releasing (status : ℕ)
  | closed (status : ℕ)
  deriving DecidableEq

inductive FinishPc where
  | entering (status : ℕ)
  | cleaning
  deriving DecidableEq

inductive ProviderPc where
  | idle
  /-- It goes for the mutex, at first or after a wait. -/
  | locking
  /-- At the condition of the wait, with the mutex. -/
  | testing
  /-- After the wait, with the mutex. -/
  | looking
  | checking
  | failedRead
  | abortedRead (failed : Bool)
  | writing (chunk : Bytes)
  | finish (call : FinishPc)
  deriving DecidableEq

inductive ReleaserPc where
  | idle
  | abortedRead
  | failedRead
  | finish (call : FinishPc)
  deriving DecidableEq

inductive Party where
  | worker
  | provider
  deriving DecidableEq

inductive JobState where
  | completed
  | cancelled
  | failed
  deriving DecidableEq

/-- What the worker has had from the backend and put into the queue. -/
structure Intake where
  /-- The chunks that the backend passed to the callback. -/
  passed : List Bytes := []
  /-- The callback has returned false. -/
  denied : Bool := false
  /-- The bytes of the result. -/
  result : Option Bytes := none
  accepted : List Bytes := []
  deriving DecidableEq

/-- What the provider has taken out of the queue and what the cleanup has done. -/
structure Output where
  taken : List Bytes := []
  written : List Bytes := []
  /-- The sink has refused a chunk. -/
  refused : Bool := false
  recorded : List ℕ := []
  jobs : List JobState := []
  released : ℕ := 0
  deriving DecidableEq

structure State where
  mtx : Option Party := none
  chunks : List Bytes := []
  pendingBytes : ℕ := 0
  streamedBytes : Bool := false
  aborted : Bool := false
  finished : Bool := false
  failed : Bool := false
  /-- `job->cancelled`. -/
  cancelled : Bool := false
  worker : WorkerPc := .synthesizing
  provider : ProviderPc := .idle
  releaser : ReleaserPc := .idle
  cleanup : Cleanup := .isOpen
  intake : Intake := {}
  output : Output := {}
  deriving DecidableEq

inductive Action where
  /-- The backend passes a chunk to the callback, or a null pointer with a size. -/
  | deliver (data : Option Bytes)
  | synthesized (outcome : Outcome)
  /-- The next step of the worker, where memory may run out. -/
  | work (outOfMemory : Bool)
  | provide
  /-- The next step of the provider, where its wait may have timed out and the sink may refuse. -/
  | runProvider (timedOut sinkAccepts : Bool)
  | release (success : Bool)
  | runReleaser
  | cancel
  deriving DecidableEq

def jobStateOf (status : ℕ) : JobState :=
  if status = 200 then .completed else if status = 499 then .cancelled else .failed

namespace State

variable (s : State)

def stopped : Bool := s.aborted || s.cancelled

def hasCapacity (size : ℕ) : Bool :=
  decide (s.chunks.length < maxPendingChunks) &&
    (s.chunks.isEmpty ||
      decide (size ≤ maxPendingBytes) && decide (s.pendingBytes ≤ maxPendingBytes - size))

def lock (party : Party) : Option State :=
  if s.mtx = none then some { s with mtx := some party } else none

def unlock : State := { s with mtx := none }

/-- The callback returns false. -/
def deny : State :=
  { s with worker := .synthesizing, intake := { s.intake with denied := true } }

def push (chunk : Bytes) : State :=
  { s with
    chunks := s.chunks ++ [chunk]
    pendingBytes := s.pendingBytes + chunk.length
    intake := { s.intake with accepted := s.intake.accepted ++ [chunk] } }

/-- The callback up to its mutex. -/
def deliver (data : Option Bytes) : State :=
  let s := { s with intake := { s.intake with passed := s.intake.passed ++ data.toList } }
  if s.stopped then s.deny
  else
    match data with
    | none => { s with worker := .failing, intake := { s.intake with denied := true } }
    | some [] => { s with worker := .returning }
    | some chunk => { s with worker := .locking chunk }

/-- The worker after `synthesize`: an error after the callback returned false. -/
def synthesized : Outcome → Option State
  | .result bytes =>
      if s.intake.denied then none
      else some { s with worker := .publishing bytes, intake := { s.intake with result := bytes } }
  | .failed => some { s with worker := .cancelRead }
  | .threw => some { s with worker := .throwing }

/-- The bytes of the result are queued where no chunk was. -/
def publish (bytes : Bytes) (outOfMemory : Bool) : State :=
  if !s.streamedBytes && !bytes.isEmpty then
    if outOfMemory then { s with worker := .throwing }
    else { s.push bytes with worker := .finishing }
  else { s with worker := .finishing }

def work (outOfMemory : Bool) : Option State :=
  match s.worker with
  | .synthesizing | .ended => none
  | .locking chunk => (s.lock .worker).map fun s => { s with worker := .testing chunk }
  | .testing chunk =>
      if s.stopped || s.hasCapacity chunk.length then some { s with worker := .queueing chunk }
      else some { s.unlock with worker := .waiting chunk }
  | .waiting chunk => (s.lock .worker).map fun s => { s with worker := .testing chunk }
  | .queueing chunk =>
      if s.stopped then some s.unlock.deny
      else if outOfMemory then
        some { s.unlock with worker := .failing, intake := { s.intake with denied := true } }
      else some { s.unlock.push chunk with worker := .returning, streamedBytes := true }
  | .failing => some { s.deny with failed := true }
  | .returning => if s.stopped then some s.deny else some { s with worker := .synthesizing }
  | .publishing bytes => if s.mtx = none then some (s.publish bytes outOfMemory) else none
  | .cancelRead => some { s with worker := .failedStored (!s.cancelled) }
  | .failedStored failed => some { s with worker := .cancelReadAgain, failed := failed }
  | .cancelReadAgain =>
      if s.cancelled then some { s with worker := .abortStored }
      else some { s with worker := .finishing }
  | .abortStored => some { s with worker := .finishing, aborted := true }
  | .throwing => some { s with worker := .finishing, failed := true }
  | .finishing => some { s with worker := .ended, finished := true }

/-- The next step of the call of `finish` that cleans up. -/
def clean : Option State :=
  match s.cleanup with
  | .isOpen | .closed _ => none
  | .storing status =>
      some { s with aborted := decide (status = 499), cleanup := .joining status }
  | .joining status =>
      if s.worker = .ended then some { s with cleanup := .recording status } else none
  | .recording status =>
      some { s with
        cleanup := .finishingJob status
        output := { s.output with recorded := s.output.recorded ++ [status] } }
  | .finishingJob status =>
      some { s with
        cleanup := .releasing status
        output := { s.output with jobs := s.output.jobs ++ [jobStateOf status] } }
  | .releasing status =>
      some { s with
        cleanup := .closed status
        output := { s.output with released := s.output.released + 1 } }

/-- The next step of a call of `finish`, and what is left of it: the first one cleans up. -/
def runFinish : FinishPc → Option (State × Option FinishPc)
  | .entering status =>
      if s.cleanup = .isOpen then some ({ s with cleanup := .storing status }, some .cleaning)
      else some (s, none)
  | .cleaning =>
      match s.cleanup with
      | .isOpen | .closed _ => some (s, none)
      | _ => s.clean.map fun s => (s, some .cleaning)

def runProvider (timedOut sinkAccepts : Bool) : Option State :=
  match s.provider with
  | .idle => none
  | .locking => (s.lock .provider).map fun s => { s with provider := .testing }
  | .testing =>
      if !s.chunks.isEmpty || s.finished || s.aborted || timedOut then
        some { s with provider := .looking }
      else some { s.unlock with provider := .locking }
  | .looking =>
      match s.chunks with
      | chunk :: chunks =>
          some { s.unlock with
            provider := .writing chunk
            chunks := chunks
            pendingBytes := s.pendingBytes - chunk.length
            output := { s.output with taken := s.output.taken ++ [chunk] } }
      | [] => some { s with provider := .checking }
  | .checking =>
      if s.finished then some { s with provider := .failedRead }
      else some { s.unlock with provider := .idle }
  | .failedRead => some { s with provider := .abortedRead s.failed }
  | .abortedRead failed =>
      some { s.unlock with
        provider := .finish (.entering (if s.aborted then 499 else if failed then 500 else 200)) }
  | .writing chunk =>
      if sinkAccepts then
        some { s with
          provider := .idle
          output := { s.output with written := s.output.written ++ [chunk] } }
      else
        some { s with
          provider := .finish (.entering 499)
          output := { s.output with refused := true } }
  | .finish call =>
      (s.runFinish call).map fun next =>
        { next.1 with provider := (next.2.map ProviderPc.finish).getD .idle }

def runReleaser : Option State :=
  match s.releaser with
  | .idle => none
  | .abortedRead =>
      if s.aborted then some { s with releaser := .finish (.entering 499) }
      else some { s with releaser := .failedRead }
  | .failedRead =>
      some { s with releaser := .finish (.entering (if s.failed then 500 else 200)) }
  | .finish call =>
      (s.runFinish call).map fun next =>
        { next.1 with releaser := (next.2.map ReleaserPc.finish).getD .idle }

def step : Action → Option State
  | .deliver data =>
      match s.worker with
      | .synthesizing => some (s.deliver data)
      | _ => none
  | .synthesized outcome =>
      match s.worker with
      | .synthesizing => s.synthesized outcome
      | _ => none
  | .work outOfMemory => s.work outOfMemory
  | .provide =>
      match s.provider with
      | .idle => some { s with provider := .locking }
      | _ => none
  | .runProvider timedOut sinkAccepts => s.runProvider timedOut sinkAccepts
  | .release success =>
      match s.releaser with
      | .idle =>
          some { s with releaser := if success then .abortedRead else .finish (.entering 499) }
      | _ => none
  | .runReleaser => s.runReleaser
  | .cancel => some { s with cancelled := true }

end State

end InferDeck.Gateway.SpeechStream
