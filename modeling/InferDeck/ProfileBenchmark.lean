import InferDeck.Execution
import InferDeck.ModelInfo

/-!
# The measured profile benchmark

`start` reserves the compute resource of a model, looks for work on it and starts the worker; the
worker unloads what is resident, measures the candidates, loads what was resident again and
finishes. `cancel` sets a flag that the worker looks at. Calls of `start` interleave with one
another, with the worker, with `cancel` and with the quantizations of the model store, which reserve
the same resource.
-/

namespace InferDeck.Gateway.ProfileBenchmark

open InferDeck.Model

inductive ComputeResource where
  | none
  | cpu
  | gpu
  deriving DecidableEq, Repr

def modelComputeResource (info : ModelInfo) : ComputeResource :=
  if info.compute = .cpu then .cpu else .gpu

/-- A benchmark that `start` was called for. The ticket numbers the reservation. -/
structure Job where
  ticket : ℕ
  model : ModelInfo
  candidateLimit : ℕ
  deriving DecidableEq

def Job.resource (job : Job) : ComputeResource := modelComputeResource job.model

inductive BenchmarkState where
  | idle
  | running
  | cancelling
  | completed
  | failed
  | cancelled
  deriving DecidableEq, Repr

def BenchmarkState.active : BenchmarkState → Bool
  | .running | .cancelling => true
  | .idle | .completed | .failed | .cancelled => false

structure Snapshot where
  id : ℕ := 0
  state : BenchmarkState := .idle
  restored : Bool := false
  hasBaseline : Bool := false
  hasRecommendation : Bool := false
  /-- Whether each trial completed. -/
  trials : List Bool := []
  deriving DecidableEq

/-- Where `release_resource` is: before the exchange of the benchmark's own record, or before the
comparison of the shared resource with what the record said. -/
inductive ReleasePc where
  | exchange
  | compare (owned : ComputeResource)
  deriving DecidableEq

/-- What `run` does once the models are loaded again. -/
inductive AfterRestore where
  | fail
  | cancel
  | baselineError
  | finalCheck
  deriving DecidableEq

inductive RunPc where
  | entered
  | unloading (rest : List String)
  | firstCheck
  | selecting
  | baseline (selected : ℕ)
  | trialCheck (remaining : ℕ)
  | trial (remaining : ℕ)
  | restoring (rest : List String) (ok : Bool) (after : AfterRestore)
  | flagCheck (restored : Bool)
  | finalCheck (restored : Bool)
  | scoring (restored : Bool)
  | concluding (restored : Bool)
  | finishing (state : BenchmarkState) (restored : Bool)
  | releasing (pc : ReleasePc)
  | over
  deriving DecidableEq

/-- The worker. `resident` and `primaryBefore` are what the coordinator answered when the run began,
`loads` are the loads of its restore that succeeded. -/
structure Run where
  id : ℕ
  job : Job
  resident : List String := []
  previousModels : List String := []
  primaryBefore : Option String := none
  loads : List String := []
  pc : RunPc := .entered
  deriving DecidableEq

namespace Run

variable (run : Run)

/-- The primary is kept where it is one of the models that are loaded again. -/
def previousPrimary : Option String :=
  run.primaryBefore.filter fun name => run.previousModels.contains name

def restoreOrder : List String :=
  (run.previousModels.filter fun name => run.previousPrimary ≠ some name) ++
    run.previousPrimary.toList

def restore (after : AfterRestore) : Run :=
  { run with loads := [], pc := .restoring run.restoreOrder true after }

/-- The run has not come to `finish` or is before the critical section there. -/
def unfinished : Bool :=
  match run.pc with
  | .releasing _ | .over => false
  | _ => true

end Run

inductive StartPc where
  | idle
  | checked (model : ModelInfo) (candidateLimit : ℕ)
  | exchanged (job : Job)
  | stored (job : Job)
  | joining (job : Job)
  | resetting (job : Job)
  | announcing (job : Job)
  | spawning (job : Job) (id : ℕ)
  | failing (job : Job) (id : ℕ)
  | releasing (job : Job) (pc : ReleasePc)
  deriving DecidableEq

inductive Party where
  | starter (k : ℕ)
  | worker
  deriving DecidableEq

/-- Who holds the shared resource. -/
inductive Holder where
  | benchmark (party : Party) (job : Job)
  | store
  deriving DecidableEq

/-- A run that has passed through `finish`. -/
structure Ending where
  run : Run
  snapshot : Snapshot
  deriving DecidableEq

structure World where
  maintenance : ComputeResource := .none
  reserved : ComputeResource := .none
  storeReserved : Bool := false
  cancelRequested : Bool := false
  state : Snapshot := {}
  nextId : ℕ := 1
  starts : ℕ → StartPc := fun _ => .idle
  worker : Option Run := none
  holder : Option Holder := none
  tickets : ℕ := 0
  /-- The releases by the benchmark: whose release it was, and whom it took the resource from. -/
  released : List (Job × Option Holder) := []
  started : List ℕ := []
  /-- The runs for which `cancel` returned Ok. -/
  cancels : List ℕ := []
  ended : List Ending := []

inductive RunnerOutcome where
  | measured
  | error
  | exception
  deriving DecidableEq

inductive RunInput where
  /-- The answers of `get_loaded_models` and `get_loaded_model`. -/
  | residents (resident : List String) (primary : Option String)
  /-- The outcome of an unload or a load. -/
  | lifecycle (ok : Bool)
  | select (candidates : ℕ)
  | runner (outcome : RunnerOutcome)
  /-- The best trial, where it fits. -/
  | score (best : Option ℕ)
  | step
  deriving DecidableEq

inductive Action where
  | start (k : ℕ) (model : ModelInfo) (candidateLimit : ℤ)
  /-- The next step of a call; `ok` says that no work was found, or that the thread started. -/
  | startStep (k : ℕ) (ok : Bool)
  | run (input : RunInput)
  | cancel
  | storeReserve
  | storeRelease

namespace World

variable (w : World)

def gotoStart (k : ℕ) (pc : StartPc) : World :=
  { w with starts := Function.update w.starts k pc }

/-- The steps of `release_resource`, with where it is afterwards. -/
def releaseResource (job : Job) : ReleasePc → World × Option ReleasePc
  | .exchange =>
      if w.reserved = .none then (w, none)
      else ({ w with reserved := .none }, some (.compare w.reserved))
  | .compare owned =>
      if w.maintenance = owned then
        ({ w with
            maintenance := .none
            holder := none
            released := w.released ++ [(job, w.holder)] }, none)
      else (w, none)

/-- The critical section of `finish`. -/
def finish (state : BenchmarkState) (restored : Bool) : World :=
  { w with state := { w.state with state, restored } }

def start (k : ℕ) (model : ModelInfo) (candidateLimit : ℤ) : Option World :=
  if w.starts k ≠ .idle then none
  else if candidateLimit < 1 ∨ 4 < candidateLimit then some w
  else if w.state.state.active then some w
  else some (w.gotoStart k (.checked model candidateLimit.toNat))

def workerOver : Bool :=
  match w.worker with
  | none => true
  | some run => decide (run.pc = .over)

def startStep (k : ℕ) (ok : Bool) : Option World :=
  match w.starts k with
  | .idle => none
  | .checked model candidateLimit =>
      if w.maintenance = .none then
        let job : Job := { ticket := w.tickets, model, candidateLimit }
        some { w.gotoStart k (.exchanged job) with
          maintenance := job.resource
          holder := some (.benchmark (.starter k) job)
          tickets := w.tickets + 1 }
      else some (w.gotoStart k .idle)
  | .exchanged job => some { w.gotoStart k (.stored job) with reserved := job.resource }
  | .stored job => some (w.gotoStart k (if ok then .joining job else .releasing job .exchange))
  | .joining job => if w.workerOver then some (w.gotoStart k (.resetting job)) else none
  | .resetting job => some { w.gotoStart k (.announcing job) with cancelRequested := false }
  | .announcing job =>
      some { w.gotoStart k (.spawning job w.nextId) with
        state := { id := w.nextId, state := .running }
        nextId := w.nextId + 1 }
  | .spawning job id =>
      if ok then
        some { w.gotoStart k .idle with
          worker := some { id, job }
          holder := some (.benchmark .worker job)
          started := w.started ++ [id] }
      else some (w.gotoStart k (.failing job id))
  | .failing job _ => some ((w.finish .failed false).gotoStart k (.releasing job .exchange))
  | .releasing job pc =>
      let (w', next) := w.releaseResource job pc
      some (w'.gotoStart k (next.elim .idle (.releasing job)))

def cancel : World :=
  if w.state.state.active then
    { w with
      cancelRequested := true
      state := { w.state with state := .cancelling }
      cancels := w.cancels ++ [w.state.id] }
  else w

def storeReserve : World :=
  if w.maintenance = .none then
    { w with maintenance := .cpu, storeReserved := true, holder := some .store }
  else w

def storeRelease : World :=
  if w.storeReserved then
    if w.maintenance = .cpu then
      { w with maintenance := .none, storeReserved := false, holder := none }
    else { w with storeReserved := false }
  else w

def gotoRun (run : Run) (pc : RunPc) : World := { w with worker := some { run with pc } }

end World

variable (registry : ModelRegistry)

def onResource (resource : ComputeResource) (name : String) : Bool :=
  match registry.getInfoResult name with
  | .ok info => decide (modelComputeResource info = resource)
  | .error _ => false

/-- Loading the model makes it the primary one. -/
def selects (name : String) : Bool :=
  match registry.getInfoResult name with
  | .ok info => isPrimaryModel info
  | .error _ => false

namespace World

variable (w : World)

/-- `run`. The coordinator's primary is a model that a load selects. -/
def runStep (run : Run) : RunPc → RunInput → Option World
  | .entered, .residents resident primary =>
      if primary.all (selects registry) then
        let previousModels := resident.filter (onResource registry run.job.resource)
        some { w with
          worker := some { run with
            resident, previousModels, primaryBefore := primary, pc := .unloading previousModels } }
      else none
  | .unloading (_ :: rest), .lifecycle ok =>
      some (if ok then w.gotoRun run (.unloading rest) else { w with worker := run.restore .fail })
  | .unloading [], .step => some (w.gotoRun run .firstCheck)
  | .firstCheck, .step =>
      some (if w.cancelRequested then { w with worker := run.restore .cancel }
        else w.gotoRun run .selecting)
  | .selecting, .select candidates =>
      if run.job.candidateLimit < candidates then none
      else if candidates = 0 then some { w with worker := run.restore .fail }
      else some (w.gotoRun run (.baseline candidates))
  | .baseline selected, .runner outcome =>
      match outcome with
      | .measured =>
          some { w.gotoRun run (.trialCheck selected) with
            state := { w.state with hasBaseline := true } }
      | .error =>
          some { w with
            worker := run.restore .baselineError
            state := { w.state with hasBaseline := true } }
      | .exception => some { w with worker := run.restore .fail }
  | .trialCheck remaining, .step =>
      match remaining with
      | 0 => some { w with worker := run.restore .finalCheck }
      | remaining + 1 =>
          some (if w.cancelRequested then { w with worker := run.restore .finalCheck }
            else w.gotoRun run (.trial remaining))
  | .trial remaining, .runner outcome =>
      match outcome with
      | .exception => some { w with worker := run.restore .fail }
      | outcome =>
          some { w.gotoRun run (.trialCheck remaining) with
            state := { w.state with
              trials := w.state.trials ++ [decide (outcome = .measured)] } }
  | .restoring (name :: rest) ok after, .lifecycle loaded =>
      some { w with
        worker := some { run with
          loads := if loaded then run.loads ++ [name] else run.loads
          pc := .restoring rest (ok && loaded) after } }
  | .restoring [] ok after, .step =>
      some (w.gotoRun run (match after with
        | .fail => .finishing .failed ok
        | .cancel => .finishing .cancelled ok
        | .baselineError => .flagCheck ok
        | .finalCheck => .finalCheck ok))
  | .flagCheck restored, .step =>
      some (w.gotoRun run (.finishing (if w.cancelRequested then .cancelled else .failed) restored))
  | .finalCheck restored, .step =>
      some (w.gotoRun run
        (if w.cancelRequested then .finishing .cancelled restored else .scoring restored))
  | .scoring restored, .score best =>
      some { w.gotoRun run (.concluding restored) with
        state := { w.state with
          hasRecommendation := best.any fun index => w.state.trials[index]?.getD false } }
  | .concluding restored, .step =>
      let measured := w.state.hasRecommendation || w.state.trials.any id
      some (w.gotoRun run (.finishing (if measured then .completed else .failed) restored))
  | .finishing state restored, .step =>
      let w' := w.finish state restored
      some { w'.gotoRun run (.releasing .exchange) with
        ended := w.ended ++ [{ run, snapshot := w'.state }] }
  | .releasing pc, .step =>
      let (w', next) := w.releaseResource run.job pc
      some (w'.gotoRun run (next.elim .over .releasing))
  | _, _ => none

def next : Action → Option World
  | .start k model candidateLimit => w.start k model candidateLimit
  | .startStep k ok => w.startStep k ok
  | .run input => w.worker.bind fun run => w.runStep registry run run.pc input
  | .cancel => some w.cancel
  | .storeReserve => some w.storeReserve
  | .storeRelease => some w.storeRelease

end World

end InferDeck.Gateway.ProfileBenchmark
