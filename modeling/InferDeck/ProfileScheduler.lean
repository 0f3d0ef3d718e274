import InferDeck.ProfileBenchmark

/-!
# The scheduler of profile benchmarks

`evaluate` records what the manager's snapshot says of the benchmark it has in flight, and starts one
for a model whose window is open. It calls `start` as the manager's starter `0`, and its critical
sections interleave with manual starts, with cancels and with the worker. The registry and the
schedules are constant; the time at which a run started is left out.
-/

namespace InferDeck.Gateway.ProfileScheduler

open InferDeck.Model ProfileBenchmark

structure Schedule where
  enabled : Bool := false
  windowStart : String := "03:00"
  windowEnd : String := "04:00"
  deriving DecidableEq, Repr

/-- `std::stoi` of two digits. -/
def twoDigits (digits : List Char) : ℕ :=
  digits.foldl (fun n c => 10 * n + (c.toNat - '0'.toNat)) 0

def minutes (value : String) : ℕ :=
  twoDigits (value.toList.take 2) * 60 + twoDigits ((value.toList.drop 3).take 2)

/-- A local time in minutes. -/
abbrev LocalTime := ℕ

def dateKey (now : LocalTime) : ℕ := now / 1440

def minuteOfDay (now : LocalTime) : ℕ := now % 1440

/-- What the snapshot has besides the state. -/
structure Details where
  message : String := ""
  finishedUnixMs : ℤ := 0
  deriving DecidableEq, Repr

structure Outcome where
  state : BenchmarkState
  details : Details
  deriving DecidableEq

/-- The manager. `outcomes` keeps what each run has written in `finish`. -/
structure Manager where
  world : ProfileBenchmark.World := {}
  details : Details := {}
  outcomes : List (ℕ × Outcome) := []

namespace Manager

variable (registry : ModelRegistry) (m : Manager)

def outcome : Outcome := ⟨m.world.state.state, m.details⟩

/-- Message and time after a step. The worker writes messages of its own, and its last ones with the
time in `finish`. -/
def detailsAfter (action : Action) (written : Details) : Details :=
  match action with
  | .startStep k _ =>
      match m.world.starts k with
      | .announcing _ => { message := "Preparing measured benchmark" }
      | .failing _ _ =>
          { message := "Could not start measured benchmark worker"
            finishedUnixMs := written.finishedUnixMs }
      | _ => m.details
  | .run _ =>
      match m.world.worker.map Run.pc with
      | some (.releasing _) | some .over => m.details
      | some (.finishing _ _) => written
      | _ => { m.details with message := written.message }
  | .cancel =>
      if m.world.state.state.active then
        { m.details with message := "Cancelling after the current model operation" }
      else m.details
  | .start _ _ _ | .storeReserve | .storeRelease => m.details

def outcomesAfter (action : Action) (written : Details) : List (ℕ × Outcome) :=
  match action, m.world.worker with
  | .run _, some run =>
      match run.pc with
      | .finishing state _ => m.outcomes ++ [(run.id, ⟨state, written⟩)]
      | _ => m.outcomes
  | _, _ => m.outcomes

def next (action : Action) (written : Details) : Option Manager :=
  (m.world.next registry action).map fun world =>
    { world, details := m.detailsAfter action written, outcomes := m.outcomesAfter action written }

end Manager

structure ScheduledOptimizationStatus where
  lastFinishedUnixMs : ℤ := 0
  /-- `none` is `"never"`. -/
  lastOutcome : Option BenchmarkState := none
  lastMessage : String := ""
  deriving DecidableEq

structure Launch where
  model : String
  now : LocalTime
  id : ℕ
  deriving DecidableEq, Repr

inductive EvaluatePc where
  | idle
  /-- Before the first and the second look at the snapshot. -/
  | looking
  | lookingAgain
  | deciding
  | starting (model : String) (now : LocalTime)
  | recording (launch : Launch)
  deriving DecidableEq

structure World where
  manager : Manager := {}
  pc : EvaluatePc := .idle
  inFlightModel : Option String := none
  attemptedDate : String → Option ℕ := fun _ => none
  state : String → ScheduledOptimizationStatus := fun _ => {}
  /-- The last local time that was read. -/
  clock : LocalTime := 0
  /-- The starts that returned Ok. -/
  launches : List Launch := []
  /-- The run that each status is about. -/
  launched : String → Option ℕ := fun _ => none
  /-- The last run that was started and whose end no poll has seen. -/
  following : Option ℕ := none

inductive ScheduleAction where
  /-- A step of a manual start, of the worker, a cancel or a step of the model store. -/
  | manual (action : Action) (written : Details)
  | poll
  | look
  /-- Reads the telemetry, the coordinator and the time, and chooses a model. -/
  | decide (now : LocalTime) (ready : Bool) (choice : Option String)
  | startStep (ok : Bool) (written : Details)
  | record

def schedulerOwn : Action → Bool
  | .start k _ _ | .startStep k _ => k == 0
  | .run _ | .cancel | .storeReserve | .storeRelease => false

namespace World

variable (registry : ModelRegistry) (schedules : String → Schedule) (w : World)

def windowOpen (name : String) (now : LocalTime) : Bool :=
  decide (minutes (schedules name).windowStart ≤ minuteOfDay now ∧
    minuteOfDay now < minutes (schedules name).windowEnd)

def due (name : String) (now : LocalTime) : Bool :=
  match registry.getInfoResult name with
  | .error _ => false
  | .ok info =>
      info.runtime == "llama_cpp" && (schedules name).enabled && windowOpen schedules name now &&
        decide (w.attemptedDate name ≠ some (dateKey now))

/-- The first critical section. -/
def poll : World :=
  let snapshot := w.manager.outcome
  match w.inFlightModel with
  | none => { w with pc := .looking }
  | some model =>
      if snapshot.state.active then { w with pc := .looking }
      else { w with
        pc := .looking
        inFlightModel := none
        following := none
        state := Function.update w.state model
          { lastFinishedUnixMs := snapshot.details.finishedUnixMs
            lastOutcome := some snapshot.state
            lastMessage := snapshot.details.message } }

/-- `start` with three candidates. -/
def startModel (name : String) (now : LocalTime) : Option World :=
  match registry.getInfoResult name with
  | .error _ => none
  | .ok info =>
      (w.manager.next registry (.start 0 info 3) {}).map fun manager =>
        { w with
          manager
          clock := now
          pc := if manager.world.starts 0 = .idle then .idle else .starting name now }

/-- Where no model is due, or for a due one: the registry lists its models in any order. -/
def decide (now : LocalTime) (ready : Bool) (choice : Option String) : Option World :=
  if now < w.clock then none
  else if !ready then some { w with pc := .idle }
  else
    match choice with
    | none =>
        if registry.entries.values.any fun info => w.due registry schedules info.name now then none
        else some { w with pc := .idle, clock := now }
    | some name => if w.due registry schedules name now then w.startModel registry name now else none

def startStep (model : String) (now : LocalTime) (ok : Bool) (written : Details) : Option World :=
  (w.manager.next registry (.startStep 0 ok) written).map fun manager =>
    match w.manager.world.starts 0, ok with
    | .spawning _ id, true =>
        { w with
          manager
          pc := .recording ⟨model, now, id⟩
          launches := w.launches ++ [⟨model, now, id⟩]
          following := some id }
    | _, _ =>
        { w with manager, pc := if manager.world.starts 0 = .idle then .idle else .starting model now }

/-- The last critical section. -/
def record (launch : Launch) : World :=
  { w with
    pc := .idle
    attemptedDate := Function.update w.attemptedDate launch.model (some (dateKey launch.now))
    inFlightModel := some launch.model
    state := Function.update w.state launch.model
      { w.state launch.model with
        lastOutcome := some .running
        lastMessage := "Scheduled benchmark started" }
    launched := Function.update w.launched launch.model (some launch.id) }

def next : ScheduleAction → Option World
  | .manual action written =>
      if schedulerOwn action then none
      else (w.manager.next registry action written).map fun manager => { w with manager }
  | .poll => if w.pc = .idle then some w.poll else none
  | .look =>
      match w.pc with
      | .looking =>
          some { w with
            pc := if w.manager.world.state.state = .running then .idle else .lookingAgain }
      | .lookingAgain =>
          some { w with
            pc := if w.manager.world.state.state = .cancelling then .idle else .deciding }
      | _ => none
  | .decide now ready choice =>
      if w.pc = .deciding then w.decide registry schedules now ready choice else none
  | .startStep ok written =>
      match w.pc with
      | .starting model now => w.startStep registry model now ok written
      | _ => none
  | .record =>
      match w.pc with
      | .recording launch => some (w.record launch)
      | _ => none

end World

end InferDeck.Gateway.ProfileScheduler
