import InferDeck.JsonBody
import Mathlib

/-!
# Studies

A study samples its search space, asks an objective for a score and keeps every trial. `run` reports
the best completed trial, `bestTrial` folds the whole history. Texts are bytes; a `double` is its
exact value, `none` where it is not finite. The clock, the generator and the objective are
parameters.
-/

namespace InferDeck.Optimize

open Gateway

abbrev Double := Option ℚ

inductive ParamType where
  | int
  | float
  | categorical
  deriving DecidableEq, Repr

structure ParamSpec where
  name : ByteArray
  type : ParamType := .float
  minV : Double := some 0
  maxV : Double := some 1
  step : Double := some 0
  logScale : Bool := false
  choices : List ByteArray := []
  deriving DecidableEq

inductive Value where
  | int (n : Int64)
  | float (x : Double)
  | text (s : ByteArray)
  deriving DecidableEq

structure ParamValue where
  name : ByteArray
  value : Value
  deriving DecidableEq

structure TrialResult where
  trialNumber : Int64 := 0
  params : List ParamValue := []
  score : ℚ := 0
  durationSeconds : ℚ := 0
  completed : Bool := false
  error : ByteArray := .empty
  deriving DecidableEq

structure StudyConfig where
  studyName : ByteArray := "default".toUTF8
  nTrials : Int32 := 30
  seed : Int64 := 0
  direction : ℚ := 1

structure Study where
  cfg : StudyConfig
  specs : List ParamSpec
  history : List TrialResult := []

structure StudyResult where
  nTrials : ℤ := 0
  bestTrial : ℤ := -1
  bestScore : ℚ := 0
  bestParams : List ParamValue := []
  allTrials : List TrialResult := []
  error : String := ""
  ok : Bool := false

/-- What an objective throws: a `std::exception` with its text, or anything else. -/
abbrev Thrown := Option ByteArray

/-- What surrounds a run: the seeds, the generator, the objective, which may answer differently each
time, and the durations. -/
structure Environment where
  seed : ℕ → Int64
  sample : Int64 → List ParamValue
  objective : ℕ → List ParamValue → Except Thrown ℚ
  duration : ℕ → ℚ := fun _ => 0

/-- The double `1e308`. -/
def huge : ℚ := 0x11ccf385ebc8a0 * 2 ^ 971

namespace Study

variable (s : Study)

def failedScore : ℚ := if 0 < s.cfg.direction then 0 else 1

def trial (env : Environment) (i : ℕ) : TrialResult :=
  let params := env.sample (env.seed i)
  let result : TrialResult := { trialNumber := .ofNat i, durationSeconds := env.duration i }
  match env.objective i params with
  | .ok score => { result with params, score, completed := true }
  | .error what =>
      { result with params, score := s.failedScore, error := what.getD "unknown exception".toUTF8 }

/-- The better of two trials: the first one stays where the second is not strictly better. -/
def better (best t : TrialResult) : TrialResult :=
  if s.cfg.direction * best.score < s.cfg.direction * t.score then t else best

def bestTrial : Option TrialResult :=
  match s.history with
  | [] => none
  | t :: history => some (history.foldl s.better t)

def reset : Study := { s with history := [] }

/-- One turn of the loop of `run`. -/
def runTrial (env : Environment) (run : StudyResult × Study) (i : ℕ) : StudyResult × Study :=
  let (out, s) := run
  let t := s.trial env i
  let history := s.history ++ [t]
  let out := { out with allTrials := out.allTrials ++ [t], nTrials := history.length }
  if t.completed ∧ s.cfg.direction * out.bestScore < s.cfg.direction * t.score then
    ({ out with bestScore := t.score, bestTrial := i, bestParams := t.params }, { s with history })
  else (out, { s with history })

def run (env : Environment) : StudyResult × Study :=
  if s.specs.isEmpty then ({ error := "empty search space" }, s)
  else
    let start : StudyResult := { bestScore := if 0 < s.cfg.direction then -huge else huge }
    let (out, s') := (List.range s.cfg.nTrials.toInt.toNat).foldl (runTrial env) (start, s)
    ({ out with ok := decide (0 ≤ out.bestTrial) }, s')

end Study

/-! ### The file -/

/-- A text in the file: one that is not UTF-8 makes `dump` throw. -/
def textJson (s : ByteArray) : Option Json := (String.fromUTF8? s).map .string

/-- A double in the file: one that is not finite becomes `null`. -/
def doubleJson (x : Double) : Json := x.elim .null .real

/-- An integer as it is read back: the parser takes those without a sign as unsigned. -/
def intJson (n : Int64) : Json := if 0 ≤ n then .unsigned n.toUInt64 else .integer n

def getText (j : Json) : Option ByteArray := j.string?.map String.toUTF8

def getDouble (j : Json) : Option Double := j.number?.map some

def getInt64 (j : Json) : Option Int64 := j.getInt64.map Int64.ofInt

def valueOf {α : Type} (j : Json) (key : String) (read : Json → Option α) (fallback : α) : Option α :=
  (j.field? key).elim (some fallback) read

def items : Json → Option (List Json)
  | .array items => some items
  | _ => none

def paramJson (p : ParamValue) : Option Json := do
  let name ← textJson p.name
  let value ← match p.value with
    | .int n => some (intJson n)
    | .float x => some (doubleJson x)
    | .text s => textJson s
  return .object [("name", name), ("value", value)]

def paramFromJson (j : Json) : Option ParamValue := do
  let name ← (← j.field? "name") |> getText
  let v ← j.field? "value"
  let value ← match v with
    | .integer _ | .unsigned _ => (getInt64 v).map Value.int
    | .real x => some (.float (some x))
    | _ => (getText v).map Value.text
  return { name, value }

def typeName : ParamType → String
  | .int => "int"
  | .float => "float"
  | .categorical => "categorical"

def specJson (s : ParamSpec) : Option Json := do
  let name ← textJson s.name
  if s.type ≠ .categorical then
    return .object [("name", name), ("type", .string (typeName s.type)), ("min", doubleJson s.minV),
      ("max", doubleJson s.maxV), ("log_scale", .boolean s.logScale)]
  else
    let choices ← s.choices.mapM textJson
    return .object [("name", name), ("type", .string (typeName s.type)), ("choices", .array choices)]

def specFromJson (j : Json) : Option ParamSpec := do
  let name ← (← j.field? "name") |> getText
  let type ← (← j.field? "type").string?
  if type = "int" then
    let minV ← (← j.field? "min") |> getDouble
    let maxV ← (← j.field? "max") |> getDouble
    return { name, type := .int, minV, maxV, step := some 1 }
  else if type = "float" then
    let minV ← (← j.field? "min") |> getDouble
    let maxV ← (← j.field? "max") |> getDouble
    let logScale ← valueOf j "log_scale" Json.boolean? false
    return { name, type := .float, minV, maxV, logScale }
  else
    let choices ← (← j.field? "choices") |> items
    let choices ← choices.mapM getText
    return { name, type := .categorical, choices }

def trialJson (t : TrialResult) : Option Json := do
  let error ← textJson t.error
  let params ← t.params.mapM paramJson
  return .object [("trial_number", intJson t.trialNumber), ("score", .real t.score),
    ("duration_seconds", .real t.durationSeconds), ("completed", .boolean t.completed),
    ("error", error), ("params", .array params)]

def trialFromJson (j : Json) : Option TrialResult := do
  let trialNumber ← valueOf j "trial_number" getInt64 0
  let score ← valueOf j "score" Json.number? 0
  let durationSeconds ← valueOf j "duration_seconds" Json.number? 0
  let completed ← valueOf j "completed" Json.boolean? false
  let error ← valueOf j "error" getText .empty
  let params ← (((j.field? "params").bind items).getD []).mapM paramFromJson
  return { trialNumber, params, score, durationSeconds, completed, error }

namespace Study

/-- What the file holds, where `dump` does not throw and the file is written. -/
def saveJson (s : Study) : Option Json := do
  let name ← textJson s.cfg.studyName
  let space ← s.specs.mapM specJson
  let trials ← s.history.mapM trialJson
  return .object [("study_name", name), ("n_trials", intJson s.cfg.nTrials.toInt64),
    ("seed", intJson s.cfg.seed), ("direction", .real s.cfg.direction),
    ("search_space", .array space), ("trials", .array trials)]

def loadJson (j : Json) : Option Study := do
  let studyName ← valueOf j "study_name" getText "default".toUTF8
  let nTrials ← valueOf j "n_trials" (fun n => n.getInt.map Int32.ofInt) 30
  let seed ← valueOf j "seed" getInt64 0
  let direction ← valueOf j "direction" Json.number? 1
  let specs ← (((j.field? "search_space").bind items).getD []).mapM specFromJson
  let history ← (((j.field? "trials").bind items).getD []).mapM trialFromJson
  return { cfg := { studyName, nTrials, seed, direction }, specs, history }

end Study

end InferDeck.Optimize
