import InferDeck.ModelRegistry
import Mathlib.Data.Rat.Floor

/-!
# Reading a JSON body

The values of the JSON library, whose integers are 64-bit signed or unsigned ones, and the reads the
routes make of them. A read that throws is a refusal with status 500 unless the route catches it.
Numbers of type `float` and `double` are their exact rational values.
-/

namespace InferDeck.Gateway

inductive Json where
  | null
  | boolean (b : Bool)
  | integer (n : Int64)
  | unsigned (n : UInt64)
  | real (x : ℚ)
  | string (s : String)
  | array (items : List Json)
  | object (fields : List (String × Json))

/-- What `write_error` answers with. -/
structure Refusal where
  status : ℕ
  code : String := ""
  message : String := ""
  param : String := ""
  deriving DecidableEq, Repr

/-- What the server answers when a handler throws. -/
def thrown : Refusal := { status := 500 }

def badRequest (code message : String) (param : String := "") : Refusal :=
  { status := 400, code, message, param }

def require (holds : Bool) (refusal : Refusal) : Except Refusal Unit :=
  if holds then .ok () else .error refusal

/-- `static_cast` of a number to a signed type of `bits` bits, as reduction. -/
def narrow (bits : ℕ) (n : ℤ) : ℤ := n.bmod (2 ^ bits)

/-- A real number without its fraction. -/
def truncated (x : ℚ) : ℤ := if x < 0 then ⌈x⌉ else ⌊x⌋

namespace Json

/-- The mathematical integer that was sent. -/
def integer? : Json → Option ℤ
  | integer n => some n.toInt
  | unsigned n => some n.toNat
  | _ => none

def isNumberInteger (j : Json) : Bool := j.integer?.isSome

def isNull : Json → Bool
  | null => true
  | _ => false

def isString : Json → Bool
  | string _ => true
  | _ => false

def isBoolean : Json → Bool
  | boolean _ => true
  | _ => false

def isNumber : Json → Bool
  | integer _ | unsigned _ | real _ => true
  | _ => false

def isObject : Json → Bool
  | object _ => true
  | _ => false

def string? : Json → Option String
  | string s => some s
  | _ => none

def boolean? : Json → Option Bool
  | boolean b => some b
  | _ => none

/-- The number that `get` of an arithmetic type converts. Only `int` and `float` also take a boolean. -/
def number? : Json → Option ℚ
  | integer n => some n.toInt
  | unsigned n => some n.toNat
  | real x => some x
  | _ => none

def getInt : Json → Option ℤ
  | boolean b => some (if b then 1 else 0)
  | j => j.number?.map fun x => narrow 32 (truncated x)

def getInt64 (j : Json) : Option ℤ := j.number?.map fun x => narrow 64 (truncated x)

variable (body : Json)

def fields : List (String × Json)
  := match body with
  | object fields => fields
  | _ => []

def field? (key : String) : Option Json := body.fields.lookup key

def contains (key : String) : Bool := (body.field? key).isSome

/-- A field that is there and not `null`. -/
def given? (key : String) : Option Json := (body.field? key).filter fun j => !j.isNull

def sent (key : String) : Option ℤ := (body.field? key).bind integer?

/-- `body.value(key, fallback)`: a field of another type throws. -/
def valueOr {α : Type} (key : String) (read : Json → Option α) (fallback : α) : Except Refusal α :=
  match body.field? key with
  | none => .ok fallback
  | some j => (read j).elim (.error thrown) .ok

end Json

/-! ### Integers that were sent -/

theorem truncated_intCast (n : ℤ) : truncated (n : ℚ) = n := by
  simp [truncated]

namespace Json

variable {j body : Json} {key : String} {n : ℤ}

theorem number_of_integer (h : j.integer? = some n) : j.number? = some (n : ℚ) := by
  cases j <;> cases h <;> simp [number?]

theorem getInt_of_integer (h : j.integer? = some n) : j.getInt = some (narrow 32 n) := by
  have hnumber := number_of_integer h
  cases j <;> simp_all [getInt, integer?, truncated_intCast]

theorem getInt64_of_integer (h : j.integer? = some n) : j.getInt64 = some (narrow 64 n) := by
  simp [getInt64, number_of_integer h, truncated_intCast]

theorem sent_eq_some : body.sent key = some n ↔ ∃ j, body.field? key = some j ∧ j.integer? = some n := by
  simp [sent, Option.bind_eq_some_iff]

theorem given_of_sent (h : body.sent key = some n) :
    ∃ j, body.given? key = some j ∧ j.integer? = some n := by
  obtain ⟨j, hj, hn⟩ := sent_eq_some.1 h
  refine ⟨j, ?_, hn⟩
  cases j <;> simp_all [given?, integer?, isNull]

end Json

end InferDeck.Gateway
