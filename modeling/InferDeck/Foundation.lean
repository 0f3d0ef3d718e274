import Mathlib.Tactic

/-!
# Results, error codes and the clock

`foundation::Result<T>` is `std::expected<T, Error>`: either a value or a typed error with a
message and the field it is about. Time points are the ticks of the steady clock, in
nanoseconds since its epoch, so `time_point{}` is `0`.
-/

namespace InferDeck.Foundation

inductive ErrorCode where
  | ok
  | invalidArgument
  | contextLengthExceeded
  | notFound
  | notLoaded
  | alreadyExists
  | ioError
  | parseError
  | outOfMemory
  | resourceBusy
  | timeout
  | cancelled
  | unavailable
  | internal
  deriving DecidableEq, Repr

structure Error where
  code : ErrorCode
  message : String
  field : String := ""
  deriving DecidableEq, Repr

abbrev Result (α : Type) := Except Error α

def err {α : Type} (code : ErrorCode) (message : String) : Result α :=
  .error { code, message }

theorem bind_eq_ok {α β : Type} {x : Result α} {f : α → Result β} {b : β} :
    x >>= f = .ok b ↔ ∃ a, x = .ok a ∧ f a = .ok b := by
  cases x with
  | error e => simp [bind, Except.bind]
  | ok a => simp [bind, Except.bind]

theorem err_ne_ok {α : Type} {code : ErrorCode} {message : String} {a : α} :
    err code message ≠ .ok a := by
  simp [err]

/-- A check that passed. -/
theorem ite_err_eq_ok {α : Type} {c : Prop} [Decidable c] {code : ErrorCode} {message : String}
    {x : Result α} {a : α} : (if c then err code message else x) = .ok a ↔ ¬c ∧ x = .ok a := by
  by_cases h : c
  · simp [h, err]
  · simp [h]

/-- Nanoseconds of the steady clock. -/
abbrev TimePoint := ℤ

def milliseconds (n : ℤ) : ℤ := n * 1000000

def seconds (n : ℤ) : ℤ := n * 1000000000

/-- `duration_cast<seconds>`: whole seconds, rounded towards zero. -/
def wholeSeconds (d : ℤ) : ℤ := d.tdiv 1000000000

/-- `duration_cast<milliseconds>(..).count()`, rounded towards zero. -/
def wholeMilliseconds (d : ℤ) : ℤ := d.tdiv 1000000

/-- `std::numeric_limits<int>::max()`. -/
def intMax : ℤ := 2147483647

end InferDeck.Foundation
