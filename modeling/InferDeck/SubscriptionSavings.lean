import InferDeck.Authority
import InferDeck.Calendar
import Mathlib.Data.Rat.Defs

/-!
# The savings of a cancelled subscription

`subscriptionSavings.ts` of the dashboard: what a stored subscription must be like, and the payments
it would have taken until today. A `Date` is the number of its day, since all of them are midnights
in UTC, and an invalid one is `none`.
-/

namespace InferDeck.Dashboard

open InferDeck.Gateway InferDeck.Calendar

/-- A value of the language, which may come from a stored text. A number is `none` where it is not
finite. -/
inductive Value where
  | undefined
  | null
  | boolean (b : Bool)
  | number (n : Option ℚ)
  | string (s : Text)
  | array (items : List Value)
  | object (fields : List (String × Value))

namespace Value

def isObject : Value → Bool
  | array _ | object _ => true
  | _ => false

def property (key : String) : Value → Value
  | object fields => (fields.lookup key).getD undefined
  | _ => undefined

def text? : Value → Option Text
  | string s => some s
  | _ => none

/-- The number that `Number.isSafeInteger` accepts. -/
def safeInteger? : Value → Option ℤ
  | number (some q) => if q.den = 1 ∧ |q.num| < 2 ^ 53 then some q.num else none
  | _ => none

end Value

/-! ### Texts -/

/-- The code units that texts are compared by. -/
def codeUnits (text : Text) : List ℕ :=
  text.flatMap fun c =>
    if c.toNat < 0x10000 then [c.toNat]
    else [0xd800 + (c.toNat - 0x10000) / 0x400, 0xdc00 + (c.toNat - 0x10000) % 0x400]

/-- `a < b` of two texts. -/
def textBefore (a b : Text) : Bool := decide (codeUnits a < codeUnits b)

/-- What `trim` removes. -/
def isWhiteSpace (c : Char) : Bool :=
  decide (9 ≤ c.toNat ∧ c.toNat ≤ 13) || c == ' ' || c.toNat == 0xa0 || c.toNat == 0x1680 ||
    decide (0x2000 ≤ c.toNat ∧ c.toNat ≤ 0x200a) || c.toNat == 0x2028 || c.toNat == 0x2029 ||
    c.toNat == 0x202f || c.toNat == 0x205f || c.toNat == 0x3000 || c.toNat == 0xfeff

def digit (n : ℕ) : Char := Char.ofNat (48 + n)

/-- A number with leading zeros. -/
def padded : ℕ → ℕ → Text
  | 0, _ => []
  | width + 1, n => digit (n / 10 ^ width) :: padded width (n % 10 ^ width)

/-! ### Dates -/

/-- `new Date(Date.UTC(year, month, day))`: a year below 100 is one of the twentieth century. -/
def dateUTC (year month day : ℤ) : Option ℤ :=
  let fullYear := if 0 ≤ year ∧ year ≤ 99 then 1900 + year else year
  let t := makeDay fullYear month day
  if |t| ≤ 100000000 then some t else none

/-- `toISOString`. -/
def isoString (t : ℤ) : Text :=
  (if 0 ≤ yearOf t ∧ yearOf t ≤ 9999 then padded 4 (yearOf t).toNat
    else (if yearOf t < 0 then '-' else '+') :: padded 6 (yearOf t).natAbs) ++
    '-' :: padded 2 (monthOf t + 1) ++ '-' :: padded 2 (dayOf t).toNat ++ "T00:00:00.000Z".toList

def dateKey (t : ℤ) : Text := (isoString t).take 10

def minYear : ℕ := 1970

def maxYear : ℕ := 2100

/-- The three numbers of a text that has the form of a date. -/
def dateParts : Text → Option (ℕ × ℕ × ℕ)
  | [a, b, c, d, '-', e, f, '-', g, h] =>
      if [a, b, c, d, e, f, g, h].all Char.isDigit then
        some (digitsValue [a, b, c, d], digitsValue [e, f], digitsValue [g, h])
      else none
  | _ => none

def parseDate (value : Text) : Option ℤ := do
  let (year, month, day) ← dateParts value
  if year < minYear ∨ maxYear < year then none
  let date ← dateUTC year (month - 1) day
  if yearOf date = year ∧ (monthOf date : ℤ) = month - 1 ∧ dayOf date = day then some date else none

def daysInMonth (year month : ℤ) : Option ℤ := (dateUTC year (month + 1) 0).map dayOf

def anniversary (start : ℤ) (offset : ℕ) : Option ℤ := do
  let rawMonth : ℤ := monthOf start + offset
  let year := yearOf start + rawMonth / 12
  let month := (rawMonth.tmod 12 + 12).tmod 12
  let days ← daysInMonth year month
  dateUTC year month (min (dayOf start) days)

/-! ### Validation -/

def maxMonthlyCents : ℤ := 100000000

def centsOk (value : Value) : Bool :=
  value.safeInteger?.any fun n => decide (0 ≤ n ∧ n ≤ maxMonthlyCents)

def errorUnless (holds : Bool) (error : String) : List String := if holds then [] else [error]

def validateText (value : Value) (error : String) : List String :=
  errorUnless (value.text?.any fun s => !s.all isWhiteSpace) error

def readDate (value : Value) : Option ℤ := value.text?.bind parseDate

/-- The first date is not before the second one, where both are there. -/
def notBefore (date earliest : Option ℤ) : Bool :=
  date.all fun d => earliest.all fun e => decide (e ≤ d)

def validateChanges (start : Option ℤ) (previous : Text) : List Value → List String
  | [] => []
  | change :: rest =>
      let effectiveDate := change.property "effectiveDate"
      let effective := readDate effectiveDate
      errorUnless effective.isSome "each rate change needs a valid effectiveDate" ++
        errorUnless (effectiveDate.text?.all fun date => textBefore previous date)
          "rate changes must have unique ascending dates" ++
        errorUnless (centsOk (change.property "monthlyCents"))
          "rate change monthlyCents must be between 0 and $1,000,000" ++
        errorUnless (notBefore effective start) "rate changes cannot predate startDate" ++
        validateChanges start (effectiveDate.text?.getD previous) rest

def changesOf (value : Value) : Value :=
  match value.property "rateChanges" with
  | .undefined | .null => .array []
  | changes => changes

def isUndefined : Value → Bool
  | .undefined => true
  | _ => false

def validateSubscription (value : Value) : List String :=
  if !value.isObject then ["subscription must be an object"]
  else
    let start := readDate (value.property "startDate")
    let finish := readDate (value.property "endDate")
    validateText (value.property "id") "id is required" ++
      validateText (value.property "name") "name is required" ++
      errorUnless (centsOk (value.property "monthlyCents"))
        "monthlyCents must be between 0 and $1,000,000" ++
      errorUnless start.isSome "startDate must be a valid bounded YYYY-MM-DD date" ++
      errorUnless (isUndefined (value.property "endDate") || finish.isSome)
        "endDate must be a valid bounded YYYY-MM-DD date" ++
      errorUnless (notBefore finish start) "endDate must be on or after startDate" ++
      match changesOf value with
      | .array changes => validateChanges start [] changes
      | _ => ["rateChanges must be an array"]

/-! ### Payments -/

structure SubscriptionRateChange where
  effectiveDate : Text
  monthlyCents : ℤ
  deriving DecidableEq, Repr

structure CancelledSubscription where
  id : Text
  name : Text
  monthlyCents : ℤ
  startDate : Text
  endDate : Option Text := none
  rateChanges : List SubscriptionRateChange := []
  deriving DecidableEq, Repr

structure SubscriptionPayment where
  date : Text
  amountCents : ℤ
  deriving DecidableEq, Repr

structure SubscriptionSavings where
  id : Text
  name : Text
  monthlyCents : ℤ
  payments : List SubscriptionPayment
  totalCents : ℤ
  deriving DecidableEq, Repr

def Value.rateChange? (value : Value) : Option SubscriptionRateChange := do
  let effectiveDate ← (value.property "effectiveDate").text?
  let monthlyCents ← (value.property "monthlyCents").safeInteger?
  return { effectiveDate, monthlyCents }

/-- The fields of a value at the types they are declared with. -/
def Value.subscription? (value : Value) : Option CancelledSubscription := do
  let id ← (value.property "id").text?
  let name ← (value.property "name").text?
  let monthlyCents ← (value.property "monthlyCents").safeInteger?
  let startDate ← (value.property "startDate").text?
  let endDate := (value.property "endDate").text?
  let .array changes := changesOf value | none
  let rateChanges ← changes.mapM Value.rateChange?
  return { id, name, monthlyCents, startDate, endDate, rateChanges }

/-- The loop over the rate changes, which stops at the first later one. -/
def amountFrom (date : Text) (amount : ℤ) : List SubscriptionRateChange → ℤ
  | [] => amount
  | change :: rest =>
      if textBefore date change.effectiveDate then amount
      else amountFrom date change.monthlyCents rest

def amountForDate (subscription : CancelledSubscription) (date : Text) : ℤ :=
  amountFrom date subscription.monthlyCents subscription.rateChanges

/-- What `today` is given as: a text, a `Date` with its local year, month and day, which an invalid one
does not have, or another value. -/
inductive Today where
  | text (value : Text)
  | date (fields : Option (ℤ × ℤ × ℤ))
  | other

def todayError : String := "today must be a valid bounded YYYY-MM-DD date"

def readToday : Today → Except String ℤ
  | .text value => (parseDate value).elim (.error todayError) .ok
  | .date (some (year, month, day)) =>
      (dateUTC year month day).elim (.error "Invalid time value") fun t =>
        (parseDate (dateKey t)).elim (.error todayError) .ok
  | .date none | .other => .error todayError

section Payments

variable (subscription : CancelledSubscription)

/-- The loop over the offsets; `none` where the fuel does not suffice. -/
def paymentLoop (start cutoff : ℤ) :
    ℕ → ℕ → List SubscriptionPayment → Option (List SubscriptionPayment)
  | 0, _, _ => none
  | fuel + 1, offset, payments =>
      (anniversary start offset).elim (some payments) fun date =>
        if cutoff < date then some payments
        else paymentLoop start cutoff fuel (offset + 1)
          (payments ++ [⟨dateKey date, amountForDate subscription (dateKey date)⟩])

def addPayment (sum : ℤ) (payment : SubscriptionPayment) : Except String ℤ :=
  if |sum + payment.amountCents| < 2 ^ 53 then .ok (sum + payment.amountCents)
  else .error "subscription savings total exceeds safe integer range"

def cutoffOf (today : ℤ) : Option ℤ :=
  match subscription.endDate with
  | none => some today
  | some text => if text = [] then some today else (parseDate text).map fun finish => min finish today

end Payments

/-- What is thrown, or the savings; `none` where the fuel does not suffice. -/
def calculateSubscriptionSavings (fuel : ℕ) (value : Value) (today : Today) :
    Option (Except String SubscriptionSavings) :=
  let errors := validateSubscription value
  if errors ≠ [] then some (.error ("Invalid subscription: " ++ "; ".intercalate errors))
  else
    match readToday today with
    | .error error => some (.error error)
    | .ok today => do
        let subscription ← value.subscription?
        let start ← parseDate subscription.startDate
        let cutoff ← cutoffOf subscription today
        let payments ← paymentLoop subscription start cutoff fuel 0 []
        return (payments.foldlM addPayment 0).map fun totalCents => {
          id := subscription.id
          name := subscription.name
          monthlyCents := subscription.monthlyCents
          payments
          totalCents }

end InferDeck.Dashboard
