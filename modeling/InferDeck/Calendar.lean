import Mathlib.Tactic

/-!
# The proleptic Gregorian calendar

Days are numbered from the first of January 1970 on, months from January of the year 0 on. `makeDay`
takes any year, month and day and carries what lies outside of them, and the year, the month and the
day of the month are read back from the number of a day.
-/

namespace InferDeck.Calendar

def yearStart (year : ℤ) : ℤ :=
  365 * (year - 1970) + (year - 1969) / 4 - (year - 1901) / 100 + (year - 1601) / 400

def leapDays (year : ℤ) : ℤ :=
  if year % 4 = 0 ∧ (year % 100 ≠ 0 ∨ year % 400 = 0) then 1 else 0

/-- The days of a month, which is numbered from 0 on. -/
def monthDays (leapDays : ℤ) : ℕ → ℤ
  | 1 => 28 + leapDays
  | 3 | 5 | 8 | 10 => 30
  | _ => 31

def monthStart (leapDays : ℤ) : ℕ → ℤ
  | 0 => 0
  | month + 1 => monthStart leapDays month + monthDays leapDays month

def firstOf (month : ℤ) : ℤ :=
  yearStart (month / 12) + monthStart (leapDays (month / 12)) (month % 12).toNat

def lengthOf (month : ℤ) : ℤ := monthDays (leapDays (month / 12)) (month % 12).toNat

def makeDay (year month day : ℤ) : ℤ := firstOf (12 * year + month) + day - 1

def yearOf (t : ℤ) : ℤ :=
  let year := 1970 + t * 400 / 146097
  if t < yearStart year then year - 1 else if yearStart (year + 1) ≤ t then year + 1 else year

def monthOf (t : ℤ) : ℕ :=
  Nat.count (fun month =>
    monthStart (leapDays (yearOf t)) (month + 1) ≤ t - yearStart (yearOf t)) 11

def dayOf (t : ℤ) : ℤ := t - yearStart (yearOf t) - monthStart (leapDays (yearOf t)) (monthOf t) + 1

/-! ### Years -/

theorem leapDays_cases (year : ℤ) : leapDays year = 0 ∨ leapDays year = 1 := by
  unfold leapDays
  split_ifs
  · exact Or.inr rfl
  · exact Or.inl rfl

theorem yearStart_succ (year : ℤ) : yearStart (year + 1) = yearStart year + 365 + leapDays year := by
  unfold yearStart leapDays
  split_ifs <;> omega

theorem yearStart_strictMono : StrictMono yearStart := by
  apply strictMono_int_of_lt_succ
  intro year
  rw [yearStart_succ]
  obtain h | h := leapDays_cases year <;> omega

theorem yearOf_le (t : ℤ) : yearStart (yearOf t) ≤ t ∧ t < yearStart (yearOf t + 1) := by
  have hlow : yearStart (1970 + t * 400 / 146097 - 1) ≤ t := by
    unfold yearStart
    omega
  have hhigh : t < yearStart (1970 + t * 400 / 146097 + 1 + 1) := by
    unfold yearStart
    omega
  unfold yearOf
  dsimp only
  split_ifs with hbefore hafter
  · exact ⟨hlow, by rw [sub_add_cancel]; exact hbefore⟩
  · exact ⟨hafter, hhigh⟩
  · exact ⟨not_lt.1 hbefore, not_le.1 hafter⟩

theorem yearOf_eq {t year : ℤ} (hstart : yearStart year ≤ t) (hend : t < yearStart (year + 1)) :
    yearOf t = year := by
  obtain ⟨hle, hlt⟩ := yearOf_le t
  have hbelow : yearOf t < year + 1 := yearStart_strictMono.lt_iff_lt.1 (hle.trans_lt hend)
  have habove : year < yearOf t + 1 := yearStart_strictMono.lt_iff_lt.1 (hstart.trans_lt hlt)
  omega

/-! ### Months -/

section Months

variable {leap : ℤ}

theorem monthDays_bounds (hleap : leap = 0 ∨ leap = 1) (month : ℕ) :
    28 ≤ monthDays leap month ∧ monthDays leap month ≤ 31 := by
  unfold monthDays
  split <;> omega

theorem monthStart_twelve (leap : ℤ) : monthStart leap 12 = 365 + leap := by
  simp only [monthStart, monthDays]
  ring

theorem monthStart_strictMono (hleap : leap = 0 ∨ leap = 1) : StrictMono (monthStart leap) := by
  apply strictMono_nat_of_lt_succ
  intro month
  have := (monthDays_bounds hleap month).1
  rw [monthStart]
  omega

/-- How many numbers below `n` are below `m`. -/
theorem count_lt {n m : ℕ} (h : m ≤ n) : Nat.count (fun k => k < m) n = m := by
  induction n with
  | zero => rw [Nat.le_zero.1 h, Nat.count_zero]
  | succ n ih =>
      rw [Nat.count_succ]
      obtain hm | rfl := Nat.le_or_eq_of_le_succ h
      · rw [ih hm, if_neg (Nat.not_lt.2 hm), Nat.add_zero]
      · rw [if_pos n.lt_succ_self]
        have hall : Nat.count (fun k => k < n + 1) n = n :=
          (Nat.count_iff_forall).2 fun k hk => Nat.lt_succ_of_lt hk
        rw [hall]

end Months

section Read

variable {t year : ℤ} {month : ℕ}

/-- Where a day lies. -/
theorem read_eq (hmonth : month < 12)
    (hstart : yearStart year + monthStart (leapDays year) month ≤ t)
    (hend : t < yearStart year + monthStart (leapDays year) (month + 1)) :
    yearOf t = year ∧ monthOf t = month := by
  have hmono := monthStart_strictMono (leapDays_cases year)
  have hfirst : 0 ≤ monthStart (leapDays year) month := hmono.monotone (Nat.zero_le month)
  have hlast : monthStart (leapDays year) (month + 1) ≤ monthStart (leapDays year) 12 :=
    hmono.monotone hmonth
  have hyear : yearOf t = year := by
    apply yearOf_eq
    · omega
    · rw [monthStart_twelve] at hlast
      rw [yearStart_succ]
      omega
  refine ⟨hyear, ?_⟩
  unfold monthOf
  rw [hyear]
  have hiff (k : ℕ) : monthStart (leapDays year) (k + 1) ≤ t - yearStart year ↔ k < month := by
    constructor
    · intro hk
      by_contra hge
      have hlater : month + 1 ≤ k + 1 := by omega
      have := hmono.monotone hlater
      omega
    · intro hk
      have hearlier : k + 1 ≤ month := hk
      have := hmono.monotone hearlier
      omega
  simp only [hiff]
  exact count_lt (Nat.le_of_lt_succ hmonth)

end Read

theorem lengthOf_bounds (month : ℤ) : 28 ≤ lengthOf month ∧ lengthOf month ≤ 31 :=
  monthDays_bounds (leapDays_cases _) _

/-- Months follow each other. -/
theorem firstOf_succ (month : ℤ) : firstOf (month + 1) = firstOf month + lengthOf month := by
  have hmod : (month % 12).toNat < 12 := by omega
  by_cases hlast : (month % 12).toNat = 11
  · have hyear : (month + 1) / 12 = month / 12 + 1 := by omega
    have hjanuary : ((month + 1) % 12).toNat = 0 := by omega
    have htwelve := monthStart_twelve (leapDays (month / 12))
    rw [monthStart] at htwelve
    rw [firstOf, firstOf, lengthOf, hyear, hjanuary, hlast, yearStart_succ, monthStart]
    omega
  · have hyear : (month + 1) / 12 = month / 12 := by omega
    have hnext : ((month + 1) % 12).toNat = (month % 12).toNat + 1 := by omega
    rw [firstOf, firstOf, lengthOf, hyear, hnext, monthStart]
    omega

theorem firstOf_strictMono : StrictMono firstOf := by
  apply strictMono_int_of_lt_succ
  intro month
  have := (lengthOf_bounds month).1
  rw [firstOf_succ]
  omega

/-! ### Dates -/

@[ext]
structure Date where
  month : ℤ
  day : ℤ
  day_ok : 1 ≤ day ∧ day ≤ lengthOf month

namespace Date

variable {d e : Date}

def year (d : Date) : ℤ := d.month / 12

def number (d : Date) : ℤ := firstOf d.month + d.day - 1

instance : LE Date := ⟨fun d e => d.month < e.month ∨ d.month = e.month ∧ d.day ≤ e.day⟩

instance : LT Date := ⟨fun d e => d.month < e.month ∨ d.month = e.month ∧ d.day < e.day⟩

instance (d e : Date) : Decidable (d ≤ e) :=
  inferInstanceAs (Decidable (d.month < e.month ∨ d.month = e.month ∧ d.day ≤ e.day))

theorem le_iff : d ≤ e ↔ d.month < e.month ∨ d.month = e.month ∧ d.day ≤ e.day := Iff.rfl

theorem lt_iff : d < e ↔ d.month < e.month ∨ d.month = e.month ∧ d.day < e.day := Iff.rfl

/-- A later month has later days only. -/
theorem number_lt_of_month_lt (h : d.month < e.month) : d.number < e.number := by
  have hnext : firstOf (d.month + 1) ≤ firstOf e.month := firstOf_strictMono.monotone h
  have hd := d.day_ok.2
  have he := e.day_ok.1
  rw [firstOf_succ] at hnext
  unfold number
  omega

theorem number_lt_iff : d.number < e.number ↔ d < e := by
  rw [lt_iff]
  obtain h | h | h := lt_trichotomy d.month e.month
  · exact iff_of_true (number_lt_of_month_lt h) (Or.inl h)
  · simp [number, h]
  · have := number_lt_of_month_lt h
    omega

theorem not_lt_iff : ¬d < e ↔ e ≤ d := by
  rw [lt_iff, le_iff]
  omega

theorem number_le_iff : d.number ≤ e.number ↔ d ≤ e := by
  rw [← not_lt, number_lt_iff, not_lt_iff]

/-- The year, the month and the day are those of the date. -/
theorem read_number (d : Date) :
    yearOf d.number = d.month / 12 ∧ (monthOf d.number : ℤ) = d.month % 12 ∧
      dayOf d.number = d.day := by
  have hday := d.day_ok
  have hmonth : (d.month % 12).toNat < 12 := by omega
  have hnumber : d.number = yearStart (d.month / 12) +
      monthStart (leapDays (d.month / 12)) (d.month % 12).toNat + d.day - 1 := rfl
  have hlength : lengthOf d.month =
      monthDays (leapDays (d.month / 12)) (d.month % 12).toNat := rfl
  have hstart : yearStart (d.month / 12) +
      monthStart (leapDays (d.month / 12)) (d.month % 12).toNat ≤ d.number := by omega
  have hend : d.number < yearStart (d.month / 12) +
      monthStart (leapDays (d.month / 12)) ((d.month % 12).toNat + 1) := by
    rw [monthStart]
    omega
  obtain ⟨hyear, hread⟩ := read_eq hmonth hstart hend
  refine ⟨hyear, by rw [hread]; omega, ?_⟩
  rw [dayOf, hyear, hread, hnumber]
  omega

/-- Every day is a date. -/
theorem exists_number (t : ℤ) : ∃ d : Date, d.number = t := by
  obtain ⟨hstart, hend⟩ := yearOf_le t
  have hleap := leapDays_cases (yearOf t)
  have hlast : t - yearStart (yearOf t) < monthStart (leapDays (yearOf t)) 12 := by
    rw [monthStart_twelve]
    rw [yearStart_succ] at hend
    omega
  have hsome : ∃ month, t - yearStart (yearOf t) < monthStart (leapDays (yearOf t)) (month + 1) :=
    ⟨11, hlast⟩
  have hfind := Nat.find_spec hsome
  have hmonth : Nat.find hsome < 12 := Nat.lt_succ_of_le (Nat.find_min' hsome hlast)
  have hfirst : monthStart (leapDays (yearOf t)) (Nat.find hsome) ≤ t - yearStart (yearOf t) := by
    cases hm : Nat.find hsome with
    | zero =>
        rw [monthStart]
        omega
    | succ month => exact not_lt.1 (Nat.find_min hsome (by omega))
  generalize Nat.find hsome = month at hfind hmonth hfirst
  have hyear : (12 * yearOf t + (month : ℤ)) / 12 = yearOf t := by omega
  have hmod : ((12 * yearOf t + (month : ℤ)) % 12).toNat = month := by omega
  rw [monthStart] at hfind
  refine ⟨⟨12 * yearOf t + month, t - yearStart (yearOf t) -
    monthStart (leapDays (yearOf t)) month + 1, ?_⟩, ?_⟩
  · rw [lengthOf, hyear, hmod]
    omega
  · simp only [number, firstOf, hyear, hmod]
    omega

/-- Some months later, on the last day where the month is too short. -/
def addMonths (d : Date) (k : ℕ) : Date where
  month := d.month + k
  day := min d.day (lengthOf (d.month + k))
  day_ok := by
    have := lengthOf_bounds (d.month + k)
    have := d.day_ok
    omega

theorem addMonths_lt (d : Date) {j k : ℕ} (h : j < k) : d.addMonths j < d.addMonths k := by
  refine Or.inl ?_
  simp only [addMonths]
  omega

theorem addMonths_zero (d : Date) : d.addMonths 0 = d := by
  have := d.day_ok.2
  ext
  · simp [addMonths]
  · simp only [addMonths, Nat.cast_zero, add_zero]
    omega

end Date

end InferDeck.Calendar
