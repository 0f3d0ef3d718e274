import InferDeck.SubscriptionSavings

/-!
# The dates of the dashboard and the calendar

A date's text has numbers of fixed width, so that texts compare as the dates do, and the functions on
the numbers of days do on them what the calendar does on dates.
-/

namespace InferDeck.Dashboard

open InferDeck.Gateway InferDeck.Calendar

/-! ### Decimal numbers of fixed width -/

theorem toNat_digit {n : ℕ} (h : n < 10) : (digit n).toNat = 48 + n := by
  interval_cases n <;> rfl

theorem isDigit_digit {n : ℕ} (h : n < 10) : (digit n).isDigit = true := by
  interval_cases n <;> rfl

theorem digit_of_isDigit {c : Char} (h : c.isDigit = true) :
    c.toNat - 48 < 10 ∧ digit (c.toNat - 48) = c := by
  simp only [Char.isDigit, Bool.and_eq_true, decide_eq_true_eq] at h
  have hlow : 48 ≤ c.toNat := h.1
  have hhigh : c.toNat ≤ 57 := h.2
  refine ⟨by omega, ?_⟩
  have hsame : 48 + (c.toNat - 48) = c.toNat := by omega
  rw [digit, hsame, Char.ofNat_toNat]

section Padded

variable {width n m : ℕ}

theorem div_lt_ten (h : n < 10 ^ (width + 1)) : n / 10 ^ width < 10 :=
  Nat.div_lt_of_lt_mul (by rwa [← pow_succ])

theorem mod_pow_lt : n % 10 ^ width < 10 ^ width := Nat.mod_lt _ (by positivity)

theorem length_padded : ∀ width n : ℕ, (padded width n).length = width
  | 0, _ => rfl
  | width + 1, n => by simp [padded, length_padded width]

theorem isDigit_of_mem_padded : ∀ {width n : ℕ}, n < 10 ^ width →
    ∀ c ∈ padded width n, c.isDigit = true
  | 0, _, _ => by simp [padded]
  | width + 1, n, h => by
      intro c hc
      obtain rfl | hc := List.mem_cons.1 hc
      · exact isDigit_digit (div_lt_ten h)
      · exact isDigit_of_mem_padded mod_pow_lt c hc

/-- Numbers compare by their leading digits first. -/
theorem lt_iff_div_mod {p : ℕ} (hp : 0 < p) :
    n < m ↔ n / p < m / p ∨ n / p = m / p ∧ n % p < m % p := by
  have hn := Nat.div_add_mod n p
  have hm := Nat.div_add_mod m p
  have hnp := Nat.mod_lt n hp
  have hmp := Nat.mod_lt m hp
  obtain h | h | h := lt_trichotomy (n / p) (m / p)
  · have hstep : p * (n / p) + p ≤ p * (m / p) := by
      calc p * (n / p) + p = p * (n / p + 1) := by ring
        _ ≤ p * (m / p) := Nat.mul_le_mul_left p h
    omega
  · rw [h] at hn
    omega
  · have hstep : p * (m / p) + p ≤ p * (n / p) := by
      calc p * (m / p) + p = p * (m / p + 1) := by ring
        _ ≤ p * (n / p) := Nat.mul_le_mul_left p h
    omega

/-- Numbers of one width compare as their digits do. -/
theorem padded_lt_iff {s t : List ℕ} : ∀ {width n m : ℕ}, n < 10 ^ width → m < 10 ^ width →
    ((padded width n).map Char.toNat ++ s < (padded width m).map Char.toNat ++ t ↔
      n < m ∨ n = m ∧ s < t)
  | 0, n, m, hn, hm => by
      have hn : n = 0 := by simpa using hn
      have hm : m = 0 := by simpa using hm
      simp [padded, hn, hm]
  | width + 1, n, m, hn, hm => by
      have hp : 0 < 10 ^ width := by positivity
      have hcompare : n < m ↔ _ := lt_iff_div_mod hp
      have hsame : n = m ↔ n / 10 ^ width = m / 10 ^ width ∧ n % 10 ^ width = m % 10 ^ width := by
        refine ⟨fun h => by simp [h], fun h => ?_⟩
        rw [← Nat.div_add_mod n (10 ^ width), ← Nat.div_add_mod m (10 ^ width), h.1, h.2]
      have hnmod : n % 10 ^ width < 10 ^ width := mod_pow_lt
      have hmmod : m % 10 ^ width < 10 ^ width := mod_pow_lt
      simp only [padded, List.map_cons, List.cons_append, List.cons_lt_cons_iff,
        toNat_digit (div_lt_ten hn), toNat_digit (div_lt_ten hm), padded_lt_iff hnmod hmmod,
        Nat.add_lt_add_iff_left, Nat.add_left_cancel_iff, hcompare, hsame]
      tauto

/-! The value of a text of digits. -/

theorem digitsValue_cons (c : Char) (s : Text) :
    digitsValue (c :: s) = (c.toNat - 48) * 10 ^ s.length + digitsValue s := by
  have hstart (s : Text) : ∀ start : ℕ,
      s.foldl (fun value c => 10 * value + (c.toNat - 48)) start =
        start * 10 ^ s.length + digitsValue s := by
    induction s with
    | nil => simp [digitsValue]
    | cons c s ih =>
        intro start
        rw [digitsValue, List.foldl_cons, List.foldl_cons, ih, ih]
        simp only [List.length_cons, pow_succ]
        ring
  rw [digitsValue, List.foldl_cons, hstart]
  simp

theorem digitsValue_padded : ∀ {width n : ℕ}, n < 10 ^ width → digitsValue (padded width n) = n
  | 0, n, h => by
      have h : n = 0 := by simpa using h
      simp [padded, digitsValue, h]
  | width + 1, n, h => by
      rw [padded, digitsValue_cons, toNat_digit (div_lt_ten h), length_padded,
        digitsValue_padded mod_pow_lt, Nat.add_sub_cancel_left, Nat.div_add_mod']

/-- Digits are the padded text of their value. -/
theorem padded_digitsValue : ∀ {s : Text}, (∀ c ∈ s, c.isDigit = true) →
    digitsValue s < 10 ^ s.length ∧ padded s.length (digitsValue s) = s
  | [], _ => by simp [padded, digitsValue]
  | c :: s, h => by
      obtain ⟨hc, hdigit⟩ := digit_of_isDigit (h c List.mem_cons_self)
      obtain ⟨hlt, hpadded⟩ := padded_digitsValue fun c hc => h c (List.mem_cons_of_mem _ hc)
      have hp : 0 < 10 ^ s.length := by positivity
      have hdiv : digitsValue (c :: s) / 10 ^ s.length = c.toNat - 48 := by
        rw [digitsValue_cons, Nat.add_comm, Nat.add_mul_div_right _ _ hp, Nat.div_eq_of_lt hlt,
          Nat.zero_add]
      have hmod : digitsValue (c :: s) % 10 ^ s.length = digitsValue s := by
        rw [digitsValue_cons, Nat.add_comm, Nat.add_mul_mod_self_right, Nat.mod_eq_of_lt hlt]
      refine ⟨?_, ?_⟩
      · have hlow := Nat.div_add_mod (digitsValue (c :: s)) (10 ^ s.length)
        rw [hdiv, hmod] at hlow
        calc digitsValue (c :: s) = 10 ^ s.length * (c.toNat - 48) + digitsValue s := hlow.symm
          _ < 10 ^ s.length * (c.toNat - 48) + 10 ^ s.length := Nat.add_lt_add_left hlt _
          _ = 10 ^ s.length * (c.toNat - 48 + 1) := by ring
          _ ≤ 10 ^ s.length * 10 := Nat.mul_le_mul_left _ hc
          _ = 10 ^ (c :: s).length := by rw [List.length_cons, pow_succ]
      · rw [List.length_cons, padded, hdiv, hmod, hdigit, hpadded]

end Padded

/-! ### The text of a date -/

def textOf (d : Date) : Text :=
  padded 4 d.year.toNat ++ '-' :: (padded 2 (d.month % 12 + 1).toNat ++ '-' :: padded 2 d.day.toNat)

/-- Years that have four digits. -/
def FourDigits (d : Date) : Prop := 0 ≤ d.year ∧ d.year ≤ 9999

section TextOf

variable {d e : Date}

theorem day_le (d : Date) : 1 ≤ d.day ∧ d.day ≤ 31 :=
  ⟨d.day_ok.1, d.day_ok.2.trans (lengthOf_bounds d.month).2⟩

/-- The three numbers have the widths they are written with. -/
theorem textOf_widths (h : FourDigits d) :
    d.year.toNat < 10 ^ 4 ∧ (d.month % 12 + 1).toNat < 10 ^ 2 ∧ d.day.toNat < 10 ^ 2 := by
  have hday := day_le d
  obtain ⟨hlow, hhigh⟩ := h
  refine ⟨?_, ?_, ?_⟩ <;> omega

theorem dateKey_number (h : FourDigits d) : dateKey d.number = textOf d := by
  obtain ⟨hyear, hmonth, hday⟩ := d.read_number
  have hsame : (monthOf d.number + 1 : ℕ) = (d.month % 12 + 1).toNat := by omega
  have hfour : 0 ≤ d.month / 12 ∧ d.month / 12 ≤ 9999 := h
  have hlength : (textOf d).length = 10 := by simp [textOf, length_padded]
  have hwhole : isoString d.number = textOf d ++ "T00:00:00.000Z".toList := by
    rw [isoString, hyear, hsame, hday, if_pos hfour]
    simp [textOf, Date.year]
  rw [dateKey, hwhole, ← hlength, List.take_left]

/-- The texts of dates are ASCII texts. -/
theorem codeUnits_textOf (h : FourDigits d) : codeUnits (textOf d) = (textOf d).map Char.toNat := by
  obtain ⟨hyear, hmonth, hday⟩ := textOf_widths h
  have hascii : ∀ c ∈ textOf d, c.toNat < 0x10000 := by
    have hdigit {c : Char} (hc : c.isDigit = true) : c.toNat < 0x10000 := by
      simp only [Char.isDigit, Bool.and_eq_true, decide_eq_true_eq] at hc
      have hhigh : c.toNat ≤ 57 := hc.2
      omega
    intro c hc
    simp only [textOf, List.mem_append, List.mem_cons] at hc
    obtain hc | rfl | hc | rfl | hc := hc
    · exact hdigit (isDigit_of_mem_padded hyear c hc)
    · decide
    · exact hdigit (isDigit_of_mem_padded hmonth c hc)
    · decide
    · exact hdigit (isDigit_of_mem_padded hday c hc)
  have hunits : ∀ c ∈ textOf d, (if c.toNat < 0x10000 then [c.toNat]
      else [0xd800 + (c.toNat - 0x10000) / 0x400, 0xdc00 + (c.toNat - 0x10000) % 0x400]) =
      [c.toNat] := fun c hc => if_pos (hascii c hc)
  rw [codeUnits, List.flatMap_congr hunits, ← List.map_eq_flatMap]

/-- Texts of dates compare as the dates. -/
theorem textBefore_textOf (hd : FourDigits d) (he : FourDigits e) :
    textBefore (textOf d) (textOf e) = true ↔ d < e := by
  obtain ⟨hyear, hmonth, hday⟩ := textOf_widths hd
  obtain ⟨hyear', hmonth', hday'⟩ := textOf_widths he
  have hdash (a b : List ℕ) : '-'.toNat :: a < '-'.toNat :: b ↔ a < b := by
    simp
  have hlast : (padded 2 d.day.toNat).map Char.toNat ++ [] <
      (padded 2 e.day.toNat).map Char.toNat ++ [] ↔ _ := padded_lt_iff hday hday'
  rw [List.append_nil, List.append_nil] at hlast
  rw [textBefore, decide_eq_true_iff, codeUnits_textOf hd, codeUnits_textOf he]
  simp only [textOf, List.map_append, List.map_cons, padded_lt_iff hyear hyear', hdash,
    padded_lt_iff hmonth hmonth', hlast, Date.lt_iff]
  have hyears : d.year = d.month / 12 ∧ e.year = e.month / 12 := ⟨rfl, rfl⟩
  have hbounds := day_le d
  have hbounds' := day_le e
  obtain ⟨hlow, -⟩ := hd
  obtain ⟨hlow', -⟩ := he
  have hnil : ¬([] : List ℕ) < [] := List.not_lt_nil []
  have hyearLt : d.year.toNat < e.year.toNat ↔ d.month / 12 < e.month / 12 := by omega
  have hyearEq : d.year.toNat = e.year.toNat ↔ d.month / 12 = e.month / 12 := by omega
  have hmonthLt : (d.month % 12 + 1).toNat < (e.month % 12 + 1).toNat ↔
      d.month % 12 < e.month % 12 := by omega
  have hmonthEq : (d.month % 12 + 1).toNat = (e.month % 12 + 1).toNat ↔
      d.month % 12 = e.month % 12 := by omega
  have hdayLt : d.day.toNat < e.day.toNat ↔ d.day < e.day := by omega
  simp only [hyearLt, hyearEq, hmonthLt, hmonthEq, hdayLt, hnil, and_false, or_false]
  omega

end TextOf

/-! ### Reading dates -/

theorem number_bound {d : Date} (h : FourDigits d) : |d.number| ≤ 100000000 := by
  have hday := day_le d
  obtain ⟨hlow, hhigh⟩ := h
  have hstart : yearStart 0 ≤ yearStart d.year := yearStart_strictMono.monotone hlow
  have hend : yearStart d.year ≤ yearStart 9999 := yearStart_strictMono.monotone hhigh
  have hmono := (monthStart_strictMono (leapDays_cases d.year)).monotone
  have hfirst : 0 ≤ monthStart (leapDays d.year) (d.month % 12).toNat := hmono (Nat.zero_le _)
  have hlast : monthStart (leapDays d.year) (d.month % 12).toNat ≤ monthStart (leapDays d.year) 12 :=
    hmono (by omega)
  have hleap := leapDays_cases d.year
  rw [monthStart_twelve] at hlast
  have hzero : yearStart 0 = -719528 := by norm_num [yearStart]
  have hmax : yearStart 9999 = 2932532 := by norm_num [yearStart]
  have hnumber : d.number = yearStart d.year + monthStart (leapDays d.year) (d.month % 12).toNat +
      d.day - 1 := rfl
  rw [abs_le]
  omega

theorem dateUTC_eq {d : Date} {year month day : ℤ} (hmake : makeDay year month day = d.number)
    (hyear : 100 ≤ year) (hfour : FourDigits d) : dateUTC year month day = some d.number := by
  have hcentury : ¬(0 ≤ year ∧ year ≤ 99) := by omega
  have hbound := number_bound hfour
  rw [← hmake] at hbound
  rw [dateUTC]
  simp only [if_neg hcentury, if_pos hbound]
  rw [hmake]

def Bounded (d : Date) : Prop := minYear ≤ d.year ∧ d.year ≤ maxYear

theorem Bounded.fourDigits {d : Date} (h : Bounded d) : FourDigits d := by
  obtain ⟨hlow, hhigh⟩ := h
  simp only [minYear, maxYear] at hlow hhigh
  constructor <;> omega

theorem dateParts_padded {year month day : ℕ} (hyear : year < 10 ^ 4) (hmonth : month < 10 ^ 2)
    (hday : day < 10 ^ 2) :
    dateParts (padded 4 year ++ '-' :: (padded 2 month ++ '-' :: padded 2 day)) =
      some (year, month, day) := by
  have hdigits : (padded 4 year ++ padded 2 month ++ padded 2 day).all Char.isDigit = true := by
    rw [List.all_eq_true]
    intro c hc
    simp only [List.mem_append] at hc
    obtain (hc | hc) | hc := hc
    · exact isDigit_of_mem_padded hyear c hc
    · exact isDigit_of_mem_padded hmonth c hc
    · exact isDigit_of_mem_padded hday c hc
  have hparts : dateParts (padded 4 year ++ '-' :: (padded 2 month ++ '-' :: padded 2 day)) =
      if (padded 4 year ++ padded 2 month ++ padded 2 day).all Char.isDigit then
        some (digitsValue (padded 4 year), digitsValue (padded 2 month), digitsValue (padded 2 day))
      else none := rfl
  rw [hparts, if_pos hdigits, digitsValue_padded hyear, digitsValue_padded hmonth,
    digitsValue_padded hday]

theorem dateParts_eq_some {s : Text} {year month day : ℕ}
    (h : dateParts s = some (year, month, day)) :
    s = padded 4 year ++ '-' :: (padded 2 month ++ '-' :: padded 2 day) := by
  unfold dateParts at h
  split at h
  · rename_i a b c d e f g i
    split_ifs at h with hdigits
    simp only [Option.some.injEq, Prod.mk.injEq] at h
    obtain ⟨rfl, rfl, rfl⟩ := h
    simp only [List.all_eq_true] at hdigits
    have hpart (t : Text) (ht : ∀ x ∈ t, x ∈ [a, b, c, d, e, f, g, i]) :
        padded t.length (digitsValue t) = t :=
      (padded_digitsValue fun x hx => hdigits x (ht x hx)).2
    have hyear := hpart [a, b, c, d] (by simp +contextual)
    have hmonth := hpart [e, f] (by simp +contextual)
    have hday := hpart [g, i] (by simp +contextual)
    simp only [List.length_cons, List.length_nil, Nat.zero_add, Nat.reduceAdd] at hyear hmonth hday
    rw [hyear, hmonth, hday]
    rfl
  · cases h

section Parse

variable {d : Date}

theorem makeDay_of_read {year month day : ℤ} (hyear : d.month / 12 = year)
    (hmonth : d.month % 12 = month) (hday : d.day = day) : makeDay year month day = d.number := by
  have hindex : 12 * year + month = d.month := by omega
  rw [makeDay, hindex, ← hday]
  rfl

/-- A bounded date is read from its text. -/
theorem parseDate_textOf (h : Bounded d) : parseDate (textOf d) = some d.number := by
  have hfour := h.fourDigits
  obtain ⟨hyear, hmonth, hday⟩ := textOf_widths hfour
  obtain ⟨hreadYear, hreadMonth, hreadDay⟩ := d.read_number
  have hfields := day_le d
  obtain ⟨hlow, hhigh⟩ := h
  simp only [minYear, maxYear] at hlow hhigh
  have hsame : d.year = d.month / 12 := rfl
  have hmake : makeDay d.year.toNat ((d.month % 12 + 1).toNat - 1) d.day.toNat = d.number :=
    makeDay_of_read (by omega) (by omega) (by omega)
  have hutc : dateUTC d.year.toNat ((d.month % 12 + 1).toNat - 1) d.day.toNat = some d.number :=
    dateUTC_eq hmake (by omega) hfour
  have hbounds : ¬(d.year.toNat < minYear ∨ maxYear < d.year.toNat) := by
    simp only [minYear, maxYear]
    omega
  rw [parseDate, textOf, dateParts_padded hyear hmonth hday]
  simp only [bind, Option.bind, hutc, if_neg hbounds]
  rw [if_pos ⟨by omega, by omega, by omega⟩]

/-- What is read is a bounded date, and its text stood there. -/
theorem parseDate_eq_some {s : Text} {t : ℤ} (h : parseDate s = some t) :
    ∃ d, Bounded d ∧ s = textOf d ∧ t = d.number := by
  simp only [parseDate, bind, Option.bind_eq_some_iff] at h
  obtain ⟨⟨year, month, day⟩, hparts, h⟩ := h
  split_ifs at h with hbounds
  · obtain ⟨-, hnone, -⟩ := h
  obtain ⟨date, hutc, h⟩ := Option.bind_eq_some_iff.1 h
  dsimp only at hbounds hutc h
  split_ifs at h with hread
  obtain rfl := Option.some.inj h
  obtain ⟨d, rfl⟩ := Date.exists_number date
  obtain ⟨hyear, hmonth, hday⟩ := d.read_number
  simp only [minYear, maxYear] at hbounds
  have hsame : d.year = d.month / 12 := rfl
  refine ⟨d, ?_, ?_, rfl⟩
  · simp only [Bounded, minYear, maxYear]
    omega
  · have hyear' : d.year.toNat = year := by omega
    have hmonth' : (d.month % 12 + 1).toNat = month := by omega
    have hday' : d.day.toNat = day := by omega
    rw [textOf, hyear', hmonth', hday', dateParts_eq_some hparts]

end Parse

/-! ### Anniversaries -/

theorem daysInMonth_eq {year month : ℤ} (hlow : 100 ≤ year) (hhigh : year ≤ 9999)
    (hmonth : 0 ≤ month ∧ month ≤ 11) :
    daysInMonth year month = some (lengthOf (12 * year + month)) := by
  have hlength := lengthOf_bounds (12 * year + month)
  let last : Date := ⟨12 * year + month, lengthOf (12 * year + month), by omega, le_refl _⟩
  have hyear : last.year = year := by
    simp only [Date.year, last]
    omega
  have hmake : makeDay year (month + 1) 0 = last.number := by
    rw [makeDay, ← add_assoc, firstOf_succ]
    simp only [Date.number, last]
    omega
  have hfour : FourDigits last := ⟨by omega, by omega⟩
  rw [daysInMonth, dateUTC_eq hmake hlow hfour, Option.map_some, last.read_number.2.2]

/-- An anniversary lies the same number of months later. -/
theorem anniversary_number {d : Date} {k : ℕ} (hlow : 100 ≤ d.year)
    (hhigh : (d.addMonths k).year ≤ 9999) :
    anniversary d.number k = some (d.addMonths k).number := by
  obtain ⟨hyear, hmonth, hday⟩ := d.read_number
  have hindex : (d.addMonths k).month = d.month + k := rfl
  have hsame : d.year = d.month / 12 := rfl
  have hlater : (d.addMonths k).year = (d.month + k) / 12 := rfl
  have hraw : (0 : ℤ) ≤ monthOf d.number + k := by omega
  have hmod : (((monthOf d.number : ℤ) + k).tmod 12 + 12).tmod 12 = (d.month + k) % 12 := by
    rw [Int.tmod_eq_emod_of_nonneg hraw, Int.tmod_eq_emod_of_nonneg (by omega)]
    omega
  have hyears : yearOf d.number + ((monthOf d.number : ℤ) + k) / 12 = (d.month + k) / 12 := by omega
  have hback : 12 * ((d.month + k) / 12) + (d.month + k) % 12 = d.month + k := by omega
  have hmake : makeDay ((d.month + k) / 12) ((d.month + k) % 12)
      (min d.day (lengthOf (d.month + k))) = (d.addMonths k).number :=
    makeDay_of_read rfl rfl rfl
  rw [anniversary]
  simp only [hyears, hmod, hday]
  rw [daysInMonth_eq (by omega) (by omega) (by omega), hback]
  exact dateUTC_eq hmake (by omega) ⟨by omega, hhigh⟩

end InferDeck.Dashboard
