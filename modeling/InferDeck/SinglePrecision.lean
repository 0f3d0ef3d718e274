import Mathlib

/-!
# Numbers of single precision

The value that 32 bits stand for, and rounding to the nearest number of single precision, to the one
with an even significand in the middle, for numbers far below the largest one.
-/

namespace InferDeck.SinglePrecision

/-- The number of 32 bits, `none` for infinities and what is not a number. -/
def ofBits (bits : ℕ) : Option ℚ :=
  let sign : ℚ := if bits / 2 ^ 31 % 2 = 1 then -1 else 1
  let exponent : ℕ := bits / 2 ^ 23 % 2 ^ 8
  let significand : ℕ := bits % 2 ^ 23
  if exponent = 255 then none
  else if exponent = 0 then some (sign * significand * 2 ^ (-149 : ℤ))
  else some (sign * (2 ^ 23 + significand) * 2 ^ (exponent - 150 : ℤ))

/-- The nearest integer, and the even one in the middle. -/
def nearest (q : ℚ) : ℤ :=
  if q - ⌊q⌋ < 1 / 2 then ⌊q⌋
  else if 1 / 2 < q - ⌊q⌋ then ⌊q⌋ + 1
  else if ⌊q⌋ % 2 = 0 then ⌊q⌋ else ⌊q⌋ + 1

/-- The distance of the numbers next to a number. -/
def unit (x : ℚ) : ℚ := 2 ^ (max (Int.log 2 |x|) (-126) - 23)

def round (x : ℚ) : ℚ := nearest (x / unit x) * unit x

theorem nearest_intCast (n : ℤ) : nearest n = n := by
  simp [nearest]

theorem abs_nearest_sub_le (q : ℚ) : |(nearest q : ℚ) - q| ≤ 1 / 2 := by
  have hlow := Int.floor_le q
  have hhigh := Int.lt_floor_add_one q
  rw [abs_le]
  unfold nearest
  split_ifs with hbelow habove <;> push_cast <;> constructor <;> linarith

theorem unit_pos (x : ℚ) : 0 < unit x := by
  unfold unit
  positivity

/-- Rounding moves a number by at most half of a unit. -/
theorem abs_round_sub_le (x : ℚ) : |round x - x| ≤ unit x / 2 := by
  have hunit := unit_pos x
  have hsame : round x - x = (nearest (x / unit x) - x / unit x) * unit x := by
    rw [round, sub_mul, div_mul_cancel₀ x hunit.ne']
  rw [hsame, abs_mul, abs_of_pos hunit]
  calc |(nearest (x / unit x) : ℚ) - x / unit x| * unit x
      ≤ 1 / 2 * unit x := mul_le_mul_of_nonneg_right (abs_nearest_sub_le _) hunit.le
    _ = unit x / 2 := by ring

/-- Multiples of the unit are numbers of single precision. -/
theorem round_eq_self {x : ℚ} {n : ℤ} (h : x = n * unit x) : round x = x := by
  have hquotient : x / unit x = n := by
    rw [div_eq_iff (unit_pos x).ne']
    exact h
  rw [round, hquotient, nearest_intCast, ← h]

/-- The binary exponent of a number below a power of two. -/
theorem log_le {x : ℚ} {k : ℕ} (hx : |x| < 2 ^ (k + 1)) : Int.log 2 |x| ≤ k := by
  obtain h0 | hpos := (abs_nonneg x).eq_or_lt
  · rw [← h0, Int.log_zero_right]
    exact Int.natCast_nonneg k
  · have hx' : |x| < ((2 : ℕ) : ℚ) ^ (k + 1 : ℤ) := by exact_mod_cast hx
    have := (Int.lt_zpow_iff_log_lt (by norm_num) hpos).1 hx'
    omega

theorem unit_le {x : ℚ} {k : ℕ} (hx : |x| < 2 ^ (k + 1)) : unit x ≤ 2 ^ (k - 23 : ℤ) := by
  have hlog := log_le hx
  unfold unit
  apply zpow_le_zpow_right₀ (by norm_num)
  omega

/-- A fraction of 32768 with a small numerator is a number of single precision. -/
theorem round_sample {n : ℤ} (hn : |n| < 2 ^ 24) : round (n / 2 ^ 15) = n / 2 ^ 15 := by
  have hx : |(n / 2 ^ 15 : ℚ)| < 2 ^ (8 + 1) := by
    have hn' : |(n : ℚ)| < 2 ^ 24 := by exact_mod_cast hn
    rw [abs_div, abs_of_pos (by positivity : (0 : ℚ) < 2 ^ 15), div_lt_iff₀ (by positivity)]
    norm_num at hn' ⊢
    exact hn'
  have hlog := log_le hx
  obtain ⟨d, hd⟩ : ∃ d : ℕ, max (Int.log 2 |(n / 2 ^ 15 : ℚ)|) (-126) = 8 - d :=
    ⟨(8 - max (Int.log 2 |(n / 2 ^ 15 : ℚ)|) (-126)).toNat, by omega⟩
  have hmultiple : (n / 2 ^ 15 : ℚ) = ((n * 2 ^ d : ℤ) : ℚ) * unit (n / 2 ^ 15) := by
    have hexponent : (8 - d - 23 : ℤ) = -15 - d := by ring
    rw [unit, hd, hexponent, zpow_sub₀ (by norm_num)]
    push_cast
    rw [zpow_natCast]
    field_simp
  exact round_eq_self hmultiple

end InferDeck.SinglePrecision
