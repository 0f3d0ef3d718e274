import InferDeck.SinglePrecision

/-!
# Numbers of double precision

Rounding to the nearest double, to the one with an even significand in the middle, for numbers far
below the largest one, and sums that are rounded after each addition.
-/

namespace InferDeck.DoublePrecision

open SinglePrecision

/-- The distance of the doubles next to a number. -/
def ulp (x : ℚ) : ℚ := 2 ^ (max (Int.log 2 |x|) (-1022) - 52)

def toDouble (x : ℚ) : ℚ := nearest (x / ulp x) * ulp x

def IsDouble (x : ℚ) : Prop := toDouble x = x

theorem ulp_pos (x : ℚ) : 0 < ulp x := by
  unfold ulp
  positivity

theorem isDouble_of_multiple {x : ℚ} {n : ℤ} (h : x = n * ulp x) : IsDouble x := by
  have hquotient : x / ulp x = n := by
    rw [div_eq_iff (ulp_pos x).ne']
    exact h
  rw [IsDouble, toDouble, hquotient, nearest_intCast, ← h]

theorem isDouble_of_lt {n k : ℤ} (hn : |n| < 2 ^ 53) (hk : -1074 ≤ k) :
    IsDouble (n * 2 ^ k) := by
  obtain rfl | hne := eq_or_ne n 0
  · simp [IsDouble, toDouble, nearest]
  have hpos : 0 < |(n : ℚ) * 2 ^ k| := by positivity
  have hsmall : |(n : ℚ) * 2 ^ k| < ((2 : ℕ) : ℚ) ^ (53 + k) := by
    have hn' : |(n : ℚ)| < 2 ^ 53 := by exact_mod_cast hn
    rw [abs_mul, abs_of_pos (by positivity : (0 : ℚ) < 2 ^ k), Nat.cast_ofNat,
      zpow_add₀ (by norm_num)]
    exact mul_lt_mul_of_pos_right (by exact_mod_cast hn') (by positivity)
  have hlog := (Int.lt_zpow_iff_log_lt (by norm_num) hpos).1 hsmall
  -- the doubles next to the number are no further apart than the multiples are
  obtain ⟨d, hd⟩ : ∃ d : ℕ, max (Int.log 2 |(n : ℚ) * 2 ^ k|) (-1022) - 52 = k - d :=
    ⟨(k - (max (Int.log 2 |(n : ℚ) * 2 ^ k|) (-1022) - 52)).toNat, by omega⟩
  refine isDouble_of_multiple (n := n * 2 ^ d) ?_
  rw [ulp, hd, zpow_sub₀ (by norm_num)]
  push_cast
  rw [zpow_natCast]
  field_simp

/-- A number with at most 53 binary digits is a double. -/
theorem isDouble_of_le {n k : ℤ} (hn : |n| ≤ 2 ^ 53) (hk : -1074 ≤ k) : IsDouble (n * 2 ^ k) := by
  obtain hlt | heq := hn.lt_or_eq
  · exact isDouble_of_lt hlt hk
  · -- the next power of two
    obtain ⟨m, rfl⟩ : (2 : ℤ) ∣ n := by
      rw [← abs_dvd_abs, heq]
      norm_num
    have hm : |m| < 2 ^ 53 := by
      rw [abs_mul] at heq
      norm_num at heq ⊢
      omega
    have hsame : ((2 * m : ℤ) : ℚ) * 2 ^ k = m * 2 ^ (k + 1) := by
      rw [zpow_add_one₀ (by norm_num)]
      push_cast
      ring
    rw [hsame]
    exact isDouble_of_lt hm (by omega)

theorem isDouble_zero : IsDouble 0 := by
  simp [IsDouble, toDouble, nearest]

theorem isDouble_natCast {n : ℕ} (h : n ≤ 2 ^ 53) : IsDouble n := by
  have hdouble := isDouble_of_le (n := n) (k := 0) (by simpa using (by exact_mod_cast h)) (by norm_num)
  simpa using hdouble

theorem abs_nearest_le {q : ℚ} {n : ℤ} (hq : |q| < n) : |nearest q| ≤ n := by
  obtain ⟨hlow, hhigh⟩ := abs_lt.1 hq
  have hfloor : -n ≤ ⌊q⌋ := Int.le_floor.2 (by push_cast; exact hlow.le)
  have hceil : ⌊q⌋ < n := Int.floor_lt.2 hhigh
  rw [abs_le]
  unfold nearest
  split_ifs <;> omega

theorem abs_lt_ulp (x : ℚ) : |x| < 2 ^ 53 * ulp x := by
  have hlog := Int.lt_zpow_succ_log_self (one_lt_two) |x|
  have hexponent : (2 : ℚ) ^ (Int.log 2 |x| + 1) ≤ 2 ^ (max (Int.log 2 |x|) (-1022) + 1) := by
    apply zpow_le_zpow_right₀ (by norm_num)
    omega
  have hsame : (2 : ℚ) ^ 53 * ulp x = 2 ^ (max (Int.log 2 |x|) (-1022) + 1) := by
    rw [ulp, ← zpow_natCast, ← zpow_add₀ (by norm_num)]
    congr 1
    push_cast
    ring
  rw [hsame]
  exact (by exact_mod_cast hlog : |x| < (2 : ℚ) ^ (Int.log 2 |x| + 1)).trans_le hexponent

/-- Rounding gives a double. -/
theorem isDouble_toDouble (x : ℚ) : IsDouble (toDouble x) := by
  have hquotient : |x / ulp x| < ((2 ^ 53 : ℤ) : ℚ) := by
    rw [abs_div, abs_of_pos (ulp_pos x), div_lt_iff₀ (ulp_pos x)]
    push_cast
    exact abs_lt_ulp x
  exact isDouble_of_le (abs_nearest_le hquotient) (by omega)

theorem toDouble_nonneg {x : ℚ} (h : 0 ≤ x) : 0 ≤ toDouble x := by
  have hquotient : 0 ≤ x / ulp x := div_nonneg h (ulp_pos x).le
  have hfloor : 0 ≤ ⌊x / ulp x⌋ := Int.floor_nonneg.2 hquotient
  have hnearest : 0 ≤ nearest (x / ulp x) := by
    unfold nearest
    split_ifs <;> omega
  exact mul_nonneg (by exact_mod_cast hnearest) (ulp_pos x).le

section Sums

/-- The sum of the values in their order, each addition rounded. -/
def totalFrom (start : ℚ) (values : List ℚ) : ℚ :=
  values.foldl (fun sum value => toDouble (sum + value)) start

def total (values : List ℚ) : ℚ := totalFrom 0 values

/-- Whichever of the values are added up, the sum is a double. -/
def ExactSums (values : List ℚ) : Prop := ∀ part : List ℚ, part.Sublist values → IsDouble part.sum

variable {values : List ℚ}

theorem ExactSums.sublist {part : List ℚ} (h : ExactSums values) (hpart : part.Sublist values) :
    ExactSums part :=
  fun _ hsub => h _ (hsub.trans hpart)

theorem ExactSums.totalFrom_eq {done : List ℚ} (h : ExactSums (done ++ values)) :
    totalFrom done.sum values = (done ++ values).sum := by
  induction values generalizing done with
  | nil => simp [totalFrom]
  | cons value values ih =>
      have hstep : toDouble (done.sum + value) = (done ++ [value]).sum := by
        have hdouble := h (done ++ [value]) (by simp)
        rw [List.sum_append, List.sum_singleton] at hdouble ⊢
        exact hdouble
      have hrest : totalFrom (done ++ [value]).sum values = (done ++ [value] ++ values).sum :=
        ih (by simpa using h)
      rw [totalFrom, List.foldl_cons, hstep]
      simpa [totalFrom] using hrest

/-- Sums that are doubles are not rounded. -/
theorem ExactSums.total_eq (h : ExactSums values) : total values = values.sum := by
  have hfrom : totalFrom ([] : List ℚ).sum values = ([] ++ values).sum :=
    ExactSums.totalFrom_eq (by simpa using h)
  simpa [total] using hfrom

theorem isDouble_totalFrom {start : ℚ} (hstart : IsDouble start) :
    IsDouble (totalFrom start values) := by
  induction values generalizing start with
  | nil => exact hstart
  | cons value values ih => exact ih (isDouble_toDouble _)

theorem exactSums_natCast {counts : List ℕ} (h : counts.sum ≤ 2 ^ 53) :
    ExactSums (counts.map fun n : ℕ => (n : ℚ)) := by
  intro part hpart
  obtain ⟨chosen, hchosen, rfl⟩ := List.sublist_map_iff.1 hpart
  have hsum : ((chosen.map fun n : ℕ => (n : ℚ))).sum = (chosen.sum : ℕ) := by
    simp [Nat.cast_list_sum]
  rw [hsum]
  exact isDouble_natCast ((hchosen.sum_le_sum fun _ _ => Nat.zero_le _).trans h)

end Sums

end InferDeck.DoublePrecision
