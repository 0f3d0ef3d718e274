import Mathlib.Tactic

/-!
# Bisection

Two searches for where a property of the natural numbers changes, with tests that may have effects.
`last` finds the last number that holds below one that does not, after `grow` has found one by
doubling; `first` finds the first index that holds.
-/

namespace InferDeck.Bisection

section Last

variable {m : Type → Type} [Monad m]

/-- Double the number while it holds. The limit is the last number to test; zero, which doubling
does not change, is not tested. -/
def grow (test : ℕ → m Bool) (visit : ℕ → m Unit) (limit good upper : ℕ) : m (ℕ × ℕ) :=
  if h : 0 < upper ∧ upper ≤ limit then do
    if ← test upper then
      visit upper
      grow test visit limit upper (min (limit + 1) (upper * 2))
    else pure (good, upper)
  else pure (good, upper)
termination_by limit + 1 - upper
decreasing_by omega

/-- Halve what lies between a number that holds and one that does not. -/
def last (test : ℕ → m Bool) (good bad : ℕ) : m ℕ :=
  if h : good + 1 < bad then do
    if ← test (good + (bad - good) / 2) then last test (good + (bad - good) / 2) bad
    else last test good (good + (bad - good) / 2)
  else pure good
termination_by bad - good
decreasing_by all_goals omega

variable [LawfulMonad m] {test : ℕ → m Bool} {visit : ℕ → m Unit} {p : ℕ → Prop} [DecidablePred p]
  {limit good upper : ℕ}

structure Bracket (p : ℕ → Prop) (limit good bad : ℕ) : Prop where
  holds : p good
  lt : good < bad
  le : bad ≤ limit + 1
  fails : bad = limit + 1 ∨ ¬ p bad

theorem grow_spec (htest : ∀ n ≤ limit, test n = pure (decide (p n)))
    (hvisit : ∀ n ≤ limit, visit n = pure ()) (hgood : p good) (hlt : good < upper)
    (hle : upper ≤ limit + 1) :
    ∃ n bad, grow test visit limit good upper = pure (n, bad) ∧ good ≤ n ∧
      Bracket p limit n bad := by
  induction good, upper using grow.induct limit with
  | case1 good upper h ih =>
      rw [grow, dif_pos h, htest upper h.2, pure_bind]
      by_cases hp : p upper
      · rw [decide_eq_true hp, if_pos rfl, hvisit upper h.2, pure_bind]
        obtain ⟨n, bad, hgrow, hn, hbracket⟩ := ih hp (by omega) (by omega)
        exact ⟨n, bad, hgrow, by omega, hbracket⟩
      · rw [decide_eq_false hp]
        exact ⟨good, upper, rfl, le_rfl, hgood, hlt, hle, Or.inr hp⟩
  | case2 good upper h =>
      rw [grow, dif_neg h]
      exact ⟨good, upper, rfl, le_rfl, hgood, hlt, hle, Or.inl (by omega)⟩

theorem last_spec {bad : ℕ} (hp : AntitoneOn p (Set.Ioi good))
    (htest : ∀ n ≤ limit, test n = pure (decide (p n))) (hbracket : Bracket p limit good bad) :
    ∃ n, last test good bad = pure n ∧ IsGreatest {k | k ≤ limit ∧ p k} n := by
  induction good, bad using last.induct with
  | case1 good bad h ihHolds ihFails =>
      have hmiddle : good + (bad - good) / 2 ≤ limit := by
        have := hbracket.le
        omega
      rw [last, dif_pos h, htest _ hmiddle, pure_bind]
      by_cases hholds : p (good + (bad - good) / 2)
      · rw [decide_eq_true hholds, if_pos rfl]
        exact ihHolds (hp.mono (Set.Ioi_subset_Ioi (by omega)))
          ⟨hholds, by omega, hbracket.le, hbracket.fails⟩
      · rw [decide_eq_false hholds, if_neg Bool.false_ne_true]
        exact ihFails hp ⟨hbracket.holds, by omega, by omega, Or.inr hholds⟩
  | case2 good bad h =>
      rw [last, dif_neg h]
      have hlt := hbracket.lt
      have hle := hbracket.le
      refine ⟨good, rfl, ⟨by omega, hbracket.holds⟩, ?_⟩
      rintro k ⟨hk, hpk⟩
      by_contra hgt
      rcases hbracket.fails with hbad | hbad
      · omega
      · exact hbad (hp (Set.mem_Ioi.2 hlt) (Set.mem_Ioi.2 (by omega)) (by omega) hpk)

end Last

section First

variable {σ : Type}

/-- Halve the indices between two, the upper one of which is taken without a test. -/
def first (test : ℕ → StateM σ Bool) (lower upper : ℕ) : StateM σ ℕ :=
  if h : lower < upper then do
    if ← test (lower + (upper - lower) / 2) then first test lower (lower + (upper - lower) / 2)
    else first test (lower + (upper - lower) / 2 + 1) upper
  else pure lower
termination_by upper - lower
decreasing_by all_goals omega

/-- The tests keep an invariant of the state, and what they find depends on the index alone. -/
structure Tests (test : ℕ → StateM σ Bool) (p : ℕ → Prop) [DecidablePred p] (size : ℕ)
    (I : σ → Prop) : Prop where
  finds : ∀ i < size, ∀ s, (test i s).1 = decide (p i)
  keeps : ∀ i < size, ∀ s, I s → I (test i s).2

variable {test : ℕ → StateM σ Bool} {p : ℕ → Prop} [DecidablePred p] {I : σ → Prop}
  {lower upper size : ℕ}

/-- The first index that holds, or the last index where none does. -/
theorem first_spec (htests : Tests test p size I)
    (hp : ∀ i j, i ≤ j → j < size → p i → p j) (hle : lower ≤ upper) (hsize : upper < size)
    (hlower : ∀ i < lower, ¬ p i) (hupper : upper + 1 = size ∨ p upper)
    {s : σ} (hI : I s) :
    I (first test lower upper s).2 ∧ (first test lower upper s).1 < size ∧
      (∀ i < (first test lower upper s).1, ¬ p i) ∧
      ((first test lower upper s).1 + 1 = size ∨ p (first test lower upper s).1) := by
  induction lower, upper using first.induct generalizing s with
  | case1 lower upper h ihHolds ihFails =>
      have hmiddle : lower + (upper - lower) / 2 < size := by omega
      have hfinds := htests.finds _ hmiddle s
      have hkeeps := htests.keeps _ hmiddle s hI
      rcases htest : test (lower + (upper - lower) / 2) s with ⟨found, s'⟩
      rw [htest] at hfinds hkeeps
      have hstep : first test lower upper s =
          if found then first test lower (lower + (upper - lower) / 2) s'
          else first test (lower + (upper - lower) / 2 + 1) upper s' := by
        rw [first, dif_pos h]
        change (match test (lower + (upper - lower) / 2) s with
          | (found, s') => (if found then first test lower (lower + (upper - lower) / 2)
              else first test (lower + (upper - lower) / 2 + 1) upper) s') = _
        rw [htest]
        cases found <;> rfl
      dsimp only at hfinds
      rw [hstep, hfinds]
      by_cases hholds : p (lower + (upper - lower) / 2)
      · rw [decide_eq_true hholds, if_pos rfl]
        exact ihHolds (by omega) hmiddle hlower (Or.inr hholds) hkeeps
      · rw [decide_eq_false hholds, if_neg Bool.false_ne_true]
        refine ihFails (by omega) hsize ?_ hupper hkeeps
        intro i hi hpi
        exact hholds (hp i _ (by omega) hmiddle hpi)
  | case2 lower upper h =>
      obtain rfl : lower = upper := by omega
      have hstop : first test lower lower s = (lower, s) := by
        rw [first, dif_neg h]
        rfl
      rw [hstop]
      exact ⟨hI, hsize, hlower, hupper⟩

end First

end InferDeck.Bisection
