import InferDeck.Bisection
import InferDeck.Foundation

/-!
# Fitting the context pool to the memory

`fit_context_pool` probes how large a context the devices have room for. In the automatic mode it
looks for the most full requests, and then for the most sequences that the same pool may have; in
the fixed mode for a capacity between the smallest and the greatest one.
-/

namespace InferDeck.LlamaWrapper

open Bisection Foundation

/-- A computation with the integers of the machine, which `none` has overflowed. -/
abbrev Checked := ExceptT Error Option

def intMin : ℤ := -2147483648

def checkedInt (value : ℤ) : Checked ℤ :=
  if intMin ≤ value ∧ value ≤ intMax then pure value else ExceptT.mk none

/-- What `fit_context_pool` finds around it. -/
structure ContextProbe where
  /-- The checks and the model file before the first probe. -/
  prepare : Result Unit := .ok ()
  /-- Whether the lifecycle goes on before each halving of the fixed mode. -/
  control : ℕ → Result Unit := fun _ => .ok ()
  /-- A context of the capacity and the sequences: its actual capacity, where it fits. -/
  probe : ℤ → ℤ → Result (Option ℤ)
  /-- `llama_max_parallel_sequences`. -/
  maxParallelSequences : ℕ
  nBatch : ℕ

namespace ContextProbe

variable (env : ContextProbe)

def maximumSequences (minimumCapacity : ℕ) : ℕ :=
  min env.maxParallelSequences
    (min (max 1 env.nBatch) (intMax.toNat / minimumCapacity))

def fits (capacity : ℕ → Checked ℤ) (sequences : ℕ) : Checked Bool := do
  let found ← ExceptT.mk (some (env.probe (← capacity sequences) sequences))
  return found.isSome

def double (upper : ℕ) : Checked Unit := do
  let _ ← checkedInt (upper * 2)

def mostSequences (capacity : ℕ → Checked ℤ) (limit good upper : ℕ) : Checked ℕ := do
  let (good, bad) ← grow (env.fits capacity) double limit good upper
  last (env.fits capacity) good bad

def fitAutomatic (minimumCapacity : ℕ) : Checked (ℤ × ℕ) := do
  let maximumSequences := env.maximumSequences minimumCapacity
  let full := fun sequences : ℕ => checkedInt (sequences * minimumCapacity)
  if !(← env.fits (fun _ => pure minimumCapacity) 1) then
    throw { code := .outOfMemory, message := "one full request context does not fit" }
  let fullRequests ← env.mostSequences full maximumSequences 1 (min 2 (maximumSequences + 1))
  let pool ← full fullRequests
  double fullRequests
  let sequences ← env.mostSequences (fun _ => pure pool) maximumSequences fullRequests
    (min (maximumSequences + 1) (fullRequests * 2))
  match ← ExceptT.mk (some (env.probe pool sequences)) with
  | none =>
      throw { code := .outOfMemory
              message := "memory availability changed during concurrency fitting" }
  | some actual => return (max 0 actual, sequences)

/-- The greatest capacity that has fitted and the smallest that has not, with the greatest actual
capacity so far. -/
structure Halving where
  selected : ℕ
  firstFailure : ℕ
  actual : ℤ

def halve : ℕ → Halving → Result Halving
  | 0, s => .ok s
  | rounds + 1, s =>
      if s.selected + 1 < s.firstFailure then do
        env.control rounds
        let midpoint := s.selected + (s.firstFailure - s.selected) / 2
        match ← env.probe midpoint 0 with
        | some actual =>
            halve rounds { s with selected := midpoint, actual := max s.actual actual }
        | none => halve rounds { s with firstFailure := midpoint }
      else .ok s

def fitFixed (minimumCapacity maximumCapacity : ℕ) : Result ℤ := do
  match ← env.probe minimumCapacity 0 with
  | none => err .outOfMemory "minimum shared context pool does not fit"
  | some least =>
      if maximumCapacity = minimumCapacity then .ok (max 0 least)
      else
        match ← env.probe maximumCapacity 0 with
        | some greatest => .ok (max (max 0 least) greatest)
        | none => do
            let s ← env.halve 12 ⟨minimumCapacity, maximumCapacity, max 0 least⟩
            .ok s.actual

def fitContextPool (automatic : Bool) (minimumCapacity maximumCapacity vramSafetyMarginMb : ℤ) :
    Checked (ℤ × Option ℕ) := do
  if minimumCapacity ≤ 0 ∨ maximumCapacity < minimumCapacity ∨ vramSafetyMarginMb < 0 then
    throw { code := .invalidArgument, message := "invalid context pool fitting bounds" }
  ExceptT.mk (some env.prepare)
  if automatic then
    let (capacity, sequences) ← env.fitAutomatic minimumCapacity.toNat
    return (capacity, some sequences)
  else
    let capacity ← ExceptT.mk (some
      (env.fitFixed minimumCapacity.toNat maximumCapacity.toNat))
    return (capacity, none)

/-! ### What the search finds -/

/-- The capacity that llama.cpp gives a context of the requested one. -/
def roundUp (padding capacity : ℤ) : ℤ := (capacity + padding - 1) / padding * padding

/-- The devices have the same room throughout. With the numbers of sequences that the automatic mode
tries, less of a context never needs more of it; the fixed mode asks with 0 for the configured number. -/
structure Steady (room : ℤ → ℤ → Option ℤ) (padding : ℤ) : Prop where
  prepare : env.prepare = .ok ()
  control : ∀ i, env.control i = .ok ()
  probe : ∀ capacity sequences, env.probe capacity sequences = .ok (room capacity sequences)
  shrinks : ∀ capacity sequences capacity' sequences', capacity' ≤ capacity →
    0 < sequences' → sequences' ≤ sequences → (room capacity sequences).isSome = true →
      (room capacity' sequences').isSome = true
  /-- llama.cpp pads the capacity of a context, and nothing else about it depends on the request. -/
  padded : ∀ capacity sequences actual, room capacity sequences = some actual →
    actual = roundUp padding capacity
  same : ∀ capacity sequences, room (roundUp padding capacity) sequences = room capacity sequences
  padding_pos : 0 < padding
  parallel_pos : 0 < env.maxParallelSequences
  /-- `LLAMA_MAX_SEQ`. -/
  parallel_le : env.maxParallelSequences ≤ 256

variable {env} {room : ℤ → ℤ → Option ℤ} {padding : ℤ}

section RoundUp

variable {capacity capacity' : ℤ}

theorem le_roundUp (h : 0 < padding) : capacity ≤ roundUp padding capacity := by
  have hdiv := Int.mul_ediv_add_emod (capacity + padding - 1) padding
  have hmod := Int.emod_lt_of_pos (capacity + padding - 1) h
  rw [roundUp, Int.mul_comm]
  omega

theorem roundUp_mono (h : 0 < padding) (hle : capacity ≤ capacity') :
    roundUp padding capacity ≤ roundUp padding capacity' :=
  Int.mul_le_mul_of_nonneg_right (Int.ediv_le_ediv h (by omega)) h.le

theorem roundUp_roundUp (h : 0 < padding) :
    roundUp padding (roundUp padding capacity) = roundUp padding capacity := by
  have hdiv : (roundUp padding capacity + padding - 1) / padding =
      (capacity + padding - 1) / padding := by
    rw [roundUp, Int.add_sub_assoc, Int.add_comm, Int.add_mul_ediv_right _ _ h.ne',
      Int.ediv_eq_zero_of_lt (by omega) (by omega), Int.zero_add]
  rw [roundUp, hdiv, roundUp]

end RoundUp

theorem checkedInt_eq {value : ℤ} (hlow : intMin ≤ value) (hhigh : value ≤ intMax) :
    checkedInt value = pure value := if_pos ⟨hlow, hhigh⟩

section Automatic

variable {minimumCapacity : ℕ}

theorem Steady.fits_eq (h : env.Steady room padding) {capacity : ℕ → Checked ℤ} {sequences : ℕ}
    {value : ℤ} (hcapacity : capacity sequences = pure value) :
    env.fits capacity sequences = pure (room value sequences).isSome := by
  rw [fits, hcapacity, pure_bind, h.probe]
  rfl

theorem maximumSequences_pos (h : env.Steady room padding) (hpos : 0 < minimumCapacity)
    (hle : (minimumCapacity : ℤ) ≤ intMax) : 0 < env.maximumSequences minimumCapacity := by
  have hdiv : 0 < intMax.toNat / minimumCapacity := Nat.div_pos (by omega) hpos
  have hparallel := h.parallel_pos
  unfold maximumSequences
  omega

theorem Steady.maximumSequences_le (h : env.Steady room padding) :
    env.maximumSequences minimumCapacity ≤ 256 :=
  (min_le_left _ _).trans h.parallel_le

/-- No product of a number of sequences that is tried leaves the range of an `int`. -/
theorem checkedInt_full {n : ℕ} (hn : n ≤ env.maximumSequences minimumCapacity) :
    checkedInt (n * minimumCapacity) = pure ((n * minimumCapacity : ℕ) : ℤ) := by
  have hquotient : n ≤ intMax.toNat / minimumCapacity :=
    hn.trans ((min_le_right _ _).trans (min_le_right _ _))
  have hproduct : n * minimumCapacity ≤ intMax.toNat := (Nat.mul_le_mul_right _ hquotient).trans
    (Nat.div_mul_le_self _ _)
  have hmax : (intMax.toNat : ℤ) = intMax := rfl
  rw [← Nat.cast_mul]
  refine checkedInt_eq ?_ ?_
  · exact (show intMin ≤ 0 by decide).trans (Int.natCast_nonneg _)
  · omega

theorem double_eq {n : ℕ} (hn : n ≤ 256) : double n = pure () := by
  have hlow : intMin ≤ (n : ℤ) * 2 := by unfold intMin; omega
  have hhigh : (n : ℤ) * 2 ≤ intMax := by unfold intMax; omega
  rw [double, checkedInt_eq hlow hhigh]
  rfl

theorem Steady.mostSequences_eq (h : env.Steady room padding) {capacity : ℕ → Checked ℤ}
    {value : ℕ → ℤ} {limit good upper : ℕ} (hlimit : limit ≤ 256)
    (hcapacity : ∀ n ≤ limit, capacity n = pure (value n)) (hvalue : Monotone value)
    (hgood : (room (value good) good).isSome = true) (hlt : good < upper)
    (hle : upper ≤ limit + 1) :
    ∃ n, env.mostSequences capacity limit good upper = pure n ∧
      IsGreatest {k | k ≤ limit ∧ (room (value k) k).isSome = true} n := by
  have htest : ∀ n ≤ limit, env.fits capacity n =
      pure (decide ((room (value n) n).isSome = true)) := by
    intro n hn
    rw [h.fits_eq (hcapacity n hn), Bool.decide_eq_true]
  have hantitone : AntitoneOn (fun n : ℕ => (room (value n) n).isSome = true) (Set.Ioi 0) := by
    intro a ha b _ hab
    exact h.shrinks _ _ _ _ (hvalue hab) (Int.natCast_pos.2 ha) (Int.ofNat_le.2 hab)
  obtain ⟨n, bad, hgrow, -, hbracket⟩ := grow_spec (p := fun n : ℕ =>
    (room (value n) n).isSome = true) htest (fun n hn => double_eq (hn.trans hlimit)) hgood hlt hle
  obtain ⟨m, hlast, hgreatest⟩ := last_spec
    (hantitone.mono (Set.Ioi_subset_Ioi (Nat.zero_le n))) htest hbracket
  refine ⟨m, ?_, hgreatest⟩
  rw [mostSequences, hgrow, pure_bind]
  exact hlast

/-- What the automatic mode gives where one full request fits: the most full requests, and the most
sequences in the pool that these take. -/
def BestPool (env : ContextProbe) (room : ℤ → ℤ → Option ℤ) (minimumCapacity : ℕ)
    (result : ℤ × ℕ) : Prop :=
  ∃ fullRequests : ℕ,
    IsGreatest {n : ℕ | 1 ≤ n ∧ n ≤ env.maximumSequences minimumCapacity ∧
      (room ((n * minimumCapacity : ℕ) : ℤ) n).isSome = true} fullRequests ∧
    IsGreatest {n : ℕ | fullRequests ≤ n ∧ n ≤ env.maximumSequences minimumCapacity ∧
      (room ((fullRequests * minimumCapacity : ℕ) : ℤ) n).isSome = true} result.2 ∧
    (room ((fullRequests * minimumCapacity : ℕ) : ℤ) result.2).map (max 0) = some result.1

theorem Steady.fitAutomatic_eq (h : env.Steady room padding) (hpos : 0 < minimumCapacity)
    (hle : (minimumCapacity : ℤ) ≤ intMax) :
    ((room minimumCapacity 1).isSome = true ∧
      ∃ result, env.fitAutomatic minimumCapacity = pure result ∧
        BestPool env room minimumCapacity result) ∨
    (room minimumCapacity 1 = none ∧ env.fitAutomatic minimumCapacity =
      throw { code := .outOfMemory, message := "one full request context does not fit" }) := by
  have hmaximum := maximumSequences_pos h hpos hle
  have hone : env.fits (fun _ => pure minimumCapacity) 1 =
      pure (room minimumCapacity 1).isSome := h.fits_eq rfl
  cases hroom : room minimumCapacity 1 with
  | none =>
      right
      refine ⟨rfl, ?_⟩
      rw [hroom] at hone
      rw [fitAutomatic]
      simp only [hone, pure_bind, Option.isSome_none, Bool.not_false, if_true]
      rfl
  | some least =>
      left
      refine ⟨rfl, ?_⟩
      rw [hroom] at hone
      have hgood : (room ((1 * minimumCapacity : ℕ) : ℤ) (1 : ℕ)).isSome = true := by
        rw [Nat.one_mul, Nat.cast_one, hroom]
        rfl
      have hlimit : env.maximumSequences minimumCapacity ≤ 256 := h.maximumSequences_le
      have hmono : Monotone fun n : ℕ => ((n * minimumCapacity : ℕ) : ℤ) := by
        intro a b hab
        exact Int.ofNat_le.2 (Nat.mul_le_mul_right _ hab)
      obtain ⟨fullRequests, hfull, hgreatest⟩ := h.mostSequences_eq hlimit
        (fun n hn => checkedInt_full hn) hmono hgood
        (show 1 < min 2 (env.maximumSequences minimumCapacity + 1) by omega) (by omega)
      have hfullPos : 1 ≤ fullRequests := hgreatest.2 ⟨hmaximum, hgood⟩
      have hfullLimit : fullRequests ≤ env.maximumSequences minimumCapacity := hgreatest.1.1
      obtain ⟨sequences, hsequences, hbest⟩ := h.mostSequences_eq hlimit
        (fun n _ => (rfl : (fun _ => pure ((fullRequests * minimumCapacity : ℕ) : ℤ)) n =
          (pure ((fullRequests * minimumCapacity : ℕ) : ℤ) : Checked ℤ))) monotone_const
        hgreatest.1.2 (show fullRequests < min (env.maximumSequences minimumCapacity + 1)
          (fullRequests * 2) by omega) (by omega)
      have hsequencesLe : fullRequests ≤ sequences := hbest.2 hgreatest.1
      obtain ⟨actual, hactual⟩ := Option.isSome_iff_exists.1 hbest.1.2
      refine ⟨(max 0 actual, sequences), ?_, fullRequests, ?_, ?_, ?_⟩
      · rw [fitAutomatic]
        simp only [hone, pure_bind, Option.isSome_some, Bool.not_true, Bool.false_eq_true, if_false]
        rw [hfull]
        simp only [pure_bind]
        rw [checkedInt_full hfullLimit]
        simp only [pure_bind]
        rw [double_eq (hfullLimit.trans hlimit)]
        simp only [pure_bind]
        rw [hsequences]
        simp only [pure_bind]
        rw [h.probe, hactual]
        rfl
      · exact ⟨⟨hfullPos, hgreatest.1⟩, fun n hn => hgreatest.2 hn.2⟩
      · exact ⟨⟨hsequencesLe, hbest.1⟩, fun n hn => hbest.2 hn.2⟩
      · rw [hactual]
        rfl

end Automatic

section Fixed

/-- The capacity selected fits, and the first failure does not. -/
structure Halved (room : ℤ → ℤ → Option ℤ) (padding : ℤ) (s : Halving) : Prop where
  lt : s.selected < s.firstFailure
  holds : (room s.selected 0).isSome = true
  fails : room s.firstFailure 0 = none
  actual : s.actual = roundUp padding s.selected

/-- Each round halves the distance, rounded up. -/
theorem Steady.halve_eq (h : env.Steady room padding) (rounds : ℕ) {s : Halving}
    (hs : Halved room padding s) :
    ∃ t, env.halve rounds s = .ok t ∧ Halved room padding t ∧ s.selected ≤ t.selected ∧
      t.firstFailure ≤ s.firstFailure ∧ (t.firstFailure - t.selected ≤ 1 ∨
        (t.firstFailure - t.selected - 1) * 2 ^ rounds < s.firstFailure - s.selected) := by
  induction rounds generalizing s with
  | zero =>
      have hlt := hs.lt
      exact ⟨s, rfl, hs, le_rfl, le_rfl, Or.inr (by omega)⟩
  | succ rounds ih =>
      rw [halve]
      by_cases hgap : s.selected + 1 < s.firstFailure
      · rw [if_pos hgap, h.control rounds]
        simp only [bind, Except.bind, h.probe]
        cases hroom : room ((s.selected + (s.firstFailure - s.selected) / 2 : ℕ) : ℤ) 0 with
        | some actual =>
            have hactual := h.padded _ _ _ hroom
            have hmono : roundUp padding s.selected ≤ actual := by
              rw [hactual]
              exact roundUp_mono h.padding_pos (by omega)
            have hnext : Halved room padding
                { s with
                  selected := s.selected + (s.firstFailure - s.selected) / 2
                  actual := max s.actual actual } :=
              ⟨by dsimp only; omega, by rw [hroom]; rfl, hs.fails,
                by rw [hs.actual, max_eq_right hmono, hactual]⟩
            obtain ⟨t, ht, hhalved, hlow, hhigh, hsize⟩ := ih hnext
            dsimp only at hlow hhigh hsize
            refine ⟨t, ht, hhalved, by omega, hhigh, ?_⟩
            rw [pow_succ, ← Nat.mul_assoc]
            omega
        | none =>
            have hnext : Halved room padding
                { s with firstFailure := s.selected + (s.firstFailure - s.selected) / 2 } :=
              ⟨by dsimp only; omega, hs.holds, hroom, hs.actual⟩
            obtain ⟨t, ht, hhalved, hlow, hhigh, hsize⟩ := ih hnext
            dsimp only at hlow hhigh hsize
            refine ⟨t, ht, hhalved, hlow, by omega, ?_⟩
            rw [pow_succ, ← Nat.mul_assoc]
            omega
      · rw [if_neg hgap]
        exact ⟨s, rfl, hs, le_rfl, le_rfl, Or.inl (by omega)⟩

/-- A context that fits is below one that does not, whatever its padding. -/
theorem Steady.roundUp_lt (h : env.Steady room padding) {selected failure : ℤ}
    (hlt : selected < failure) (hholds : (room selected 0).isSome = true)
    (hfails : room failure 0 = none) : roundUp padding selected < failure := by
  by_contra hle
  have hsame : roundUp padding failure = roundUp padding selected := by
    apply le_antisymm
    · have hselected : roundUp padding (roundUp padding selected) = roundUp padding selected :=
        roundUp_roundUp h.padding_pos
      rw [← hselected]
      exact roundUp_mono h.padding_pos (by omega)
    · exact roundUp_mono h.padding_pos hlt.le
  rw [← h.same, hsame, h.same, Option.eq_none_iff_forall_ne_some] at hfails
  obtain ⟨actual, hactual⟩ := Option.isSome_iff_exists.1 hholds
  exact hfails actual hactual

/-- What the fixed mode gives where the smallest capacity fits: the greatest one if that fits, and
otherwise one just below a failure. -/
def NearlyBest (room : ℤ → ℤ → Option ℤ) (padding : ℤ) (minimumCapacity maximumCapacity : ℕ)
    (capacity : ℤ) : Prop :=
  (room capacity 0).isSome = true ∧
    if (room maximumCapacity 0).isSome = true then capacity = roundUp padding maximumCapacity
    else ∃ failure : ℕ, room failure 0 = none ∧ failure ≤ maximumCapacity ∧
      minimumCapacity ≤ capacity ∧ capacity < failure ∧
      failure - capacity ≤ max 1 (((maximumCapacity - minimumCapacity + 2 ^ 12 - 1) / 2 ^ 12 : ℕ) : ℤ)

theorem Steady.fitFixed_eq (h : env.Steady room padding) {minimumCapacity maximumCapacity : ℕ}
    (hpos : 0 < minimumCapacity) (hle : minimumCapacity ≤ maximumCapacity) :
    ((room minimumCapacity 0).isSome = true ∧
      ∃ capacity, env.fitFixed minimumCapacity maximumCapacity = .ok capacity ∧
        NearlyBest room padding minimumCapacity maximumCapacity capacity) ∨
    (room minimumCapacity 0 = none ∧ env.fitFixed minimumCapacity maximumCapacity =
      err .outOfMemory "minimum shared context pool does not fit") := by
  have hrounded {capacity actual : ℤ} (hroom : room capacity 0 = some actual) :
      (room actual 0).isSome = true := by
    rw [h.padded _ _ _ hroom, h.same, hroom]
    rfl
  cases hleast : room minimumCapacity 0 with
  | none =>
      right
      refine ⟨rfl, ?_⟩
      rw [fitFixed]
      simp only [bind, Except.bind, h.probe, hleast]
  | some least =>
      left
      refine ⟨rfl, ?_⟩
      have hleastEq := h.padded _ _ _ hleast
      have hleastLe : (minimumCapacity : ℤ) ≤ least := hleastEq ▸ le_roundUp h.padding_pos
      rw [fitFixed]
      simp only [bind, Except.bind, h.probe, hleast]
      by_cases heq : maximumCapacity = minimumCapacity
      · subst heq
        rw [if_pos rfl]
        refine ⟨_, rfl, ?_, ?_⟩
        · rw [max_eq_right (by omega)]
          exact hrounded hleast
        · rw [hleast, if_pos Option.isSome_some, max_eq_right (by omega), hleastEq]
      · rw [if_neg heq]
        cases hgreatest : room maximumCapacity 0 with
        | some greatest =>
            have hgreatestEq := h.padded _ _ _ hgreatest
            have hmono : least ≤ greatest := by
              rw [hleastEq, hgreatestEq]
              exact roundUp_mono h.padding_pos (by omega)
            refine ⟨_, rfl, ?_, ?_⟩
            · rw [max_eq_right (by omega)]
              exact hrounded hgreatest
            · rw [hgreatest, if_pos Option.isSome_some, max_eq_right (by omega), hgreatestEq]
        | none =>
            have hstart : Halved room padding ⟨minimumCapacity, maximumCapacity, max 0 least⟩ :=
              ⟨by dsimp only; omega, by rw [hleast]; rfl, hgreatest,
                by rw [max_eq_right (by omega), hleastEq]⟩
            obtain ⟨t, ht, hhalved, hlow, hhigh, hsize⟩ := h.halve_eq 12 hstart
            dsimp only at hlow hhigh hsize
            have hselected : (t.selected : ℤ) ≤ roundUp padding t.selected :=
              le_roundUp h.padding_pos
            have hbelow := h.roundUp_lt (Int.ofNat_lt.2 hhalved.lt) hhalved.holds hhalved.fails
            refine ⟨t.actual, ?_, ?_, ?_⟩
            · simp only [ht]
            · rw [hhalved.actual, h.same]
              exact hhalved.holds
            · rw [hgreatest, if_neg (by simp), hhalved.actual]
              refine ⟨t.firstFailure, hhalved.fails, hhigh, by omega, hbelow, ?_⟩
              have hbound : t.firstFailure - t.selected ≤
                  max 1 ((maximumCapacity - minimumCapacity + 2 ^ 12 - 1) / 2 ^ 12) := by
                rcases hsize with hsize | hsize
                · exact hsize.trans (le_max_left _ _)
                · refine le_trans ?_ (le_max_right _ _)
                  omega
              have hcast : ((max 1 ((maximumCapacity - minimumCapacity + 2 ^ 12 - 1) / 2 ^ 12) :
                  ℕ) : ℤ) = max 1
                    (((maximumCapacity - minimumCapacity + 2 ^ 12 - 1) / 2 ^ 12 : ℕ) : ℤ) := by
                rw [Nat.cast_max, Nat.cast_one]
              rw [← hcast]
              have hlt := hhalved.lt
              omega

end Fixed

/-- The automatic mode finds the best size, the fixed mode one that is nearly the best; neither
overflows, and an error says that not even the smallest context fits. -/
theorem fitContextPool_findsBest (env : ContextProbe) {room : ℤ → ℤ → Option ℤ} {padding : ℤ}
    (h : env.Steady room padding) {minimumCapacity maximumCapacity vramSafetyMarginMb : ℤ}
    (hpos : 0 < minimumCapacity) (hle : minimumCapacity ≤ maximumCapacity)
    (hmax : maximumCapacity ≤ intMax) (hmargin : 0 ≤ vramSafetyMarginMb) :
    (((room minimumCapacity 1).isSome = true ∧ ∃ capacity sequences,
        env.fitContextPool true minimumCapacity maximumCapacity vramSafetyMarginMb =
          pure (capacity, some sequences) ∧
        BestPool env room minimumCapacity.toNat (capacity, sequences)) ∨
      (room minimumCapacity 1 = none ∧
        env.fitContextPool true minimumCapacity maximumCapacity vramSafetyMarginMb =
          throw { code := .outOfMemory, message := "one full request context does not fit" })) ∧
    (((room minimumCapacity 0).isSome = true ∧ ∃ capacity,
        env.fitContextPool false minimumCapacity maximumCapacity vramSafetyMarginMb =
          pure (capacity, none) ∧
        NearlyBest room padding minimumCapacity.toNat maximumCapacity.toNat capacity) ∨
      (room minimumCapacity 0 = none ∧
        env.fitContextPool false minimumCapacity maximumCapacity vramSafetyMarginMb =
          throw { code := .outOfMemory, message := "minimum shared context pool does not fit" })) := by
  obtain ⟨least, rfl⟩ := Int.eq_ofNat_of_zero_le hpos.le
  obtain ⟨greatest, rfl⟩ := Int.eq_ofNat_of_zero_le (hpos.le.trans hle)
  have hbounds : ¬ ((least : ℤ) ≤ 0 ∨ (greatest : ℤ) < least ∨ vramSafetyMarginMb < 0) := by omega
  have hstart (automatic : Bool) :
      env.fitContextPool automatic least greatest vramSafetyMarginMb =
        if automatic then do
          let (capacity, sequences) ← env.fitAutomatic least
          return (capacity, some sequences)
        else do
          let capacity ← ExceptT.mk (some (env.fitFixed least greatest))
          return (capacity, none) := by
    rw [fitContextPool, if_neg hbounds, h.prepare]
    rfl
  rw [hstart, hstart]
  constructor
  · rcases h.fitAutomatic_eq (Int.ofNat_lt.1 hpos) (hle.trans hmax) with
      ⟨hroom, result, hresult, hbest⟩ | ⟨hroom, hresult⟩
    · refine Or.inl ⟨hroom, result.1, result.2, ?_, hbest⟩
      rw [if_pos rfl, hresult, pure_bind]
    · refine Or.inr ⟨hroom, ?_⟩
      rw [if_pos rfl, hresult]
      rfl
  · rcases h.fitFixed_eq (Int.ofNat_lt.1 hpos) (Int.ofNat_le.1 hle) with
      ⟨hroom, capacity, hcapacity, hbest⟩ | ⟨hroom, hcapacity⟩
    · refine Or.inl ⟨hroom, capacity, ?_, hbest⟩
      rw [if_neg Bool.false_ne_true, hcapacity]
      rfl
    · refine Or.inr ⟨hroom, ?_⟩
      rw [if_neg Bool.false_ne_true, hcapacity]
      rfl

/-- The room of a device for eight thousand positions, of which each sequence takes a hundred. A
context is padded to 256 positions. -/
def smallRoom (capacity sequences : ℤ) : Option ℤ :=
  if roundUp 256 capacity + 100 * sequences ≤ 8000 then some (roundUp 256 capacity) else none

def smallDevice : ContextProbe where
  probe capacity sequences := .ok (smallRoom capacity sequences)
  maxParallelSequences := 256
  nBatch := 512

theorem smallRoom_shrinks {capacity sequences capacity' sequences' : ℤ} (h : capacity' ≤ capacity)
    (hsequences : sequences' ≤ sequences) (hroom : (smallRoom capacity sequences).isSome = true) :
    (smallRoom capacity' sequences').isSome = true := by
  have hpadded : roundUp 256 capacity' ≤ roundUp 256 capacity := roundUp_mono (by decide) h
  unfold smallRoom at hroom ⊢
  by_cases hfit : roundUp 256 capacity' + 100 * sequences' ≤ 8000
  · rw [if_pos hfit]
    rfl
  · rw [if_neg (by omega)] at hroom
    cases hroom

theorem smallDevice_steady : smallDevice.Steady smallRoom 256 where
  prepare := rfl
  control _ := rfl
  probe _ _ := rfl
  shrinks _ _ _ _ hcapacity _ hsequences hroom := smallRoom_shrinks hcapacity hsequences hroom
  padded capacity sequences actual hroom := by
    unfold smallRoom at hroom
    split_ifs at hroom
    exact (Option.some.inj hroom).symm
  same capacity sequences := by
    unfold smallRoom
    rw [roundUp_roundUp (by decide)]
  padding_pos := by decide
  parallel_pos := by decide
  parallel_le := le_rfl

theorem fitContextPool_findsBest_smallDevice :
    ∃ capacity sequences, smallDevice.fitContextPool true 1000 8192 0 =
      pure (capacity, some sequences) := by
  obtain ⟨⟨-, capacity, sequences, hfit, -⟩ | ⟨hroom, -⟩, -⟩ :=
    fitContextPool_findsBest smallDevice smallDevice_steady (by decide : (0 : ℤ) < 1000)
      (by decide : (1000 : ℤ) ≤ 8192) (by decide) le_rfl
  · exact ⟨capacity, sequences, hfit⟩
  · exact absurd hroom (by decide)

end ContextProbe

end InferDeck.LlamaWrapper
