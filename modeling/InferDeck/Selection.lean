import Mathlib.Data.List.MinMax
import Mathlib.Order.Lex
import Mathlib.Data.Prod.Lex

/-!
# Running-best loops and sorting by a key

A loop that walks a list, keeps the best element seen so far and replaces it only by an element
that beats it. Where beating is having the greater key, the loop computes `List.argmax`, the first
element with the greatest key. A list sorted by a key starts with the element of the least key.
-/

namespace InferDeck.Selection

variable {α κ : Type*} (beats : α → α → Bool)

def keepBest (best : Option α) (x : α) : Option α :=
  match best with
  | none => some x
  | some b => if beats x b then some x else some b

def selectBest (l : List α) : Option α := l.foldl (keepBest beats) none

theorem selectBest_eq_argmax [LinearOrder κ] {key : α → κ}
    (hkey : ∀ x b, beats x b = decide (key b < key x)) (l : List α) :
    selectBest beats l = l.argmax key := by
  have hstep : keepBest beats = List.argAux (fun b c => key c < key b) := by
    funext best x
    cases best with
    | none => rfl
    | some b => simp [keepBest, List.argAux, hkey]
  rw [selectBest, hstep]
  rfl

section Keyed

variable [LinearOrder κ] {key : α → κ} {beats}

theorem selectBest_eq_none_iff (hkey : ∀ x b, beats x b = decide (key b < key x)) {l : List α} :
    selectBest beats l = none ↔ l = [] := by
  rw [selectBest_eq_argmax beats hkey, List.argmax_eq_none]

theorem mem_of_selectBest (hkey : ∀ x b, beats x b = decide (key b < key x)) {l : List α} {m : α}
    (h : selectBest beats l = some m) : m ∈ l := by
  rw [selectBest_eq_argmax beats hkey] at h
  exact List.argmax_mem h

theorem key_le_of_selectBest (hkey : ∀ x b, beats x b = decide (key b < key x)) {l : List α}
    {m x : α} (h : selectBest beats l = some m) (hx : x ∈ l) : key x ≤ key m := by
  rw [selectBest_eq_argmax beats hkey] at h
  exact List.le_of_mem_argmax hx h

/-- With keys that tell the elements of the list apart, the selected one is the greatest. -/
theorem selectBest_eq_some_iff (hkey : ∀ x b, beats x b = decide (key b < key x)) {l : List α}
    (hinj : ∀ a ∈ l, ∀ b ∈ l, key a = key b → a = b) {m : α} :
    selectBest beats l = some m ↔ m ∈ l ∧ ∀ x ∈ l, key x ≤ key m := by
  constructor
  · intro h
    exact ⟨mem_of_selectBest hkey h, fun x hx => key_le_of_selectBest hkey h hx⟩
  · rintro ⟨hm, hmax⟩
    cases hs : selectBest beats l with
    | none =>
        rw [selectBest_eq_none_iff hkey] at hs
        simp [hs] at hm
    | some v =>
        have hv := mem_of_selectBest hkey hs
        have hle := key_le_of_selectBest hkey hs hm
        rw [hinj v hv m hm (le_antisymm (hmax v hv) hle)]

end Keyed

section Sorted

variable [LinearOrder κ] {key : α → κ} {le : α → α → Bool}

theorem key_pairwise_mergeSort (hle : ∀ a b, le a b = decide (key a ≤ key b)) (l : List α) :
    (l.mergeSort le).Pairwise fun a b => key a ≤ key b := by
  have hsorted : (l.mergeSort le).Pairwise fun a b => le a b = true := by
    apply List.pairwise_mergeSort
    · intro a b c hab hbc
      rw [hle, decide_eq_true_iff] at hab hbc ⊢
      exact hab.trans hbc
    · intro a b
      simpa [hle] using le_total (key a) (key b)
  refine hsorted.imp fun {a b} h => ?_
  simpa [hle] using h

/-- With keys that tell the elements apart, the sorted list starts with the least one. -/
theorem head_mergeSort_eq_some_iff (hle : ∀ a b, le a b = decide (key a ≤ key b)) {l : List α}
    (hinj : ∀ a ∈ l, ∀ b ∈ l, key a = key b → a = b) {a : α} :
    (l.mergeSort le).head? = some a ↔ a ∈ l ∧ ∀ b ∈ l, key a ≤ key b := by
  have hmem : ∀ b, b ∈ l.mergeSort le ↔ b ∈ l := fun b => List.mem_mergeSort
  have hsorted := key_pairwise_mergeSort hle l
  cases hl : l.mergeSort le with
  | nil =>
      have : l = [] := List.eq_nil_iff_forall_not_mem.2 fun b hb => by
        simpa [hl] using (hmem b).2 hb
      simp [this]
  | cons m rest =>
      rw [hl] at hsorted hmem
      have hleast : ∀ b ∈ l, key m ≤ key b := by
        intro b hb
        rcases List.mem_cons.1 ((hmem b).2 hb) with rfl | hrest
        · exact le_rfl
        · exact List.rel_of_pairwise_cons hsorted hrest
      have hm : m ∈ l := (hmem m).1 List.mem_cons_self
      simp only [List.head?_cons, Option.some.injEq]
      constructor
      · rintro rfl
        exact ⟨hm, hleast⟩
      · rintro ⟨ha, hmin⟩
        exact hinj m hm a ha (le_antisymm (hleast a ha) (hmin m hm))

end Sorted

end InferDeck.Selection
