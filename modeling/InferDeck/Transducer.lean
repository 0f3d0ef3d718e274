import Mathlib.Tactic

/-!
# Deterministic transducers

A transducer takes deterministic steps, each of which emits a list, and every step makes its
configuration smaller. `Reads` relates a configuration to one it reaches and to what it emits on
the way; of two configurations reached from the same one, one is reached from the other. `total` is
everything a configuration emits until it stops.
-/

namespace InferDeck.Transducer

variable {σ β : Type*} {next : σ → Option (List β × σ)}

inductive Reads (next : σ → Option (List β × σ)) : σ → List β → σ → Prop
  | refl (s : σ) : Reads next s [] s
  | cons {s s₁ s' : σ} {o o' : List β} (hstep : next s = some (o, s₁))
      (hrest : Reads next s₁ o' s') : Reads next s (o ++ o') s'

namespace Reads

theorem single {s s' : σ} {o : List β} (h : next s = some (o, s')) : Reads next s o s' := by
  simpa using Reads.cons h (.refl s')

theorem trans {s s₁ s' : σ} {o o' : List β} (h : Reads next s o s₁) (h' : Reads next s₁ o' s') :
    Reads next s (o ++ o') s' := by
  induction h with
  | refl => exact h'
  | cons hstep _ ih => rw [List.append_assoc]; exact .cons hstep (ih h')

/-- Two readings from one configuration lie on one path. -/
theorem linear {s s₁ s₂ : σ} {o₁ o₂ : List β} (h₁ : Reads next s o₁ s₁)
    (h₂ : Reads next s o₂ s₂) :
    (∃ o, Reads next s₁ o s₂ ∧ o₂ = o₁ ++ o) ∨ (∃ o, Reads next s₂ o s₁ ∧ o₁ = o₂ ++ o) := by
  induction h₁ generalizing o₂ s₂ with
  | refl s => exact Or.inl ⟨o₂, h₂, rfl⟩
  | cons hstep hrest ih =>
      cases h₂ with
      | refl => exact Or.inr ⟨_, .cons hstep hrest, rfl⟩
      | cons hstep' hrest' =>
          have heq := Option.some.inj (hstep.symm.trans hstep')
          obtain ⟨rfl, rfl⟩ := Prod.mk.inj heq
          rcases ih hrest' with ⟨o, ho, rfl⟩ | ⟨o, ho, rfl⟩
          · exact Or.inl ⟨o, ho, by rw [List.append_assoc]⟩
          · exact Or.inr ⟨o, ho, by rw [List.append_assoc]⟩

end Reads

section Sized

variable {size : σ → ℕ} (hsize : ∀ s o s', next s = some (o, s') → size s' < size s)

include hsize

theorem Reads.size_le {s s' : σ} {o : List β} (h : Reads next s o s') : size s' ≤ size s := by
  induction h with
  | refl => exact le_rfl
  | cons hstep _ ih => exact ih.trans (hsize _ _ _ hstep).le

/-- A reading that does not make its configuration smaller stays where it is. -/
theorem Reads.eq_of_size_le {s s' : σ} {o : List β} (h : Reads next s o s')
    (hle : size s ≤ size s') : s' = s ∧ o = [] := by
  cases h with
  | refl => exact ⟨rfl, rfl⟩
  | cons hstep hrest =>
      have := hsize _ _ _ hstep
      have := Reads.size_le hsize hrest
      omega

/-- The longer of two readings from one configuration continues the shorter one. -/
theorem Reads.continues {s s₁ s₂ : σ} {o₁ o₂ : List β} (h₁ : Reads next s o₁ s₁)
    (h₂ : Reads next s o₂ s₂) (hle : size s₂ ≤ size s₁) :
    ∃ o, Reads next s₁ o s₂ ∧ o₂ = o₁ ++ o := by
  rcases h₁.linear h₂ with h | ⟨o, ho, rfl⟩
  · exact h
  · obtain ⟨rfl, rfl⟩ := ho.eq_of_size_le hsize hle
    exact ⟨[], .refl _, by simp⟩

end Sized

/-- What `n` steps emit. -/
def output (next : σ → Option (List β × σ)) : ℕ → σ → List β
  | 0, _ => []
  | n + 1, s =>
      match next s with
      | none => []
      | some (o, s') => o ++ output next n s'

def total (next : σ → Option (List β × σ)) (size : σ → ℕ) (s : σ) : List β :=
  output next (size s) s

section Total

variable {size : σ → ℕ} (hsize : ∀ s o s', next s = some (o, s') → size s' < size s)

include hsize

theorem output_eq_total {n : ℕ} {s : σ} (h : size s ≤ n) : output next n s = total next size s := by
  induction hn : size s using Nat.strong_induction_on generalizing n s with
  | h k ih =>
      have hnext : ∀ m, size s ≤ m → output next m s =
          match next s with
          | none => []
          | some (o, s') => o ++ total next size s' := by
        intro m hm
        cases hs : next s with
        | none => cases m <;> simp [output, hs]
        | some r =>
            obtain ⟨o, s'⟩ := r
            have hlt := hsize s o s' hs
            obtain ⟨m, rfl⟩ : ∃ j, m = j + 1 := ⟨m - 1, by omega⟩
            simp only [output, hs]
            rw [ih (size s') (by omega) (by omega) rfl]
      rw [hnext n h, total, hnext (size s) le_rfl]

theorem total_eq {s : σ} : total next size s =
    match next s with
    | none => []
    | some (o, s') => o ++ total next size s' := by
  cases hs : next s with
  | none =>
      unfold total
      cases size s <;> simp [output, hs]
  | some r =>
      obtain ⟨o, s'⟩ := r
      have hlt := hsize s o s' hs
      obtain ⟨m, hm⟩ : ∃ j, size s = j + 1 := ⟨size s - 1, by omega⟩
      simp only [total, hm, output, hs]
      rw [output_eq_total hsize (by omega)]
      rfl

theorem Reads.total_eq {s s' : σ} {o : List β} (h : Reads next s o s') :
    total next size s = o ++ total next size s' := by
  induction h with
  | refl => rfl
  | cons hstep _ ih => rw [Transducer.total_eq hsize, hstep, List.append_assoc, ← ih]

end Total

end InferDeck.Transducer
