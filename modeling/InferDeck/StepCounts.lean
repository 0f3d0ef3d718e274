import InferDeck.Execution

/-!
# Counting steps of a run

`countSteps` counts the steps of a run that have a property. Where each step of one kind uses up
what a step of another kind has provided, there are no more of the first kind than of the second.
-/

namespace InferDeck.Execution

variable {σ α : Type*} {next : σ → α → Option σ}

def countSteps (next : σ → α → Option σ) (p : σ → σ → Bool) : σ → List α → ℕ
  | _, [] => 0
  | s, a :: actions =>
      match next s a with
      | none => 0
      | some s' => (p s s').toNat + countSteps next p s' actions

/-- Steps are paid for out of what is pending, which other steps add to. -/
theorem countSteps_le {I : σ → Prop} {p q : σ → σ → Bool} {pending : σ → ℕ}
    (hstep : ∀ s a s', I s → next s a = some s' →
      I s' ∧ (p s s').toNat + pending s' ≤ pending s + (q s s').toNat)
    {s : σ} (hs : I s) (actions : List α) :
    countSteps next p s actions ≤ pending s + countSteps next q s actions := by
  induction actions generalizing s with
  | nil => exact Nat.zero_le _
  | cons a actions ih =>
      rw [countSteps, countSteps]
      cases hnext : next s a with
      | none => exact Nat.zero_le _
      | some s' =>
          obtain ⟨hs', hpaid⟩ := hstep s a s' hs hnext
          have hrest := ih hs'
          dsimp only
          omega

end InferDeck.Execution
