import InferDeck.Threads

/-!
# Locks in one order

A thread waits for another one that holds the lock it wants. If whoever wants a lock holds none but
earlier ones, every thread waits in the end for one that waits for nobody.
-/

namespace InferDeck.Threads

open Function Relation

variable {σ ι F R L : Type} [DecidableEq L]

namespace Owners

/-- Who owns a lock has locked it. -/
def Counted (o : Owners L) : Prop := ∀ l t n, o l = some (t, n) → 0 < n

variable {o o' : Owners L} {tid : ℕ}

theorem Counted.lock (h : o.Counted) (l : L) : (o.lock tid l).Counted := by
  intro l' t n howner
  by_cases hl : l' = l
  · subst hl
    rw [Owners.lock, update_self] at howner
    obtain ⟨-, rfl⟩ := Prod.mk.inj (Option.some.inj howner)
    exact Nat.succ_pos _
  · rw [Owners.lock, update_of_ne hl] at howner
    exact h l' t n howner

theorem Counted.unlock (h : o.Counted) (l : L) : (o.unlock tid l).Counted := by
  intro l' t n howner
  by_cases hl : l' = l
  · subst hl
    rw [Owners.unlock, update_self] at howner
    split_ifs at howner with hlast
    obtain ⟨-, rfl⟩ := Prod.mk.inj (Option.some.inj howner)
    omega
  · rw [Owners.unlock, update_of_ne hl] at howner
    exact h l' t n howner

theorem Counted.giveBack (h : o.Counted) (old : Option L) : (o.giveBack tid old).Counted := by
  cases old with
  | none => exact h
  | some l => exact h.unlock l

theorem Counted.take (h : o.Counted) {new : Option L} (htake : o.take tid new = some o') :
    o'.Counted := by
  cases new with
  | none => exact Option.some.inj htake ▸ h
  | some l =>
      dsimp only [Owners.take] at htake
      split_ifs at htake
      exact Option.some.inj htake ▸ h.lock l

theorem Counted.relock (h : o.Counted) {old new : Option L}
    (hrelock : o.relock tid old new = some o') : o'.Counted := by
  unfold Owners.relock at hrelock
  split_ifs at hrelock
  · exact Option.some.inj hrelock ▸ h
  · exact (h.giveBack old).take hrelock

/-- A thread that holds nothing yet, or only the lock itself, takes a lock that is free. -/
theorem relock_isSome {old : Option L} {l : L} (hold : old = none ∨ old = some l)
    (hcan : o.canLock tid l = true) : (o.relock tid old (some l)).isSome := by
  rcases hold with rfl | rfl
  · rw [relock, if_neg (by simp), giveBack, take, if_pos hcan]
    rfl
  · rw [relock, if_pos rfl]
    rfl

end Owners

namespace System

variable (sys : System σ ι F R L) (waits : F → Option L)

def Wants (s : State σ F) (tid : ℕ) (lock : L) : Prop :=
  ∃ frame rest, s.stack tid = frame :: rest ∧ waits frame = some lock

def WaitsFor (s : State σ F) (t t' : ℕ) : Prop :=
  t ≠ t' ∧ ∃ lock, Wants waits s t lock ∧ 0 < sys.holders lock (s.stack t')

/-- Who wants a lock holds only earlier ones, or has the lock already. -/
def InOrder [LT L] (s : State σ F) : Prop :=
  ∀ t lock, Wants waits s t lock → ∀ held, 0 < sys.holders held (s.stack t) →
    held < lock ∨ 0 < sys.holders lock (s.stack t)

variable {sys waits} {s s' : State σ F} {tid : ℕ} {input : ι}

theorem counted_run (hsys : sys.Lawful) (h : Owners.Counted (sys.owner s.shared))
    (hrun : sys.run s tid input = some s') : Owners.Counted (sys.owner s'.shared) := by
  obtain ⟨frame, rest, shared, move, owners, hstack, hstep, howners, rfl⟩ := run_eq_some hrun
  dsimp only
  rw [hsys.owner_setOwner]
  exact h.relock howners

/-- A lock that a thread cannot take is held by another one. -/
theorem canLock_or_waitsFor (hlocked : sys.Locked s)
    (hcounted : Owners.Counted (sys.owner s.shared)) {lock : L} (hwants : Wants waits s tid lock) :
    Owners.canLock (sys.owner s.shared) tid lock = true ∨ ∃ t, sys.WaitsFor waits s tid t := by
  cases howner : sys.owner s.shared lock with
  | none => exact .inl (by rw [Owners.canLock, howner])
  | some owner =>
      obtain ⟨t, n⟩ := owner
      by_cases ht : t = tid
      · left
        rw [Owners.canLock, howner]
        exact beq_iff_eq.2 ht
      · right
        have hdepth : Owners.depth (sys.owner s.shared) t lock = n := by
          rw [Owners.depth, howner]
          exact if_pos rfl
        refine ⟨t, Ne.symm ht, lock, hwants, ?_⟩
        rw [← hlocked t lock, hdepth]
        exact hcounted lock t n howner

/-- By induction on the lock that is waited for, from the last one down. -/
theorem waits_for_free [Preorder L] [WellFoundedGT L] (hlocked : sys.Locked s)
    (horder : sys.InOrder waits s) (t : ℕ) :
    ∃ t', ReflTransGen (sys.WaitsFor waits s) t t' ∧ ∀ t'', ¬sys.WaitsFor waits s t' t'' := by
  have hchain : ∀ lock t t', t ≠ t' → Wants waits s t lock → 0 < sys.holders lock (s.stack t') →
      ∃ t'', ReflTransGen (sys.WaitsFor waits s) t' t'' ∧
        ∀ t₃, ¬sys.WaitsFor waits s t'' t₃ := by
    intro lock
    induction lock using WellFoundedGT.induction with
    | ind lock ih =>
      intro t t' hne hwants hheld
      by_cases hfree : ∃ t₂, sys.WaitsFor waits s t' t₂
      · obtain ⟨t₂, hne₂, lock', hwants', hheld'⟩ := hfree
        have hlt : lock < lock' := by
          refine (horder t' lock' hwants' lock hheld).resolve_right fun hown => ?_
          exact hne₂ (hlocked.exclusive hown hheld')
        obtain ⟨t₃, hreach, hfree⟩ := ih lock' hlt t' t₂ hne₂ hwants' hheld'
        exact ⟨t₃, .head ⟨hne₂, lock', hwants', hheld'⟩ hreach, hfree⟩
      · exact ⟨t', .refl, not_exists.1 hfree⟩
  by_cases hfree : ∃ t', sys.WaitsFor waits s t t'
  · obtain ⟨t', hne, lock, hwants, hheld⟩ := hfree
    obtain ⟨t'', hreach, hfree⟩ := hchain lock t t' hne hwants hheld
    exact ⟨t'', .head ⟨hne, lock, hwants, hheld⟩ hreach, hfree⟩
  · exact ⟨t, .refl, not_exists.1 hfree⟩

end System

end InferDeck.Threads
