import Mathlib.Tactic

/-!
# Programs whose calls may fail, and transactions

A program makes its calls on a state one after the other. Each call takes the next of a list of
faults: a call with a fault fails, with an error that may quote the fault, and leaves the state as it
was. A transaction runs its body and commits; where the body fails or the commit does, the state is
as it was before.
-/

namespace InferDeck.Transaction

variable {σ τ ε α β : Type}

/-- For each call to come, what fails it. A call past the end of the list does not fail. -/
abbrev Faults := List (Option String)

def Program (σ ε α : Type) := σ → Faults → Except ε α × σ × Faults

namespace Program

def fail (error : ε) : Program σ ε α := fun s faults => (.error error, s, faults)

instance : Monad (Program σ ε) where
  pure a := fun s faults => (.ok a, s, faults)
  bind p f := fun s faults =>
    match p s faults with
    | (.ok a, s', rest) => f a s' rest
    | (.error error, s', rest) => (.error error, s', rest)

def get : Program σ ε σ := fun s faults => (.ok s, s, faults)

def modify (f : σ → σ) : Program σ ε Unit := fun s faults => (.ok (), f s, faults)

/-- A call that returns a value and changes the state, where it does not fail. -/
def call (failed : String → ε) (f : σ → α × σ) : Program σ ε α
  | s, [] => (.ok (f s).1, (f s).2, [])
  | s, none :: faults => (.ok (f s).1, (f s).2, faults)
  | s, some fault :: faults => (.error (failed fault), s, faults)

/-- A call that changes nothing. -/
def attempt (failed : String → ε) : Program σ ε Unit := call failed fun s => ((), s)

/-- The state is as before where the body fails. -/
def restoring (body : Program σ ε α) : Program σ ε α := fun s faults =>
  match body s faults with
  | (.ok a, s', rest) => (.ok a, s', rest)
  | (.error error, _, rest) => (.error error, s, rest)

/-- `BEGIN`, the body and `COMMIT`, with a rollback where one of them fails. -/
def transaction (beginFailed : String → ε) (commitFailed : α → String → ε) (body : Program σ ε α) :
    Program σ ε α := do
  attempt beginFailed
  restoring do
    let a ← body
    attempt (commitFailed a)
    return a

def zoom (part : τ → σ) (put : τ → σ → τ) (p : Program σ ε α) : Program τ ε α := fun t faults =>
  match p (part t) faults with
  | (result, s, rest) => (result, put t s, rest)

/-- Whatever calls fail, the result and the state after the program satisfy the condition. -/
def Yields (p : Program σ ε α) (s : σ) (Q : Except ε α → σ → Prop) : Prop :=
  ∀ faults, Q (p s faults).1 (p s faults).2.1

variable {s : σ} {Q Q' : Except ε α → σ → Prop}

theorem Yields.mono {p : Program σ ε α} (h : p.Yields s Q) (hQ : ∀ r s', Q r s' → Q' r s') :
    p.Yields s Q' :=
  fun faults => hQ _ _ (h faults)

theorem yields_pure {a : α} (h : Q (.ok a) s) : (pure a : Program σ ε α).Yields s Q :=
  fun _ => h

theorem yields_fail {error : ε} (h : Q (.error error) s) :
    (fail error : Program σ ε α).Yields s Q :=
  fun _ => h

theorem yields_get {Q : Except ε σ → σ → Prop} (h : Q (.ok s) s) :
    (get : Program σ ε σ).Yields s Q :=
  fun _ => h

theorem yields_modify {Q : Except ε Unit → σ → Prop} {f : σ → σ} (h : Q (.ok ()) (f s)) :
    (modify f : Program σ ε Unit).Yields s Q :=
  fun _ => h

theorem yields_bind {p : Program σ ε α} {f : α → Program σ ε β} {Q : Except ε β → σ → Prop}
    {M : α → σ → Prop} (hp : p.Yields s fun r s' =>
      match r with
      | .ok a => M a s'
      | .error error => Q (.error error) s')
    (hf : ∀ a s', M a s' → (f a).Yields s' Q) : (p >>= f).Yields s Q := by
  intro faults
  have hfirst := hp faults
  change Q (match p s faults with
    | (.ok a, s', rest) => f a s' rest
    | (.error error, s', rest) => (.error error, s', rest)).1
    (match p s faults with
    | (.ok a, s', rest) => f a s' rest
    | (.error error, s', rest) => (.error error, s', rest)).2.1
  rcases hresult : p s faults with ⟨r, s', rest⟩
  rw [hresult] at hfirst
  cases r with
  | ok a => exact hf a s' hfirst rest
  | error error => exact hfirst

theorem yields_call {failed : String → ε} {f : σ → α × σ} (hfails : ∀ fault, Q (.error (failed fault)) s)
    (h : Q (.ok (f s).1) (f s).2) : (call failed f).Yields s Q := by
  intro faults
  match faults with
  | [] => exact h
  | none :: rest => exact h
  | some fault :: rest => exact hfails fault

theorem yields_attempt {Q : Except ε Unit → σ → Prop} {failed : String → ε}
    (hfails : ∀ fault, Q (.error (failed fault)) s) (h : Q (.ok ()) s) :
    (attempt failed).Yields s Q :=
  yields_call hfails h

theorem yields_call_bind {failed : String → ε} {f : σ → α × σ} {p : α → Program σ ε β}
    {Q : Except ε β → σ → Prop} (hfails : ∀ fault, Q (.error (failed fault)) s)
    (hp : (p (f s).1).Yields (f s).2 Q) : (call failed f >>= p).Yields s Q := by
  refine yields_bind (M := fun a s' => a = (f s).1 ∧ s' = (f s).2)
    (yields_call hfails ⟨rfl, rfl⟩) ?_
  rintro a s' ⟨rfl, rfl⟩
  exact hp

theorem yields_attempt_bind {failed : String → ε} {p : Unit → Program σ ε β}
    {Q : Except ε β → σ → Prop} (hfails : ∀ fault, Q (.error (failed fault)) s)
    (hp : (p ()).Yields s Q) : (attempt failed >>= p).Yields s Q :=
  yields_call_bind hfails hp

theorem yields_get_bind {p : σ → Program σ ε β} {Q : Except ε β → σ → Prop}
    (hp : (p s).Yields s Q) : (get >>= p).Yields s Q := by
  refine yields_bind (M := fun a s' => a = s ∧ s' = s) (yields_get ⟨rfl, rfl⟩) ?_
  rintro a s' ⟨rfl, hs⟩
  rw [hs]
  exact hp

theorem yields_modify_bind {f : σ → σ} {p : Unit → Program σ ε β} {Q : Except ε β → σ → Prop}
    (hp : (p ()).Yields (f s) Q) : (modify f >>= p).Yields s Q := by
  refine yields_bind (M := fun _ s' => s' = f s) (yields_modify rfl) ?_
  rintro - s' rfl
  exact hp

theorem yields_restoring {body : Program σ ε α}
    (hbody : body.Yields s fun r s' =>
      match r with
      | .ok a => Q (.ok a) s'
      | .error error => Q (.error error) s) :
    (restoring body).Yields s Q := by
  intro faults
  have h := hbody faults
  unfold restoring
  rcases hresult : body s faults with ⟨r, s', rest⟩
  rw [hresult] at h
  cases r with
  | ok a => exact h
  | error error => exact h

/-- A transaction leaves what its body leaves, or fails and leaves everything as it was. -/
theorem yields_transaction {beginFailed : String → ε} {commitFailed : α → String → ε}
    {body : Program σ ε α} (hbegin : ∀ fault, Q (.error (beginFailed fault)) s)
    (hbody : body.Yields s fun r s' =>
      match r with
      | .ok a => Q (.ok a) s' ∧ ∀ fault, Q (.error (commitFailed a fault)) s
      | .error error => Q (.error error) s) :
    (transaction beginFailed commitFailed body).Yields s Q := by
  refine yields_attempt_bind hbegin (yields_restoring (yields_bind
    (M := fun a s' => Q (.ok a) s' ∧ ∀ fault, Q (.error (commitFailed a fault)) s) ?_ ?_))
  · refine hbody.mono fun r s' h => ?_
    cases r with
    | ok a => exact h
    | error error => exact h
  · rintro a s' ⟨hok, hcommit⟩
    exact yields_attempt_bind hcommit (yields_pure hok)

theorem yields_zoom {part : τ → σ} {put : τ → σ → τ} {p : Program σ ε α} {t : τ}
    {Q : Except ε α → τ → Prop} (h : p.Yields (part t) fun r s => Q r (put t s)) :
    (zoom part put p).Yields t Q :=
  fun faults => h faults

/-- Whatever calls fail, the state after the program is related to the state before it. -/
def Preserves (R : σ → σ → Prop) (p : Program σ ε α) : Prop := ∀ s, p.Yields s fun _ s' => R s s'

section Preserves

variable {R : σ → σ → Prop}

theorem preserves_modify {f : σ → σ} (h : ∀ s, R s (f s)) :
    Preserves R (modify f : Program σ ε Unit) :=
  fun s => yields_modify (h s)

theorem preserves_get_bind {p : σ → Program σ ε α} (h : ∀ s, Preserves R (p s)) :
    Preserves R (get >>= p) :=
  fun s => yields_get_bind (h s s)

theorem preserves_ite {c : Prop} [Decidable c] {p q : Program σ ε α} (hp : Preserves R p)
    (hq : Preserves R q) : Preserves R (if c then p else q) := by
  split
  · exact hp
  · exact hq

theorem preserves_zoom {S : τ → τ → Prop} {part : τ → σ} {put : τ → σ → τ} {p : Program σ ε α}
    (hput : ∀ t s, R (part t) s → S t (put t s)) (h : Preserves R p) :
    Preserves S (zoom part put p) :=
  fun t => yields_zoom ((h (part t)).mono fun _ s hs => hput t s hs)

variable [IsPreorder σ R]

theorem preserves_pure (a : α) : Preserves R (pure a : Program σ ε α) :=
  fun s => yields_pure (refl_of R s)

theorem preserves_fail (error : ε) : Preserves R (fail error : Program σ ε α) :=
  fun s => yields_fail (refl_of R s)

theorem preserves_call {failed : String → ε} {f : σ → α × σ} (h : ∀ s, R s (f s).2) :
    Preserves R (call failed f) :=
  fun s => yields_call (fun _ => refl_of R s) (h s)

theorem preserves_attempt (failed : String → ε) : Preserves R (attempt failed) :=
  preserves_call (refl_of R)

theorem preserves_bind {p : Program σ ε α} {f : α → Program σ ε β} (hp : Preserves R p)
    (hf : ∀ a, Preserves R (f a)) : Preserves R (p >>= f) := by
  intro s
  refine yields_bind (M := fun _ s' => R s s') ?_ fun a s' hfirst => ?_
  · refine (hp s).mono fun r s' h => ?_
    cases r <;> exact h
  · exact (hf a s').mono fun r s'' h => trans_of R hfirst h

theorem preserves_transaction {beginFailed : String → ε} {commitFailed : α → String → ε}
    {p : Program σ ε α} (h : Preserves R p) :
    Preserves R (transaction beginFailed commitFailed p) := by
  intro s
  refine yields_transaction (fun _ => refl_of R s) ((h s).mono fun r s' hr => ?_)
  cases r with
  | ok a => exact ⟨hr, fun _ => refl_of R s⟩
  | error error => exact refl_of R s

end Preserves

end Program

end InferDeck.Transaction
