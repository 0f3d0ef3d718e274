import Mathlib.Tactic

/-!
# Runs of a transition function

A system takes one step for an action, where the action is possible. `exec` runs a list of
actions, `Meets` says that every step of the run meets a condition on the state before it and the
action, and an invariant of the steps that meet the condition holds after the run. `Always` says
that a property holds in every state of the run.
-/

namespace InferDeck.Execution

variable {σ α : Type*} {next : σ → α → Option σ} {allowed : σ → α → Prop}

def exec (next : σ → α → Option σ) : σ → List α → Option σ
  | s, [] => some s
  | s, a :: actions => (next s a).bind fun s' => exec next s' actions

/-- Every step of the run that `exec` makes of the actions meets the condition. -/
def Meets (next : σ → α → Option σ) (allowed : σ → α → Prop) : σ → List α → Prop
  | _, [] => True
  | s, a :: actions => allowed s a ∧ ∀ s', next s a = some s' → Meets next allowed s' actions

instance instDecidableMeets [∀ s a, Decidable (allowed s a)] :
    ∀ s actions, Decidable (Meets next allowed s actions)
  | _, [] => .isTrue trivial
  | s, a :: actions =>
      match h : next s a with
      | none => decidable_of_iff (allowed s a) (by simp [Meets, h])
      | some s' =>
          have := instDecidableMeets s' actions
          decidable_of_iff (allowed s a ∧ Meets next allowed s' actions) (by simp [Meets, h])

theorem exec_cons_eq_some_iff {s s' : σ} {a : α} {actions : List α} :
    exec next s (a :: actions) = some s' ↔
      ∃ s₁, next s a = some s₁ ∧ exec next s₁ actions = some s' := by
  rw [exec, Option.bind_eq_some_iff]

theorem exec_append_eq_some_iff {s s' : σ} {actions actions' : List α} :
    exec next s (actions ++ actions') = some s' ↔
      ∃ s₁, exec next s actions = some s₁ ∧ exec next s₁ actions' = some s' := by
  induction actions generalizing s with
  | nil => simp [exec]
  | cons a actions ih =>
      rw [List.cons_append, exec_cons_eq_some_iff]
      constructor
      · rintro ⟨s₁, hstep, hrest⟩
        obtain ⟨s₂, hfirst, hsecond⟩ := ih.1 hrest
        exact ⟨s₂, exec_cons_eq_some_iff.2 ⟨s₁, hstep, hfirst⟩, hsecond⟩
      · rintro ⟨s₂, hfirst, hsecond⟩
        obtain ⟨s₁, hstep, hfirst⟩ := exec_cons_eq_some_iff.1 hfirst
        exact ⟨s₁, hstep, ih.2 ⟨s₂, hfirst, hsecond⟩⟩

theorem Meets.mono {allowed' : σ → α → Prop} (hle : ∀ s a, allowed s a → allowed' s a) {s : σ}
    {actions : List α} (h : Meets next allowed s actions) : Meets next allowed' s actions := by
  induction actions generalizing s with
  | nil => trivial
  | cons a actions ih => exact ⟨hle s a h.1, fun s' hs' => ih (h.2 s' hs')⟩

theorem Meets.and {allowed' : σ → α → Prop} {s : σ} {actions : List α}
    (h : Meets next allowed s actions) (h' : Meets next allowed' s actions) :
    Meets next (fun s a => allowed s a ∧ allowed' s a) s actions := by
  induction actions generalizing s with
  | nil => trivial
  | cons a actions ih => exact ⟨⟨h.1, h'.1⟩, fun s' hs' => ih (h.2 s' hs') (h'.2 s' hs')⟩

/-- The last step of a run that meets the condition. -/
theorem Meets.last {s s' : σ} {actions : List α} {a : α}
    (h : Meets next allowed s (actions ++ [a])) (hexec : exec next s actions = some s') :
    allowed s' a := by
  induction actions generalizing s with
  | nil =>
      rw [exec, Option.some.injEq] at hexec
      exact hexec ▸ h.1
  | cons a' actions ih =>
      obtain ⟨s₁, hs₁, hrest⟩ := exec_cons_eq_some_iff.1 hexec
      exact ih (h.2 s₁ hs₁) hrest

/-- A condition that an invariant of the run gives at every step. -/
theorem Meets.of_invariant {allowed' : σ → α → Prop} {I : σ → Prop}
    (hstep : ∀ s a s', I s → allowed s a → next s a = some s' → I s')
    (hgives : ∀ s a, I s → allowed s a → allowed' s a) {s : σ} {actions : List α} (hs : I s)
    (h : Meets next allowed s actions) : Meets next allowed' s actions := by
  induction actions generalizing s with
  | nil => trivial
  | cons a actions ih =>
      exact ⟨hgives s a hs h.1, fun s' hs' => ih (hstep s a s' hs h.1 hs') (h.2 s' hs')⟩

/-- What every step that meets the condition preserves, every run that meets it preserves. -/
theorem invariant {I : σ → Prop}
    (hstep : ∀ s a s', I s → allowed s a → next s a = some s' → I s') {s s' : σ}
    {actions : List α} (hs : I s) (hmeets : Meets next allowed s actions)
    (hexec : exec next s actions = some s') : I s' := by
  induction actions generalizing s with
  | nil =>
      rw [exec, Option.some.injEq] at hexec
      exact hexec ▸ hs
  | cons a actions ih =>
      obtain ⟨s₁, hs₁, hrest⟩ := exec_cons_eq_some_iff.1 hexec
      exact ih (hstep s a s₁ hs hmeets.1 hs₁) (hmeets.2 s₁ hs₁) hrest

/-- A condition on the actions alone. -/
theorem Meets.of_forall {s : σ} {actions : List α} (h : ∀ a ∈ actions, ∀ s, allowed s a) :
    Meets next allowed s actions := by
  induction actions generalizing s with
  | nil => trivial
  | cons a actions ih =>
      exact ⟨h a List.mem_cons_self s, fun s' _ => ih fun a ha => h a (List.mem_cons_of_mem _ ha)⟩

/-- What every step preserves, every run preserves. -/
theorem invariant_of_step {I : σ → Prop} (hstep : ∀ s a s', I s → next s a = some s' → I s')
    {s s' : σ} {actions : List α} (hs : I s) (hexec : exec next s actions = some s') : I s' :=
  have hmeets : Meets next (fun _ _ => True) s actions := .of_forall fun _ _ _ => trivial
  invariant (fun s a s' h _ => hstep s a s' h) hs hmeets hexec

/-- Every state that the run passes through has the property. -/
def Always (next : σ → α → Option σ) (P : σ → Prop) (s : σ) (actions : List α) : Prop :=
  ∀ done s', done <+: actions → exec next s done = some s' → P s'

variable {P : σ → Prop}

theorem Always.head {s : σ} {actions : List α} (h : Always next P s actions) : P s :=
  h [] s List.nil_prefix rfl

theorem always_cons {s : σ} {a : α} {actions : List α} :
    Always next P s (a :: actions) ↔
      P s ∧ ∀ s', next s a = some s' → Always next P s' actions := by
  constructor
  · intro h
    refine ⟨h.head, fun s' hs' done s'' hdone hexec => ?_⟩
    exact h (a :: done) s'' ((List.prefix_cons_inj a).2 hdone)
      (exec_cons_eq_some_iff.2 ⟨s', hs', hexec⟩)
  · rintro ⟨hhead, hrest⟩ done s' hdone hexec
    cases done with
    | nil => exact Option.some.inj hexec ▸ hhead
    | cons a' done =>
        obtain ⟨rfl, htail⟩ := List.cons_prefix_cons.1 hdone
        obtain ⟨s₁, hs₁, hexec⟩ := exec_cons_eq_some_iff.1 hexec
        exact hrest s₁ hs₁ done s' htail hexec

/-- A property that an invariant of the allowed steps gives holds throughout a run of them. -/
theorem Meets.always {I : σ → Prop} (hP : ∀ s, I s → P s)
    (hstep : ∀ s a s', I s → allowed s a → next s a = some s' → I s') {s : σ}
    {actions : List α} (hs : I s) (h : Meets next allowed s actions) : Always next P s actions := by
  induction actions generalizing s with
  | nil =>
      intro done s' hdone hexec
      rw [List.prefix_nil.1 hdone] at hexec
      exact Option.some.inj hexec ▸ hP s hs
  | cons a actions ih =>
      exact always_cons.2 ⟨hP s hs, fun s' hs' => ih (hstep s a s' hs h.1 hs') (h.2 s' hs')⟩

/-- A property that an invariant of the allowed steps gives, and that no other step keeps, holds
throughout exactly the runs of allowed steps. -/
theorem always_iff_meets {I : σ → Prop} (hP : ∀ s, I s → P s)
    (hstep : ∀ s a s', I s → allowed s a → next s a = some s' → I s')
    (honly : ∀ s a, I s → (∀ s', next s a = some s' → P s') → allowed s a) {s : σ}
    {actions : List α} (hs : I s) :
    Always next P s actions ↔ Meets next allowed s actions := by
  refine ⟨fun h => ?_, fun h => h.always hP hstep hs⟩
  induction actions generalizing s with
  | nil => trivial
  | cons a actions ih =>
      have hrest := (always_cons.1 h).2
      have hallowed : allowed s a := honly s a hs fun s' hs' => (hrest s' hs').head
      exact ⟨hallowed, fun s' hs' => ih (hstep s a s' hs hallowed hs') (hrest s' hs')⟩

end InferDeck.Execution
