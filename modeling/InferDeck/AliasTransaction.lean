import InferDeck.ConfigContract

/-!
# The transaction that changes an alias

The route that puts an alias gives it to the registry, writes the registry's aliases into the active
configuration, and puts back the alias that was there when the transaction returns an error.
-/

namespace InferDeck.Gateway

open InferDeck.Foundation InferDeck.Model

/-- Registries with the same entries that find the same aliases. -/
instance : Setoid ModelRegistry where
  r r r' := r.entries = r'.entries ∧ r.factories = r'.factories ∧
    ∀ name, r.aliases.lookup name = r'.aliases.lookup name
  iseqv :=
    { refl := fun _ => ⟨rfl, rfl, fun _ => rfl⟩
      symm := fun h => ⟨h.1.symm, h.2.1.symm, fun name => (h.2.2 name).symm⟩
      trans := fun h h' =>
        ⟨h.1.trans h'.1, h.2.1.trans h'.2.1, fun name => (h.2.2 name).trans (h'.2.2 name)⟩ }

def asOutcome {α : Type} : Result α → Outcome α
  | .ok a => .ok a
  | .error e => .error (.error e)

/-- The callbacks of the route: the previous alias of the name is the one before the transaction.
`render` stands for `render_aliases`, which catches its exceptions. -/
def aliasPut (render : Bytes → List ModelAlias → Result Bytes) (requested : ModelAlias)
    (previous : Option ModelAlias) : ActiveTransaction ModelRegistry where
  transform current r :=
    match r.setAlias requested with
    | (.error e, r') => (.error (.error { code := e.code, message := e.message }), r')
    | (.ok _, r') =>
        let text := if current.hasActive then current.active else current.base
        (asOutcome (render text r'.aliases.values), r')
  rollback := some fun r =>
    match previous with
    | some entry => (r.setAlias entry).2
    | none => (r.removeAlias requested.name).2

section Undo

variable {r : ModelRegistry} {requested accepted entry : ModelAlias}

structure Accepts (r : ModelRegistry) (requested accepted : ModelAlias) : Prop where
  named : ¬ (requested.name = "" ∨ requested.target = "")
  formed : ¬ (!ModelRegistry.aliasNameOk requested.name ∨ requested.requiredContextSize < 0 ∨
    requested.requiredCapabilities.contains "")
  free : ¬ (requested.name = requested.target ∨ r.entries.contains requested.name)
  target : ∃ target, r.entries.lookup requested.target = some target ∧
    accepted = r.aliasContract requested target ∧ ModelRegistry.mismatches accepted target = []

theorem Accepts.setAlias (h : Accepts r requested accepted) :
    r.setAlias requested =
      (.ok accepted, { r with aliases := r.aliases.insert requested.name accepted }) := by
  obtain ⟨target, htarget, rfl, hmatch⟩ := h.target
  simp only [ModelRegistry.setAlias, if_neg h.named, if_neg h.formed, if_neg h.free, htarget, hmatch]

theorem setAlias_cases (r : ModelRegistry) (requested : ModelAlias) :
    (∃ e, r.setAlias requested = (.error e, r)) ∨ ∃ accepted, Accepts r requested accepted := by
  by_cases hnamed : requested.name = "" ∨ requested.target = ""
  · exact Or.inl ⟨_, by rw [ModelRegistry.setAlias, if_pos hnamed]; rfl⟩
  by_cases hformed : !ModelRegistry.aliasNameOk requested.name ∨ requested.requiredContextSize < 0 ∨
      requested.requiredCapabilities.contains ""
  · exact Or.inl ⟨_, by rw [ModelRegistry.setAlias, if_neg hnamed, if_pos hformed]; rfl⟩
  by_cases hfree : requested.name = requested.target ∨ r.entries.contains requested.name
  · exact Or.inl ⟨_, by rw [ModelRegistry.setAlias, if_neg hnamed, if_neg hformed, if_pos hfree]; rfl⟩
  cases htarget : r.entries.lookup requested.target with
  | none =>
      left
      simp only [ModelRegistry.setAlias, if_neg hnamed, if_neg hformed, if_neg hfree, htarget]
      exact ⟨_, rfl⟩
  | some target =>
      cases hmatch : ModelRegistry.mismatches (r.aliasContract requested target) target with
      | nil => exact Or.inr ⟨_, hnamed, hformed, hfree, target, htarget, rfl, hmatch⟩
      | cons mismatch mismatches =>
          left
          simp only [ModelRegistry.setAlias, if_neg hnamed, if_neg hformed, if_neg hfree, htarget,
            hmatch]
          exact ⟨_, rfl⟩

/-- An alias that replaces another keeps what the other requires. -/
theorem Accepts.required (h : Accepts r requested accepted)
    (hentry : r.aliases.lookup requested.name = some entry) :
    accepted.requiredContextSize = entry.requiredContextSize ∧
      accepted.requiredCapabilities = entry.requiredCapabilities := by
  obtain ⟨target, -, rfl, -⟩ := h.target
  simp [ModelRegistry.aliasContract, hentry]

theorem aliasContract_self (hentry : r.aliases.lookup entry.name = some accepted)
    (hcontext : accepted.requiredContextSize = entry.requiredContextSize)
    (hcapabilities : accepted.requiredCapabilities = entry.requiredCapabilities)
    (target : ModelInfo) : r.aliasContract entry target = entry := by
  simp [ModelRegistry.aliasContract, hentry, hcontext, hcapabilities]

/-- What the registry took for a name it takes again in place of its replacement. -/
theorem Accepts.again (hentry : r.aliases.lookup entry.name = some entry)
    (hsame : requested.name = entry.name) (hold : Accepts r entry entry)
    (hnew : Accepts r requested accepted) :
    Accepts { r with aliases := r.aliases.insert requested.name accepted } entry entry := by
  obtain ⟨target, htarget, -, hmatch⟩ := hold.target
  obtain ⟨hcontext, hcapabilities⟩ := hnew.required (hsame ▸ hentry)
  refine ⟨hold.named, hold.formed, hold.free, target, htarget, ?_, hmatch⟩
  have hlookup : (r.aliases.insert requested.name accepted).lookup entry.name = some accepted := by
    rw [hsame, AList.lookup_insert]
  exact (aliasContract_self hlookup hcontext hcapabilities target).symm

theorem lookup_insert_self_eq (r : ModelRegistry) {name : String} {accepted : ModelAlias}
    (h : r.aliases.lookup name = some accepted) :
    ({ r with aliases := r.aliases.insert name accepted } : ModelRegistry) ≈ r := by
  refine ⟨rfl, rfl, fun other => ?_⟩
  by_cases hother : other = name
  · rw [hother, AList.lookup_insert, h]
  · rw [AList.lookup_insert_ne hother]

variable (render : Bytes → List ModelAlias → Result Bytes)

theorem aliasPut_effects (previous : Option ModelAlias) (current : ConfigSnapshot) :
    (aliasPut render requested previous).effects current r = (r.setAlias requested).2 := by
  simp only [ActiveTransaction.effects, aliasPut]
  rcases r.setAlias requested with ⟨result, r'⟩
  cases result <;> rfl

theorem aliasPut_not_exception (previous : Option ModelAlias) (current : ConfigSnapshot)
    (what : String) :
    (aliasPut render requested previous).proposal current r ≠ .error (.exception what) := by
  simp only [ActiveTransaction.proposal, aliasPut]
  rcases r.setAlias requested with ⟨result, r'⟩
  cases result with
  | error e => simp
  | ok accepted =>
      dsimp only
      cases render (if current.hasActive then current.active else current.base) r'.aliases.values <;>
        simp [asOutcome]

/-- The rollback puts the alias back, or takes it away where there was none. -/
theorem aliasPut_undone (current : ConfigSnapshot)
    (haccepts : ∀ entry, r.aliases.lookup requested.name = some entry →
      requested.name = entry.name ∧ Accepts r entry entry) :
    (aliasPut render requested (r.aliases.lookup requested.name)).undone current r ≈ r := by
  rw [ActiveTransaction.undone, aliasPut_effects]
  change (match r.aliases.lookup requested.name with
    | some entry => ((r.setAlias requested).2.setAlias entry).2
    | none => ((r.setAlias requested).2.removeAlias requested.name).2) ≈ r
  cases hprevious : r.aliases.lookup requested.name with
  | none =>
      have hcontains : r.aliases.contains requested.name = false := by
        simp [Map.contains, hprevious]
      rcases setAlias_cases r requested with ⟨e, hset⟩ | ⟨accepted, hnew⟩
      · simp only [hset, ModelRegistry.removeAlias, hcontains, Bool.false_eq_true, if_false]
        exact Setoid.refl r
      · simp only [hnew.setAlias, ModelRegistry.removeAlias, Map.contains, AList.lookup_insert,
          Option.isSome_some, if_true]
        refine ⟨rfl, rfl, fun name => ?_⟩
        by_cases hname : name = requested.name
        · rw [hname, AList.lookup_erase, hprevious]
        · rw [AList.lookup_erase_ne hname, AList.lookup_insert_ne hname]
  | some entry =>
      obtain ⟨hsame, hold⟩ := haccepts entry hprevious
      rcases setAlias_cases r requested with ⟨e, hset⟩ | ⟨accepted, hnew⟩
      · simp only [hset, hold.setAlias]
        exact lookup_insert_self_eq r (hsame ▸ hprevious)
      · simp only [hnew.setAlias, (Accepts.again (hsame ▸ hprevious) hsame hold hnew).setAlias]
        refine ⟨rfl, rfl, fun name => ?_⟩
        by_cases hname : name = entry.name
        · rw [hname, AList.lookup_insert, ← hsame, hprevious]
        · rw [AList.lookup_insert_ne hname, AList.lookup_insert_ne (hsame ▸ hname)]

/-- The route keeps the contract where neither the validator nor the write throws. -/
theorem aliasPut_contract {C : Type} {repository : ConfigRepository C} {w : World C ModelRegistry}
    {fault : Option WriteFault} (expected : String)
    (haccepts : ∀ entry, w.state.aliases.lookup requested.name = some entry →
      requested.name = entry.name ∧ Accepts w.state entry entry)
    (hvalidator : ∀ text what, repository.validateLocked text ≠ .error (.exception what))
    (hwrite : ∀ text what,
      (ConfigRepository.writeAtomicLocked fault repository.activePath text w.files).1 ≠
        .error (.exception what)) :
    repository.CallContract w (.transactActive expected
      (aliasPut render requested (w.state.aliases.lookup requested.name)) .skip fault) := by
  rw [ConfigRepository.callContract_iff_calm]
  intro current _ _
  have hleaves (failure : Failure) (herror : ∀ what, failure ≠ .exception what) :
      (aliasPut render requested (w.state.aliases.lookup requested.name)).leaves current w.state
        failure ≈ w.state := by
    cases failure with
    | error e => exact aliasPut_undone render current haccepts
    | exception what => exact absurd rfl (herror what)
  refine ⟨fun failure hfails => ?_, fun text failure _ hfails => ?_,
    fun text failure _ _ hfails => ?_, fun text config failure _ _ hpolicy => ?_⟩
  · refine hleaves failure ?_
    rintro what rfl
    exact aliasPut_not_exception render _ current what hfails
  · refine hleaves failure ?_
    rintro what rfl
    exact hvalidator text what hfails
  · refine hleaves failure ?_
    rintro what rfl
    exact hwrite text what hfails
  · cases hpolicy

end Undo

section Interrupted

def plainRepository : ConfigRepository Unit where
  basePath := "gateway.yml"
  activePath := "gateway.active.yml"
  validator := some fun _ => .ok ()
  reload := none
  restoreConfigSecrets := fun text _ => text

def oneModel : World Unit ModelRegistry where
  files := fun path => if path = "gateway.yml" then some [115] else none
  config := ()
  state :=
    { entries := AList.insert "primary" { name := "primary", contextSize := 32768 } ∅
      factories := [] }

/-- A new alias of the model, whose transaction throws while it writes the file. -/
def interruptedPut : ConfigCall ModelRegistry :=
  .transactActive (revision [115])
    (aliasPut (fun text _ => .ok text) { name := "production", target := "primary" } none) .skip
    (some (.exception "filesystem error: cannot remove"))

theorem interruptedPut_breaks_contract :
    ¬ Execution.Meets plainRepository.next plainRepository.CallContract oneModel
      [interruptedPut] := by
  rintro ⟨hcontract, -⟩
  have hcalm := (ConfigRepository.callContract_iff_calm interruptedPut).1 hcontract
  have hwriting := (hcalm _ rfl rfl).writing [115] (.exception "filesystem error: cannot remove") rfl
    rfl rfl
  have halias := hwriting.2.2 "production"
  have hbefore : (oneModel.state.aliases.lookup "production").isSome = false := by decide
  rw [← halias] at hbefore
  revert hbefore
  decide

end Interrupted

end InferDeck.Gateway
