import InferDeck.Execution
import InferDeck.ModelRegistry

/-!
# The contract of the aliases

An alias stands for a concrete model with at least the context and the capabilities that the alias
was made with. `set_alias` checks that, and `unregister_model` refuses a model that an alias
targets. `register_model` replaces the metadata of a model without looking at the aliases that
target it, so that the contract holds in every run in which no alias's target is registered again
with less than the alias requires, and in no other.
-/

namespace InferDeck.Model

open InferDeck.Foundation

def ModelAlias.SatisfiedBy (entry : ModelAlias) (info : ModelInfo) : Prop :=
  entry.requiredContextSize ≤ info.contextSize ∧
    ∀ capability ∈ entry.requiredCapabilities, info.supports capability = true

instance (entry : ModelAlias) (info : ModelInfo) : Decidable (entry.SatisfiedBy info) :=
  inferInstanceAs (Decidable (_ ∧ _))

inductive RegistryOp where
  | registerModel (info : ModelInfo)
  | unregisterModel (name : String)
  | setAlias (requested : ModelAlias)
  | removeAlias (name : String)

namespace ModelRegistry

variable {r : ModelRegistry}

/-- Whether an operation succeeds, and the registry after it. -/
def apply (r : ModelRegistry) : RegistryOp → Result Unit × ModelRegistry
  | .registerModel info => r.registerModel info
  | .unregisterModel name => r.unregisterModel name
  | .setAlias requested =>
      let (result, r') := r.setAlias requested
      (result.map fun _ => (), r')
  | .removeAlias name => r.removeAlias name

def next (r : ModelRegistry) (op : RegistryOp) : Option ModelRegistry := some (r.apply op).2

structure AliasContract (r : ModelRegistry) : Prop where
  disjoint : ∀ name entry, r.aliases.lookup name = some entry → r.entries.lookup name = none
  target : ∀ name entry, r.aliases.lookup name = some entry →
    ∃ info, r.entries.lookup entry.target = some info ∧ entry.SatisfiedBy info

theorem aliasContract_empty (factories : List String) :
    AliasContract { entries := ∅, factories } :=
  ⟨by simp, by simp⟩

/-- No alias targets another alias. -/
theorem AliasContract.target_not_alias (h : AliasContract r) {name : String} {entry : ModelAlias}
    (hentry : r.aliases.lookup name = some entry) : r.aliases.lookup entry.target = none := by
  obtain ⟨info, hinfo, -⟩ := h.target name entry hentry
  cases hother : r.aliases.lookup entry.target with
  | none => rfl
  | some other =>
      have hnone := h.disjoint entry.target other hother
      rw [hinfo] at hnone
      cases hnone

theorem AliasContract.resolve_ok (h : AliasContract r) {name : String} {entry : ModelAlias}
    (hentry : r.aliases.lookup name = some entry) :
    ∃ info, r.resolve name = .ok entry.target ∧ r.entries.lookup entry.target = some info ∧
      entry.SatisfiedBy info := by
  obtain ⟨info, hinfo, hsatisfied⟩ := h.target name entry hentry
  refine ⟨info, ?_, hinfo, hsatisfied⟩
  have hnone : r.entries.contains name = false := by
    simp [Map.contains, h.disjoint name entry hentry]
  have htarget : r.entries.contains entry.target = true := by simp [Map.contains, hinfo]
  simp [resolve, hnone, hentry, htarget]

theorem registerModel_cases (r : ModelRegistry) (info : ModelInfo) :
    (∃ error, r.registrationError (normalizeModelResources info) = some error ∧
      r.registerModel info = (err .invalidArgument error, r)) ∨
    r.registrationError (normalizeModelResources info) = none ∧
      r.registerModel info = (.ok (), { r with
        entries := r.entries.insert (normalizeModelResources info).name
          (normalizeModelResources info) }) := by
  rw [registerModel]
  cases h : r.registrationError (normalizeModelResources info) with
  | some error => exact Or.inl ⟨error, rfl, rfl⟩
  | none => exact Or.inr ⟨rfl, rfl⟩

theorem not_alias_of_registered {info : ModelInfo} (h : r.registrationError info = none) :
    r.aliases.lookup info.name = none := by
  rw [registrationError] at h
  split at h
  · cases h
  · split at h
    · cases h
    · split_ifs at h with hname hcontains
      simpa [Map.contains] using hcontains

theorem unregisterModel_cases (r : ModelRegistry) (name : String) :
    (∃ error, r.unregisterModel name = (err .invalidArgument error, r)) ∨
    (∀ key entry, r.aliases.lookup key = some entry → entry.target ≠ name) ∧
      r.unregisterModel name = (.ok (), { r with entries := r.entries.erase name }) := by
  rw [unregisterModel]
  cases h : r.aliases.values.find? fun entry => entry.target = name with
  | some entry => exact Or.inl ⟨_, rfl⟩
  | none =>
      refine Or.inr ⟨fun key entry hentry htarget => ?_, rfl⟩
      rw [List.find?_eq_none] at h
      have hmem : entry ∈ r.aliases.values :=
        List.mem_map.2 ⟨_, Map.mem_entries_iff.2 hentry, rfl⟩
      simpa [htarget] using h entry hmem

theorem satisfiedBy_of_mismatches {entry : ModelAlias} {info : ModelInfo}
    (h : mismatches entry info = []) : entry.SatisfiedBy info := by
  rw [mismatches, List.append_eq_nil_iff, List.map_eq_nil_iff, List.filter_eq_nil_iff] at h
  refine ⟨?_, fun capability hin => by simpa using h.2 capability hin⟩
  by_contra hlt
  simp [not_le.1 hlt] at h

theorem aliasContract_target (r : ModelRegistry) (requested : ModelAlias) (target : ModelInfo) :
    (r.aliasContract requested target).target = requested.target := by
  rw [aliasContract]
  cases r.aliases.lookup requested.name <;> rfl

theorem setAlias_cases (r : ModelRegistry) (requested : ModelAlias) :
    (∃ error, r.setAlias requested = (.error error, r)) ∨
    ∃ entry info, r.entries.lookup requested.name = none ∧
      r.entries.lookup entry.target = some info ∧ entry.SatisfiedBy info ∧
      r.setAlias requested =
        (.ok entry, { r with aliases := r.aliases.insert requested.name entry }) := by
  rw [setAlias]
  by_cases h₁ : requested.name = "" ∨ requested.target = ""
  · exact Or.inl ⟨_, if_pos h₁⟩
  rw [if_neg h₁]
  by_cases h₂ : !aliasNameOk requested.name ∨ requested.requiredContextSize < 0 ∨
      requested.requiredCapabilities.contains ""
  · exact Or.inl ⟨_, if_pos h₂⟩
  rw [if_neg h₂]
  by_cases h₃ : requested.name = requested.target ∨ r.entries.contains requested.name
  · exact Or.inl ⟨_, if_pos h₃⟩
  rw [if_neg h₃]
  cases hinfo : r.entries.lookup requested.target with
  | none => exact Or.inl ⟨_, rfl⟩
  | some info =>
      have htarget := r.aliasContract_target requested info
      cases h : mismatches (r.aliasContract requested info) info with
      | cons error errors =>
          left
          simp only [h]
          exact ⟨_, rfl⟩
      | nil =>
          right
          refine ⟨r.aliasContract requested info, info, ?_, htarget ▸ hinfo,
            satisfiedBy_of_mismatches h, by simp only [h]⟩
          rw [not_or] at h₃
          simpa [Map.contains] using h₃.2

theorem removeAlias_cases (r : ModelRegistry) (name : String) :
    (∃ error, r.removeAlias name = (.error error, r)) ∨
      r.removeAlias name = (.ok (), { r with aliases := r.aliases.erase name }) := by
  rw [removeAlias]
  split_ifs
  · exact Or.inr rfl
  · exact Or.inl ⟨_, rfl⟩

/-- An operation that fails leaves the registry as it was. -/
theorem apply_error {op : RegistryOp} {error : Error} (h : (r.apply op).1 = .error error) :
    (r.apply op).2 = r := by
  cases op with
  | registerModel info =>
      rcases r.registerModel_cases info with ⟨_, -, heq⟩ | ⟨-, heq⟩
      · simp [apply, heq]
      · simp [apply, heq] at h
  | unregisterModel name =>
      rcases r.unregisterModel_cases name with ⟨_, heq⟩ | ⟨-, heq⟩
      · simp [apply, heq]
      · simp [apply, heq] at h
  | setAlias requested =>
      rcases r.setAlias_cases requested with ⟨_, heq⟩ | ⟨_, _, -, -, -, heq⟩
      · simp [apply, heq]
      · simp [apply, heq, Except.map] at h
  | removeAlias name =>
      rcases r.removeAlias_cases name with ⟨_, heq⟩ | heq
      · simp [apply, heq]
      · simp [apply, heq] at h

/-- A model that is registered, perhaps once more, has what the aliases that target it require. -/
def KeepsAliases (r : ModelRegistry) (op : RegistryOp) : Prop :=
  ∀ info, op = .registerModel info →
    r.registrationError (normalizeModelResources info) = none →
    ∀ name entry, r.aliases.lookup name = some entry →
      entry.target = (normalizeModelResources info).name →
      entry.SatisfiedBy (normalizeModelResources info)

theorem AliasContract.apply (h : AliasContract r) {op : RegistryOp} (hkeeps : KeepsAliases r op) :
    AliasContract (r.apply op).2 := by
  cases op with
  | registerModel info =>
      rcases r.registerModel_cases info with ⟨_, -, heq⟩ | ⟨hnone, heq⟩
      · simpa [ModelRegistry.apply, heq] using h
      · simp only [ModelRegistry.apply, heq]
        have hnew := not_alias_of_registered hnone
        refine ⟨fun name entry hentry => ?_, fun name entry hentry => ?_⟩
        · have hne : name ≠ (normalizeModelResources info).name := by
            rintro rfl
            rw [hentry] at hnew
            cases hnew
          rw [AList.lookup_insert_ne hne]
          exact h.disjoint name entry hentry
        · by_cases htarget : entry.target = (normalizeModelResources info).name
          · exact ⟨_, by rw [htarget, AList.lookup_insert],
              hkeeps info rfl hnone name entry hentry htarget⟩
          · rw [AList.lookup_insert_ne htarget]
            exact h.target name entry hentry
  | unregisterModel name =>
      rcases r.unregisterModel_cases name with ⟨_, heq⟩ | ⟨huntargeted, heq⟩
      · simpa [ModelRegistry.apply, heq] using h
      · simp only [ModelRegistry.apply, heq]
        refine ⟨fun key entry hentry => ?_, fun key entry hentry => ?_⟩
        · by_cases hkey : key = name
          · rw [hkey, AList.lookup_erase]
          · rw [AList.lookup_erase_ne hkey]
            exact h.disjoint key entry hentry
        · rw [AList.lookup_erase_ne (huntargeted key entry hentry)]
          exact h.target key entry hentry
  | setAlias requested =>
      rcases r.setAlias_cases requested with ⟨_, heq⟩ | ⟨new, info, hfree, htarget, hok, heq⟩
      · simpa [ModelRegistry.apply, heq] using h
      · simp only [ModelRegistry.apply, heq]
        have hcases : ∀ key entry, (r.aliases.insert requested.name new).lookup key = some entry →
            key = requested.name ∧ entry = new ∨ r.aliases.lookup key = some entry := by
          intro key entry hentry
          by_cases hkey : key = requested.name
          · rw [hkey, AList.lookup_insert, Option.some.injEq] at hentry
            exact Or.inl ⟨hkey, hentry.symm⟩
          · rw [AList.lookup_insert_ne hkey] at hentry
            exact Or.inr hentry
        refine ⟨fun key entry hentry => ?_, fun key entry hentry => ?_⟩
        · rcases hcases key entry hentry with ⟨rfl, rfl⟩ | hold
          · exact hfree
          · exact h.disjoint key entry hold
        · rcases hcases key entry hentry with ⟨rfl, rfl⟩ | hold
          · exact ⟨info, htarget, hok⟩
          · exact h.target key entry hold
  | removeAlias name =>
      rcases r.removeAlias_cases name with ⟨_, heq⟩ | heq
      · simpa [ModelRegistry.apply, heq] using h
      · simp only [ModelRegistry.apply, heq]
        have hcases : ∀ key entry, (r.aliases.erase name).lookup key = some entry →
            r.aliases.lookup key = some entry := by
          intro key entry hentry
          by_cases hkey : key = name
          · rw [hkey, AList.lookup_erase] at hentry
            cases hentry
          · rwa [AList.lookup_erase_ne hkey] at hentry
        exact ⟨fun key entry hentry => h.disjoint key entry (hcases key entry hentry),
          fun key entry hentry => h.target key entry (hcases key entry hentry)⟩

/-- A registration that takes away what an alias requires breaks the contract at once. -/
theorem keepsAliases_of_contract {op : RegistryOp} (h : AliasContract (r.apply op).2) :
    KeepsAliases r op := by
  rintro info rfl hnone name entry hentry htarget
  rcases r.registerModel_cases info with ⟨error, herror, -⟩ | ⟨-, heq⟩
  · rw [hnone] at herror
    cases herror
  · simp only [ModelRegistry.apply, heq] at h
    obtain ⟨found, hfound, hok⟩ := h.target name entry hentry
    rw [htarget, AList.lookup_insert, Option.some.injEq] at hfound
    exact hfound ▸ hok

/-- What the registry promises of a state: the aliases stand for concrete models that satisfy them
and resolve to them, and an operation that fails changes nothing. -/
structure AliasSafe (r : ModelRegistry) : Prop where
  disjoint : ∀ name, ¬ (r.aliases.contains name = true ∧ r.entries.contains name = true)
  concrete : ∀ name entry, r.aliases.lookup name = some entry →
    r.aliases.lookup entry.target = none
  resolves : ∀ name entry, r.aliases.lookup name = some entry →
    ∃ target info, r.resolve name = .ok target ∧ target = entry.target ∧
      r.entries.lookup target = some info ∧ entry.SatisfiedBy info
  failure : ∀ op error, (r.apply op).1 = .error error → (r.apply op).2 = r

theorem AliasContract.safe (h : AliasContract r) : AliasSafe r := by
  refine ⟨?_, fun name entry => h.target_not_alias, fun name entry hentry => ?_,
    fun op error => apply_error⟩
  · rintro name ⟨halias, hentry⟩
    obtain ⟨entry, hlookup⟩ := Option.isSome_iff_exists.1 halias
    simp [Map.contains, h.disjoint name entry hlookup] at hentry
  · obtain ⟨info, hresolve, hinfo, hok⟩ := h.resolve_ok hentry
    exact ⟨entry.target, info, hresolve, rfl, hinfo, hok⟩

theorem AliasSafe.contract (h : AliasSafe r) : AliasContract r := by
  refine ⟨fun name entry hentry => ?_, fun name entry hentry => ?_⟩
  · cases hlookup : r.entries.lookup name with
    | none => rfl
    | some info =>
        have hboth : r.aliases.contains name = true ∧ r.entries.contains name = true := by
          simp [Map.contains, hentry, hlookup]
        exact absurd hboth (h.disjoint name)
  · obtain ⟨target, info, -, rfl, hinfo, hok⟩ := h.resolves name entry hentry
    exact ⟨info, hinfo, hok⟩

/-- In a run of any operations on an empty registry the aliases are safe throughout if and only if
every model that is registered under a name that an alias targets has what that alias requires. -/
theorem alwaysSafe_iff (factories : List String) (ops : List RegistryOp) :
    Execution.Always next AliasSafe { entries := ∅, factories } ops ↔
      Execution.Meets next KeepsAliases { entries := ∅, factories } ops := by
  refine Execution.always_iff_meets (I := AliasContract) (fun r h => h.safe) ?_ ?_
    (aliasContract_empty factories)
  · intro r op r' h hkeeps hr'
    exact Option.some.inj hr' ▸ h.apply hkeeps
  · intro r op _ hsafe
    exact keepsAliases_of_contract (hsafe _ rfl).contract

/-- An alias of a model that is registered again with a quarter of its context. -/
def weakenedTarget : List RegistryOp :=
  [.registerModel { name := "primary", contextSize := 32768 },
    .setAlias { name := "production", target := "primary" },
    .registerModel { name := "primary", contextSize := 8192 }]

theorem weakenedTarget_not_alwaysSafe :
    ¬ ∀ factories ops, Execution.Always next AliasSafe { entries := ∅, factories } ops := by
  intro hall
  obtain ⟨r, hr⟩ : ∃ r, Execution.exec next { entries := ∅, factories := [] } weakenedTarget =
      some r := ⟨_, rfl⟩
  have hsafe := hall [] weakenedTarget weakenedTarget r List.prefix_rfl hr
  obtain ⟨target, info, hresolve, rfl, hinfo, hok⟩ := hsafe.resolves "production"
    { name := "production", target := "primary", requiredContextSize := 32768
      requiredCapabilities := ["chat_completions", "responses"] } (by
        rw [← Option.some.inj hr]
        decide)
  have hcontext : (r.entries.lookup "primary").map
      ModelInfo.contextSize = some 8192 := by
    rw [← Option.some.inj hr]
    decide
  rw [hinfo] at hcontext
  have hrequired : 32768 ≤ info.contextSize := hok.1
  simp only [Option.map_some, Option.some.injEq] at hcontext
  omega

end ModelRegistry

end InferDeck.Model
