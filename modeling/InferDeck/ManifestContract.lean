import InferDeck.ModelManifest

/-!
# The manifest against the registry

What a turn of the loop does to the list and to the registry, and from it what is left when the
whole manifest was read. An entry that raises takes the list of all entries with it, while the
models that were registered before stay.
-/

namespace InferDeck.Gateway

open InferDeck.Foundation InferDeck.Model InferDeck.Paths

variable {files : StoreFiles} {registry : ModelRegistry} {name : String} {value : Json}

/-- The entry names a model of the store that the registry has or takes. -/
def GoodEntry (files : StoreFiles) (registry : ModelRegistry) (name : String) (value : Json) : Prop :=
  ∃ info, readEntry files name value = .ok (some info) ∧
    (registry.entries.contains name = true ∨
      registry.registrationError (normalizeModelResources info) = none)

def BadEntry (files : StoreFiles) (registry : ModelRegistry) (name : String) (value : Json) : Prop :=
  (∃ refusal, readEntry files name value = .error refusal) ∨
    ∃ info error, readEntry files name value = .ok (some info) ∧
      registry.entries.contains name = false ∧
      registry.registrationError (normalizeModelResources info) = some error

structure ManifestKept (files : StoreFiles) (before after : ManifestStore) (manifest : Manifest) :
    Prop where
  listed : ∀ name, after.registry.entries.contains name = true →
    before.registry.entries.contains name = false → after.installed.contains name = true
  registered : ∀ name, after.installed.contains name = true →
    after.registry.entries.contains name = true
  kept : ∀ name value, manifest.models.lookup name = some value →
    GoodEntry files before.registry name value → after.installed.lookup name = some value
  saved : ∀ file name value, manifest.models.lookup name = some value →
    GoodEntry files before.registry name value →
    (after.saveManifest true (.ok ()) file).2.models.lookup name = some value

/-! ### One turn of the loop -/

theorem readEntry_name {info : ModelInfo} (h : readEntry files name value = .ok (some info)) :
    info.name = name := by
  simp only [readEntry, bind, Except.bind, pure, Except.pure] at h
  repeat' split at h
  all_goals cases h
  rfl

theorem contains_insert {β : Type} (m : Map String β) (k other : String) (v : β) :
    Map.contains (m.insert k v) other = (m.contains other || other == k) := by
  by_cases h : other = k
  · subst h
    simp [Map.contains, AList.lookup_insert]
  · simp [h, Map.contains, AList.lookup_insert_ne h]

/-- The registry after a model of that name was registered, or was there. -/
structure Admits (before after : ModelRegistry) (name : String) : Prop where
  aliases : after.aliases = before.aliases
  has : ∀ other, after.entries.contains other = (before.entries.contains other || other == name)

theorem admits_registered (h : registry.entries.contains name = true) :
    Admits registry registry name := by
  refine ⟨rfl, fun other => ?_⟩
  by_cases hother : other = name
  · simp [hother, h]
  · simp [hother]

theorem admits_insert (info : ModelInfo) :
    Admits registry { registry with entries := registry.entries.insert name info } name :=
  ⟨rfl, fun other => contains_insert registry.entries name other info⟩

/-- A turn leaves the store, lists the entry, or raises. -/
theorem loadEntry_cases (files : StoreFiles) (store : ManifestStore) (name : String)
    (value : Json) :
    (store.loadEntry files name value = .ok store ∧
      ¬GoodEntry files store.registry name value ∧ ¬BadEntry files store.registry name value) ∨
    (GoodEntry files store.registry name value ∧ ¬BadEntry files store.registry name value ∧
      ∃ registry, Admits store.registry registry name ∧
        store.loadEntry files name value = .ok ⟨registry, store.installed.insert name value⟩) ∨
    (BadEntry files store.registry name value ∧ ¬GoodEntry files store.registry name value ∧
      ∃ refusal, store.loadEntry files name value = .error refusal) := by
  cases hread : readEntry files name value with
  | error refusal =>
      refine Or.inr (Or.inr ⟨Or.inl ⟨refusal, hread⟩, ?_, refusal, ?_⟩)
      · rintro ⟨info, hinfo, -⟩
        rw [hread] at hinfo
        cases hinfo
      · simp [ManifestStore.loadEntry, hread, bind, Except.bind]
  | ok read =>
      cases read with
      | none =>
          refine Or.inl ⟨by simp [ManifestStore.loadEntry, hread, bind, Except.bind, pure,
            Except.pure], ?_, ?_⟩
          · simp [GoodEntry, hread]
          · simp [BadEntry, hread]
      | some info =>
          have hname := readEntry_name hread
          subst hname
          cases hhas : store.registry.entries.contains info.name with
          | true =>
              refine Or.inr (Or.inl ⟨⟨info, hread, Or.inl hhas⟩, ?_, store.registry,
                admits_registered hhas, ?_⟩)
              · simp [BadEntry, hread, hhas]
              · simp [ManifestStore.loadEntry, hread, hhas, bind, Except.bind, pure, Except.pure]
          | false =>
              obtain ⟨error, herror, heq⟩ | ⟨hnone, heq⟩ := store.registry.registerModel_cases info
              · refine Or.inr (Or.inr ⟨Or.inr ⟨info, error, hread, hhas, herror⟩, ?_, thrown, ?_⟩)
                · simp [GoodEntry, hread, hhas, herror]
                · simp [ManifestStore.loadEntry, hread, hhas, heq, bind, Except.bind, err]
              · refine Or.inr (Or.inl ⟨⟨info, hread, Or.inr hnone⟩, ?_, _,
                  admits_insert (normalizeModelResources info), ?_⟩)
                · simp [BadEntry, hread, hnone]
                · have hsame : (normalizeModelResources info).name = info.name := by
                    rw [normalizeModelResources]
                    split <;> rfl
                  simp [ManifestStore.loadEntry, hread, hhas, heq, hsame, bind, Except.bind, pure,
                    Except.pure]

/-! ### The whole loop -/

section Judgement

variable {other : ModelRegistry} (haliases : other.aliases = registry.aliases)
  (hhas : other.entries.contains name = registry.entries.contains name)

include haliases

theorem registrationError_congr (info : ModelInfo) :
    other.registrationError info = registry.registrationError info := by
  simp [ModelRegistry.registrationError, haliases]

include hhas

/-- What an entry is depends on the aliases and on whether its own name is taken. -/
theorem goodEntry_congr : GoodEntry files other name value ↔ GoodEntry files registry name value := by
  simp only [GoodEntry, hhas, registrationError_congr haliases]

theorem badEntry_congr : BadEntry files other name value ↔ BadEntry files registry name value := by
  simp only [BadEntry, hhas, registrationError_congr haliases]

end Judgement

/-- The store within the loop: the registry has what it had and what is listed, and nothing of the
rest is listed yet. -/
structure Loading (registry : ModelRegistry) (store : ManifestStore)
    (rest : List (Sigma fun _ : String => Json)) : Prop where
  aliases : store.registry.aliases = registry.aliases
  has : ∀ name, store.registry.entries.contains name =
    (registry.entries.contains name || store.installed.contains name)
  fresh : ∀ entry ∈ rest, store.installed.contains entry.1 = false

theorem loading_start (registry : ModelRegistry) (rest : List (Sigma fun _ : String => Json)) :
    Loading registry ⟨registry, ∅⟩ rest :=
  ⟨rfl, by simp [Map.contains], by simp [Map.contains]⟩

namespace Loading

variable {store : ManifestStore} {entry : Sigma fun _ : String => Json}
  {rest : List (Sigma fun _ : String => Json)}

theorem has_fresh (h : Loading registry store rest) (hentry : entry ∈ rest) :
    store.registry.entries.contains entry.1 = registry.entries.contains entry.1 := by
  rw [h.has, h.fresh entry hentry, Bool.or_false]

theorem good_iff (h : Loading registry store rest) (hentry : entry ∈ rest) :
    GoodEntry files store.registry entry.1 entry.2 ↔ GoodEntry files registry entry.1 entry.2 :=
  goodEntry_congr h.aliases (h.has_fresh hentry)

theorem bad_iff (h : Loading registry store rest) (hentry : entry ∈ rest) :
    BadEntry files store.registry entry.1 entry.2 ↔ BadEntry files registry entry.1 entry.2 :=
  badEntry_congr h.aliases (h.has_fresh hentry)

theorem skip (h : Loading registry store (entry :: rest)) : Loading registry store rest :=
  ⟨h.aliases, h.has, fun e he => h.fresh e (List.mem_cons_of_mem entry he)⟩

/-- The entry is listed. -/
theorem list (h : Loading registry store (entry :: rest)) (hnew : entry.1 ∉ rest.keys)
    {after : ModelRegistry} (hafter : Admits store.registry after entry.1) :
    Loading registry ⟨after, store.installed.insert entry.1 entry.2⟩ rest := by
  refine ⟨hafter.aliases.trans h.aliases, fun name => ?_, fun e he => ?_⟩
  · rw [hafter.has, h.has, contains_insert, Bool.or_assoc]
  · have hne : e.1 ≠ entry.1 := fun heq => hnew (heq ▸ List.mem_map_of_mem he)
    simp [contains_insert, h.fresh e (List.mem_cons_of_mem entry he), hne]

end Loading

/-- Without a bad entry every good one is listed, and nothing else changes. -/
theorem loadEntries_good {rest : List (Sigma fun _ : String => Json)} (hnodup : rest.NodupKeys)
    (hgood : ∀ entry ∈ rest, ¬BadEntry files registry entry.1 entry.2) :
    ∀ {store : ManifestStore}, Loading registry store rest →
      Loading registry (store.loadEntries files rest) [] ∧
      (∀ entry ∈ rest, GoodEntry files registry entry.1 entry.2 →
        (store.loadEntries files rest).installed.lookup entry.1 = some entry.2) ∧
      ∀ name ∉ rest.keys, (store.loadEntries files rest).installed.lookup name =
        store.installed.lookup name := by
  induction rest with
  | nil =>
      intro store h
      exact ⟨h, by simp, fun name _ => rfl⟩
  | cons entry rest ih =>
      intro store h
      obtain ⟨hnew, hrest⟩ := List.nodupKeys_cons.1 hnodup
      have hself : entry ∈ entry :: rest := List.mem_cons_self
      have hlater : ∀ e ∈ rest, ¬BadEntry files registry e.1 e.2 :=
        fun e he => hgood e (List.mem_cons_of_mem entry he)
      obtain ⟨heq, hnot, -⟩ | ⟨-, -, after, hafter, heq⟩ | ⟨hbad, -⟩ :=
        loadEntry_cases files store entry.1 entry.2
      · obtain ⟨hload, hkept, hsame⟩ := ih hrest hlater h.skip
        simp only [ManifestStore.loadEntries, heq]
        refine ⟨hload, fun e he hg => ?_, fun name hname => hsame name ?_⟩
        · obtain rfl | he := List.mem_cons.1 he
          · exact absurd ((h.good_iff hself).2 hg) hnot
          · exact hkept e he hg
        · exact fun hmem => hname (List.mem_cons_of_mem _ hmem)
      · obtain ⟨hload, hkept, hsame⟩ := ih hrest hlater (h.list hnew hafter)
        simp only [ManifestStore.loadEntries, heq]
        refine ⟨hload, fun e he hg => ?_, fun name hname => ?_⟩
        · obtain rfl | he := List.mem_cons.1 he
          · rw [hsame _ hnew, AList.lookup_insert]
          · exact hkept e he hg
        · have hne : name ≠ entry.1 := fun heq => hname (heq ▸ List.mem_cons_self)
          rw [hsame name fun hmem => hname (List.mem_cons_of_mem _ hmem),
            AList.lookup_insert_ne hne]
      · exact absurd ((h.bad_iff hself).1 hbad) (hgood entry hself)

/-- A bad entry anywhere drops the list. -/
theorem loadEntries_bad {rest : List (Sigma fun _ : String => Json)} (hnodup : rest.NodupKeys)
    (hbad : ∃ entry ∈ rest, BadEntry files registry entry.1 entry.2) :
    ∀ {store : ManifestStore}, Loading registry store rest →
      (store.loadEntries files rest).installed = ∅ := by
  induction rest with
  | nil => simp at hbad
  | cons entry rest ih =>
      intro store h
      obtain ⟨hnew, hrest⟩ := List.nodupKeys_cons.1 hnodup
      have hself : entry ∈ entry :: rest := List.mem_cons_self
      have hlater (hnot : ¬BadEntry files store.registry entry.1 entry.2) :
          ∃ e ∈ rest, BadEntry files registry e.1 e.2 := by
        obtain ⟨e, he, hb⟩ := hbad
        obtain rfl | he := List.mem_cons.1 he
        · exact absurd ((h.bad_iff hself).2 hb) hnot
        · exact ⟨e, he, hb⟩
      obtain ⟨heq, -, hnot⟩ | ⟨-, hnot, after, hafter, heq⟩ | ⟨-, -, refusal, heq⟩ :=
        loadEntry_cases files store entry.1 entry.2
      · simpa only [ManifestStore.loadEntries, heq] using ih hrest (hlater hnot) h.skip
      · simpa only [ManifestStore.loadEntries, heq] using ih hrest (hlater hnot) (h.list hnew hafter)
      · simp only [ManifestStore.loadEntries, heq]

/-- Where no entry is good the loop changes nothing. -/
theorem loadEntries_none {rest : List (Sigma fun _ : String => Json)}
    (hnone : ∀ entry ∈ rest, ¬GoodEntry files registry entry.1 entry.2) :
    ManifestStore.loadEntries files ⟨registry, ∅⟩ rest = ⟨registry, ∅⟩ := by
  induction rest with
  | nil => rfl
  | cons entry rest ih =>
      obtain ⟨heq, -⟩ | ⟨hgood, -⟩ | ⟨-, -, refusal, heq⟩ :=
        loadEntry_cases files ⟨registry, ∅⟩ entry.1 entry.2
      · rw [ManifestStore.loadEntries, heq]
        exact ih fun e he => hnone e (List.mem_cons_of_mem entry he)
      · exact absurd hgood (hnone entry List.mem_cons_self)
      · rw [ManifestStore.loadEntries, heq]

/-! ### The manifest -/

theorem manifestKept_unchanged {manifest : Manifest} (h : ∀ name value,
    manifest.models.lookup name = some value → ¬GoodEntry files registry name value) :
    ManifestKept files ⟨registry, ∅⟩ ⟨registry, ∅⟩ manifest where
  listed name hafter hbefore := by simp_all
  registered name hlisted := by simp [Map.contains] at hlisted
  kept name value hvalue hgood := absurd hgood (h name value hvalue)
  saved file name value hvalue hgood := absurd hgood (h name value hvalue)

/-- Loading keeps store and registry consistent exactly where no entry of the manifest is bad, or
none is good. -/
theorem loadManifest_kept_iff (files : StoreFiles) (registry : ModelRegistry)
    (manifest : Manifest) :
    ManifestKept files ⟨registry, ∅⟩ (ManifestStore.loadManifest files ⟨registry, ∅⟩ manifest)
        manifest ↔
      (∀ name value, manifest.models.lookup name = some value →
        ¬BadEntry files registry name value) ∨
      ∀ name value, manifest.models.lookup name = some value →
        ¬GoodEntry files registry name value := by
  cases manifest with
  | absent | malformed | other =>
      refine iff_of_true (manifestKept_unchanged ?_) (Or.inl ?_) <;> simp [Manifest.models]
  | entries models =>
      have hlookup {P : String → Json → Prop} :
          (∀ name value, models.lookup name = some value → P name value) ↔
            ∀ entry ∈ models.entries, P entry.1 entry.2 :=
        ⟨fun h entry he => h _ _ (Map.mem_entries_iff.1 he),
          fun h name value hv => h ⟨name, value⟩ (Map.mem_entries_iff.2 hv)⟩
      have hstart := loading_start registry models.entries
      simp only [Manifest.models, ManifestStore.loadManifest]
      constructor
      · intro hkept
        by_contra hboth
        push Not at hboth
        obtain ⟨⟨badName, badValue, hbadIn, hbad⟩, goodName, goodValue, hgoodIn, hgood⟩ := hboth
        have hsome : ∃ entry ∈ models.entries, BadEntry files registry entry.1 entry.2 :=
          ⟨⟨badName, badValue⟩, Map.mem_entries_iff.2 hbadIn, hbad⟩
        have hempty := loadEntries_bad models.nodupKeys hsome hstart
        have hlisted := hkept.kept goodName goodValue hgoodIn hgood
        rw [hempty] at hlisted
        simp at hlisted
      · rintro (hgood | hnone)
        · obtain ⟨hload, hkept, -⟩ := loadEntries_good models.nodupKeys (hlookup.1 hgood) hstart
          refine ⟨fun name hafter hbefore => ?_, fun name hlisted => ?_, fun name value hv hg => ?_,
            fun file name value hv hg => ?_⟩
          · simpa [hload.has, hbefore] using hafter
          · rw [hload.has, hlisted, Bool.or_true]
          · exact hkept _ (Map.mem_entries_iff.2 hv) hg
          · exact hkept _ (Map.mem_entries_iff.2 hv) hg
        · rw [loadEntries_none (hlookup.1 hnone)]
          exact manifestKept_unchanged hnone

/-! ### A number among the entries -/

def storeRoot : Path := ⟨true, ["models"], false, by decide, by decide⟩

def storedModel : Path := ⟨true, ["models", "tiny.gguf"], false, by decide, by decide⟩

def oneModelFile : StoreFiles where
  root := storeRoot
  canonical text := if text = "/models/tiny.gguf" then storedModel else storeRoot
  kind path := if path.names = storedModel.names then .regular else .directory

def oddManifest : Manifest :=
  .entries (AList.insert "tiny" (.object [("path", .string "/models/tiny.gguf")])
    (AList.singleton "version" (.integer 3)))

/-- The model is registered, and the entry after it unlists it. -/
theorem odd_entry_unlists :
    ¬ManifestKept oneModelFile ⟨{ entries := ∅, factories := [] }, ∅⟩
      (ManifestStore.loadManifest oneModelFile ⟨{ entries := ∅, factories := [] }, ∅⟩ oddManifest)
      oddManifest := by
  intro h
  have hlisted := h.listed "tiny" (by decide +kernel) (by decide +kernel)
  revert hlisted
  decide +kernel

end InferDeck.Gateway
