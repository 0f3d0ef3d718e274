import InferDeck.Foundation
import InferDeck.YamlSections

/-!
# Removing an entry of the model registry

`remove_model_registry_entry` cuts the lines of one entry out of a configuration. It looks for the
entry with the YAML library, block by block, and leaves the comments that come after it.
-/

namespace InferDeck.Gateway.ConfigYaml

open InferDeck.Foundation ConfigSecrets

def registryKey : Text := "model_registry".toList

/-- The line ends the section of the registry. -/
def closesRegistry : Text → Bool
  | [] => false
  | c :: _ => c != ' ' && c != '\t' && c != '\r' && c != '#'

def startsEntry (line : Text) : Bool :=
  "  - ".toList.isPrefixOf line || line == "  -".toList

def isComment (line : Text) : Bool :=
  "#".toList.isPrefixOf line || "  #".toList.isPrefixOf line

/-- The name of an entry is the given one. Nothing stands for an exception of the library. -/
def entryNamed (name : Text) (entry : Node) : Option Bool := do
  match ← entry.subscript "name".toList with
  | none => return false
  | some value => return (← value.asString) == name

def anyNamed (name : Text) : List Node → Option Bool
  | [] => some false
  | entry :: entries => do
      if ← entryNamed name entry then return true else anyNamed name entries

def isEntry (yaml : Yaml) (name : Text) (block : List Text) : Bool :=
  let parsed : Option Bool := do
    let root ← yaml.load (registryKey ++ ":\n".toList ++ block.flatten)
    match ← root.subscript registryKey with
    | some (.sequence [entry]) => entryNamed name entry
    | _ => return false
  parsed.getD false

/-- The lines of the section before its first entry, and the entries. -/
def entries : List Text → List Text × List (List Text)
  | [] => ([], [])
  | line :: rest =>
      if startsEntry (content line) then ([], (line :: (entries rest).1) :: (entries rest).2)
      else (line :: (entries rest).1, (entries rest).2)

/-- An entry without the lines that are removed with it: those up to its first comment. -/
def afterEntry (block : List Text) : List Text :=
  block.tail.dropWhile fun line => !isComment (content line)

def withoutEntry (yaml : Yaml) (name : Text) : List (List Text) → Option (List (List Text))
  | [] => none
  | block :: rest =>
      if isEntry yaml name block then some (afterEntry block :: rest)
      else (withoutEntry yaml name rest).map (block :: ·)

def cutEntry (yaml : Yaml) (name : Text) (ls : List Text) : Result (List Text) :=
  let before := ls.takeWhile fun line => !opens registryKey (content line)
  match ls.dropWhile fun line => !opens registryKey (content line) with
  | [] => err .notFound "model registry is missing"
  | header :: rest =>
      let body := rest.takeWhile fun line => !closesRegistry (content line)
      let after := rest.dropWhile fun line => !closesRegistry (content line)
      match withoutEntry yaml name (entries body).2 with
      | some kept => .ok (before ++ header :: ((entries body).1 ++ kept.flatten) ++ after)
      | none =>
          err .parseError ("could not locate the configured model block " ++
            "without rewriting the configuration")

/-- `remove_model_registry_entry`; nothing stands for an exception of the library. -/
def removeModelRegistryEntry (yaml : Yaml) (text name : Text) : Option (Result Text) := do
  let root ← yaml.load text
  match ← root.subscript registryKey with
  | some (.sequence models) =>
      if ← anyNamed name models then
        return (cutEntry yaml name (lines text)).map List.flatten
      else return err .notFound ("configured model not found: " ++ String.ofList name)
  | _ => return err .notFound "model registry is missing"

/-! ### Blocks -/

section Blocks

variable {yaml : Yaml} {name text updated : Text} {ls block : List Text}

theorem entries_flatten (ls : List Text) : (entries ls).1 ++ (entries ls).2.flatten = ls := by
  induction ls with
  | nil => rfl
  | cons line rest ih =>
      rw [entries]
      split_ifs
      · rw [List.nil_append, List.flatten_cons, List.cons_append, ih]
      · rw [List.cons_append, ih]

theorem startsEntry_leading : ∀ line ∈ (entries ls).1, startsEntry (content line) = false := by
  induction ls with
  | nil => simp [entries]
  | cons line rest ih =>
      rw [entries]
      split_ifs with hstarts
      · simp
      · exact List.forall_mem_cons.2 ⟨Bool.eq_false_iff.2 hstarts, ih⟩

def EntryLines (block : List Text) : Prop :=
  ∃ head tail, block = head :: tail ∧ startsEntry (content head) = true ∧
    ∀ line ∈ tail, startsEntry (content line) = false

theorem entries_lines : ∀ block ∈ (entries ls).2, EntryLines block := by
  induction ls with
  | nil => simp [entries]
  | cons line rest ih =>
      rw [entries]
      split_ifs with hstarts
      · exact List.forall_mem_cons.2 ⟨⟨line, _, rfl, hstarts, startsEntry_leading⟩, ih⟩
      · exact ih

theorem withoutEntry_spec {blocks kept : List (List Text)}
    (h : withoutEntry yaml name blocks = some kept) : ∃ earlier block later,
      blocks = earlier ++ block :: later ∧ (∀ other ∈ earlier, isEntry yaml name other = false) ∧
        isEntry yaml name block = true ∧ kept = earlier ++ afterEntry block :: later := by
  induction blocks generalizing kept with
  | nil => cases h
  | cons block blocks ih =>
      rw [withoutEntry] at h
      split_ifs at h with hentry
      · exact ⟨[], block, blocks, rfl, by simp, hentry, (Option.some.inj h).symm⟩
      · obtain ⟨rest, hrest, rfl⟩ := Option.map_eq_some_iff.1 h
        obtain ⟨earlier, found, later, rfl, hearlier, hfound, rfl⟩ := ih hrest
        exact ⟨block :: earlier, found, later, rfl,
          List.forall_mem_cons.2 ⟨Bool.eq_false_iff.2 hentry, hearlier⟩, hfound, rfl⟩

theorem isComment_of_startsEntry {line : Text} (h : startsEntry line = true) :
    isComment line = false := by
  rcases Bool.or_eq_true_iff.1 h with h | h
  · obtain ⟨rest, rfl⟩ := List.isPrefixOf_iff_prefix.1 h
    rfl
  · rw [beq_iff_eq.1 h]
    rfl

/-- What is removed of an entry: its first line and those up to a comment. -/
theorem EntryLines.split (h : EntryLines block) : ∃ removed,
    block = removed ++ afterEntry block ∧ EntryLines removed ∧
      ∀ line ∈ removed, isComment (content line) = false := by
  obtain ⟨head, tail, rfl, hhead, htail⟩ := h
  refine ⟨head :: tail.takeWhile fun line => !isComment (content line), ?_,
    ⟨head, _, rfl, hhead, fun line hline => htail line (List.takeWhile_subset _ hline)⟩, ?_⟩
  · simp [afterEntry]
  · refine List.forall_mem_cons.2 ⟨isComment_of_startsEntry hhead, fun line hline => ?_⟩
    simpa using List.mem_takeWhile_imp hline

theorem topLevel_registryKey : TopLevel registryKey where
  nonempty := List.cons_ne_nil _ _
  plain := by decide
  start c hc := by
    obtain rfl := Option.some.inj hc
    decide

theorem opens_of_registry {other line : Text} (hother : TopLevel other)
    (h : closesRegistry line = false) : opens other line = false := by
  rw [Bool.eq_false_iff]
  intro hopens
  obtain ⟨rest, rfl⟩ := opens_iff.1 hopens
  obtain ⟨c, key, rfl⟩ := List.exists_cons_of_ne_nil hother.nonempty
  obtain ⟨hblank, htab, hreturn, -, hcomment⟩ := hother.start c rfl
  simp [closesRegistry, hblank, htab, hreturn, hcomment] at h

/-! ### The configuration without the entry -/

/-- The lines of one entry with the name are removed, up to a comment after it, and all others
stay. -/
structure Removal (yaml : Yaml) (text name updated : Text)
    (earlier removed kept later : List Text) : Prop where
  before : lines text = earlier ++ (removed ++ (kept ++ later))
  after : lines updated = earlier ++ (kept ++ later)
  named : isEntry yaml name (removed ++ kept) = true
  one : EntryLines removed
  comments : ∀ line ∈ removed, isComment (content line) = false
  others : ∀ other, TopLevel other → other ≠ registryKey →
    readSection updated other = readSection text other

theorem cutEntry_eq_ok {cut : List Text} (h : cutEntry yaml name ls = .ok cut) :
    ∃ before header leading blocks kept after,
      ls = before ++ header :: (leading ++ List.flatten blocks) ++ after ∧
      opens registryKey (content header) = true ∧
      (∀ line ∈ leading ++ List.flatten blocks, closesRegistry (content line) = false) ∧
      (∀ block ∈ blocks, EntryLines block) ∧ withoutEntry yaml name blocks = some kept ∧
      cut = before ++ header :: (leading ++ List.flatten kept) ++ after := by
  unfold cutEntry at h
  dsimp only at h
  split at h
  next => cases h
  next header rest hdrop =>
    split at h
    next kept hkept =>
      obtain rfl := Except.ok.inj h
      refine ⟨_, header, _, _, kept, _, ?_, ?_, ?_, entries_lines, hkept, rfl⟩
      · rw [entries_flatten, List.append_assoc, List.cons_append, List.takeWhile_append_dropWhile,
          ← hdrop, List.takeWhile_append_dropWhile]
      · have hhead := List.head?_dropWhile_not (fun line => !opens registryKey (content line)) ls
        rw [hdrop] at hhead
        simpa using hhead
      · rw [entries_flatten]
        intro line hline
        simpa using List.mem_takeWhile_imp hline
    next => cases h

/-- Lines that neither begin the section of a key nor stand after it has begun do not count. -/
theorem own_of_body (before rest : List Text) {other header : Text} {body : List Text}
    (hother : TopLevel other) (hne : other ≠ registryKey)
    (hheader : opens registryKey (content header) = true)
    (hbody : ∀ line ∈ body, closesRegistry (content line) = false) :
    (findSection content other (before ++ header :: (body ++ rest))).map Section.own =
      ((findSection content other before).map Section.own).or
        ((findSection content other rest).map Section.own) := by
  have hcloses : StartsClosed content (header :: (body ++ rest)) := by
    intro line hline
    obtain rfl := Option.some.inj hline
    exact topLevel_registryKey.closes_of_opens hheader
  have hfree : findSection content other (header :: body) = none := by
    refine findSection_eq_none_iff.2 (List.forall_mem_cons.2 ⟨?_, fun line hline => ?_⟩)
    · exact Bool.eq_false_iff.2 fun hopens =>
        hne (hother.eq_of_opens topLevel_registryKey hopens hheader)
    · exact opens_of_registry hother (hbody line hline)
  rw [own_append hcloses, ← List.cons_append, findSection_append_of_none hfree]

def twoEntries : Text := "model_registry:\n  - name: a\n  # b\n  - name: b\n".toList

/-- What the library reads in the registry and in the block of its first entry. -/
def twoEntriesYaml : Yaml where
  load text :=
    if text = twoEntries then
      some (.map [(.scalar registryKey, .sequence [.map [(.scalar "name".toList, .scalar ['a'])],
        .map [(.scalar "name".toList, .scalar ['b'])]])])
    else if text = "model_registry:\n  - name: a\n  # b\n".toList then
      some (.map [(.scalar registryKey,
        .sequence [.map [(.scalar "name".toList, .scalar ['a'])]])])
    else none
  dump _ := []

end Blocks

end InferDeck.Gateway.ConfigYaml
