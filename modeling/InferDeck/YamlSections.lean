import InferDeck.SecretMasking

/-!
# Top-level sections of a YAML text

`replace_top_level_yaml_section` puts a new value under a key without parsing the text: the section
begins at the first line with the key and ends before the next line at column zero that is no item
of a list. The lines around it stay as they are, down to the byte.
-/

namespace InferDeck.Gateway.ConfigYaml

def lines : Text → List Text
  | [] => []
  | c :: text =>
      if c = '\n' then [c] :: lines text
      else
        match lines text with
        | [] => [[c]]
        | line :: rest => (c :: line) :: rest

def content (line : Text) : Text := line.takeWhile (· ≠ '\n')

def marker (key : Text) : Text := key ++ [':']

def opens (key line : Text) : Bool := (marker key).isPrefixOf line

/-- The line is not part of the section before it. -/
def closes : Text → Bool
  | [] => false
  | c :: rest =>
      c != ' ' && c != '\t' && c != '\r' && !(c :: rest == ['-']) &&
        !(['-', ' '].isPrefixOf (c :: rest))

/-- The lines before a section, its own, and those after it. -/
structure Section (α : Type*) where
  before : List α
  own : List α
  after : List α

namespace Section

variable {α β : Type*}

def under (line : α) (found : Section α) : Section α :=
  { found with before := line :: found.before }

def map (f : α → β) (found : Section α) : Section β where
  before := found.before.map f
  own := found.own.map f
  after := found.after.map f

end Section

variable {α : Type*}

def findSection (text : α → Text) (key : Text) : List α → Option (Section α)
  | [] => none
  | line :: rest =>
      if opens key (text line) then
        some {
          before := []
          own := line :: rest.takeWhile fun line => !closes (text line)
          after := rest.dropWhile fun line => !closes (text line) }
      else (findSection text key rest).map (.under line)

def blockLines (key value : Text) : List Text :=
  if value = "[]".toList then [marker key ++ " []\n".toList]
  else (marker key ++ ['\n']) ::
    (ConfigSecrets.splitLines value).map fun line => "  ".toList ++ line ++ ['\n']

def endLine (text : Text) : Text :=
  if text ≠ [] ∧ text.getLast? ≠ some '\n' then text ++ ['\n'] else text

def addEmptyLine (text : Text) : Text := if text ≠ [] then text ++ ['\n'] else text

def replaceTopLevelYamlSection (text key value : Text) : Text :=
  let block := (blockLines key value).flatten
  match findSection content key (lines text) with
  | some found => found.before.flatten ++ block ++ found.after.flatten
  | none => addEmptyLine (endLine text) ++ block

/-- What stands under a key, up to empty lines at its end. -/
def readSection (text key : Text) : Option (List Text) :=
  (findSection id key ((lines text).map content)).map fun found =>
    found.own.rdropWhile List.isEmpty

/-- A key that a YAML mapping at column zero can have as a plain scalar. -/
structure TopLevel (key : Text) : Prop where
  nonempty : key ≠ []
  plain : ':' ∉ key ∧ '\n' ∉ key
  start : ∀ c ∈ key.head?, c ≠ ' ' ∧ c ≠ '\t' ∧ c ≠ '\r' ∧ c ≠ '-' ∧ c ≠ '#'

/-! ### Lines -/

section Lines

variable {text rest : Text}

/-- A text that is empty or ends with a line end. -/
def Ended (text : Text) : Prop := text = [] ∨ text.getLast? = some '\n'

theorem lines_ne_nil (h : text ≠ []) : lines text ≠ [] := by
  cases text with
  | nil => exact absurd rfl h
  | cons c text =>
      rw [lines]
      split_ifs
      · simp
      · split <;> simp

theorem flatten_lines (text : Text) : (lines text).flatten = text := by
  induction text with
  | nil => rfl
  | cons c text ih =>
      rw [lines]
      split_ifs
      · rw [List.flatten_cons, ih]
        rfl
      · cases hlines : lines text with
        | nil =>
            rw [hlines] at ih
            rw [← ih]
            rfl
        | cons line others =>
            rw [hlines] at ih
            rw [← ih]
            rfl

theorem lines_append (h : Ended text) : lines (text ++ rest) = lines text ++ lines rest := by
  induction text with
  | nil => rfl
  | cons c text ih =>
      have hlast : text ≠ [] → Ended text := by
        intro hne
        rcases h with hnil | hlast
        · cases hnil
        · obtain ⟨d, text, rfl⟩ := List.exists_cons_of_ne_nil hne
          exact .inr (by rwa [List.getLast?_cons_cons] at hlast)
      rw [List.cons_append, lines, lines]
      split_ifs with hc
      · have hended : Ended text := by
          by_cases hne : text = []
          · exact .inl hne
          · exact hlast hne
        rw [ih hended]
        rfl
      · have hne : text ≠ [] := by
          rintro rfl
          rcases h with hnil | hlast
          · cases hnil
          · exact hc (Option.some.inj hlast)
        rw [ih (hlast hne)]
        obtain ⟨line, others, hlines⟩ := List.exists_cons_of_ne_nil (lines_ne_nil hne)
        rw [hlines]
        rfl

/-- A line end that is missing at the end of a text changes no content. -/
theorem content_lines_snoc (hne : text ≠ []) (h : text.getLast? ≠ some '\n') :
    (lines (text ++ ['\n'])).map content = (lines text).map content := by
  induction text with
  | nil => exact absurd rfl hne
  | cons c text ih =>
      cases text with
      | nil =>
          have hc : c ≠ '\n' := fun heq => h (congrArg some heq)
          simp [lines, content, hc]
      | cons d text =>
          have hcons : d :: text ≠ [] := List.cons_ne_nil _ _
          have hsnoc : d :: text ++ ['\n'] ≠ [] := List.cons_ne_nil _ _
          have hrest := ih hcons (by rwa [List.getLast?_cons_cons] at h)
          obtain ⟨line, others, hlines⟩ := List.exists_cons_of_ne_nil (lines_ne_nil hcons)
          obtain ⟨line', others', hlines'⟩ := List.exists_cons_of_ne_nil (lines_ne_nil hsnoc)
          rw [hlines, hlines', List.map_cons, List.map_cons, List.cons.injEq] at hrest
          rw [List.cons_append, lines, lines, hlines, hlines']
          split_ifs with hc
          · simp [hrest]
          · simp only [List.map_cons, List.cons.injEq]
            refine ⟨?_, hrest.2⟩
            simp only [content, ne_eq, decide_not] at hrest ⊢
            rw [List.takeWhile_cons_of_pos (by simp [hc]),
              List.takeWhile_cons_of_pos (by simp [hc]), hrest.1]

theorem endLine_ended (text : Text) : Ended (endLine text) := by
  unfold endLine
  split_ifs with h
  · exact .inr (by simp)
  · by_cases hnil : text = []
    · exact .inl hnil
    · exact .inr (not_not.1 fun hlast => h ⟨hnil, hlast⟩)

theorem addEmptyLine_ended (h : Ended text) : Ended (addEmptyLine text) := by
  unfold addEmptyLine
  split_ifs
  · exact .inr (by simp)
  · exact h

theorem content_lines_endLine (text : Text) :
    (lines (endLine text)).map content = (lines text).map content := by
  unfold endLine
  split_ifs with h
  · exact content_lines_snoc h.1 h.2
  · rfl

/-- The contents of a text that something is about to be appended to. -/
theorem content_lines_spaced (text : Text) :
    (lines (addEmptyLine (endLine text))).map content = (lines text).map content ∨
      (lines (addEmptyLine (endLine text))).map content = (lines text).map content ++ [[]] := by
  rw [← content_lines_endLine text]
  unfold addEmptyLine
  split_ifs
  · right
    rw [lines_append (endLine_ended text), List.map_append]
    rfl
  · exact .inl rfl

end Lines

/-! ### Sections -/

section Sections

variable {β : Type*} {text : α → Text} {key other : Text} {found : Section α} {line : α}
  {ls xs ys before own after : List α}

theorem findSection_map (f : β → α) (ls : List β) :
    findSection text key (ls.map f) = (findSection (text ∘ f) key ls).map (.map f) := by
  induction ls with
  | nil => rfl
  | cons line ls ih =>
      rw [List.map_cons, findSection, findSection, ih]
      simp only [Function.comp_apply]
      split_ifs
      · simp only [Option.map_some, Section.map, List.map_cons, List.map_nil, List.takeWhile_map,
          List.dropWhile_map]
        rfl
      · cases findSection (text ∘ f) key ls <;> rfl

/-- Where a section begins, no other goes on. -/
def StartsClosed (text : α → Text) (ls : List α) : Prop := ∀ line ∈ ls.head?, closes (text line)

def OwnedBy (text : α → Text) (key : Text) (own : List α) : Prop :=
  ∃ head tail, own = head :: tail ∧ opens key (text head) = true ∧
    ∀ line ∈ tail, closes (text line) = false

theorem findSection_spec (h : findSection text key ls = some found) :
    ls = found.before ++ found.own ++ found.after ∧
      (∀ line ∈ found.before, opens key (text line) = false) ∧ OwnedBy text key found.own ∧
      StartsClosed text found.after := by
  induction ls generalizing found with
  | nil => cases h
  | cons line ls ih =>
      rw [findSection] at h
      split_ifs at h with hopens
      · obtain rfl := Option.some.inj h
        refine ⟨?_, by simp, ⟨line, _, rfl, hopens, fun l hl => ?_⟩, fun l hl => ?_⟩
        · simp
        · simpa using List.mem_takeWhile_imp hl
        · have hhead := List.head?_dropWhile_not (fun line => !closes (text line)) ls
          rw [Option.mem_def] at hl
          rw [hl] at hhead
          simpa using hhead
      · obtain ⟨rest, hrest, rfl⟩ := Option.map_eq_some_iff.1 h
        obtain ⟨hls, hbefore, hown, hafter⟩ := ih hrest
        refine ⟨?_, fun l hl => ?_, hown, hafter⟩
        · rw [hls]
          rfl
        · rcases List.mem_cons.1 hl with rfl | hl
          · exact Bool.eq_false_iff.2 hopens
          · exact hbefore l hl

theorem findSection_eq_none_iff :
    findSection text key ls = none ↔ ∀ line ∈ ls, opens key (text line) = false := by
  induction ls with
  | nil => simp [findSection]
  | cons line ls ih =>
      rw [findSection]
      split_ifs with hopens
      · simp [hopens]
      · rw [Option.map_eq_none_iff, ih, List.forall_mem_cons]
        exact ⟨fun h => ⟨Bool.eq_false_iff.2 hopens, h⟩, fun h => h.2⟩

theorem span_append (hclosed : StartsClosed text ys) :
    ((xs ++ ys).takeWhile fun line => !closes (text line)) =
        (xs.takeWhile fun line => !closes (text line)) ∧
      ((xs ++ ys).dropWhile fun line => !closes (text line)) =
        (xs.dropWhile fun line => !closes (text line)) ++ ys := by
  induction xs with
  | nil =>
      cases ys with
      | nil => exact ⟨rfl, rfl⟩
      | cons line ys => simp [hclosed line rfl]
  | cons line xs ih =>
      cases hline : closes (text line) with
      | true => simp [hline]
      | false =>
          simp only [List.cons_append, List.takeWhile_cons, List.dropWhile_cons, hline,
            Bool.not_false, if_true, List.cons.injEq, true_and]
          exact ih

theorem findSection_append (hclosed : StartsClosed text ys)
    (h : findSection text key xs = some found) :
    findSection text key (xs ++ ys) = some { found with after := found.after ++ ys } := by
  induction xs generalizing found with
  | nil => cases h
  | cons line xs ih =>
      rw [findSection] at h
      rw [List.cons_append, findSection]
      split_ifs at h ⊢ with hopens
      · obtain rfl := Option.some.inj h
        rw [(span_append hclosed).1, (span_append hclosed).2]
      · obtain ⟨rest, hrest, rfl⟩ := Option.map_eq_some_iff.1 h
        rw [ih hrest]
        rfl

theorem findSection_append_of_none (h : findSection text key xs = none) :
    (findSection text key (xs ++ ys)).map Section.own =
      (findSection text key ys).map Section.own := by
  induction xs with
  | nil => rfl
  | cons line xs ih =>
      rw [findSection] at h
      rw [List.cons_append, findSection]
      split_ifs at h ⊢ with hopens
      rw [Option.map_map]
      exact ih (Option.map_eq_none_iff.1 h)

/-- Which lines are the section's own is decided by those before and by those after. -/
theorem own_append (hclosed : StartsClosed text ys) :
    (findSection text key (xs ++ ys)).map Section.own =
      ((findSection text key xs).map Section.own).or
        ((findSection text key ys).map Section.own) := by
  cases h : findSection text key xs with
  | none => rw [findSection_append_of_none h]; rfl
  | some found => rw [findSection_append hclosed h]; rfl

theorem OwnedBy.findSection (hown : OwnedBy text key own) :
    findSection text key own = some { before := [], own, after := [] } := by
  obtain ⟨head, tail, rfl, hopens, htail⟩ := hown
  have htake : (tail.takeWhile fun line => !closes (text line)) = tail :=
    List.takeWhile_eq_self_iff.2 fun line hline => by simp [htail line hline]
  have hdrop : (tail.dropWhile fun line => !closes (text line)) = [] :=
    List.dropWhile_eq_nil_iff.2 fun line hline => by simp [htail line hline]
  rw [ConfigYaml.findSection, if_pos hopens, htake, hdrop]

theorem findSection_of (hbefore : ∀ line ∈ before, opens key (text line) = false)
    (hown : OwnedBy text key own) (hafter : StartsClosed text after) :
    findSection text key (before ++ (own ++ after)) = some { before, own, after } := by
  induction before with
  | nil => rw [List.nil_append, findSection_append hafter hown.findSection]; rfl
  | cons line before ih =>
      rw [List.cons_append, findSection, if_neg (by simp [hbefore line List.mem_cons_self]),
        ih fun l hl => hbefore l (List.mem_cons_of_mem _ hl)]
      rfl

end Sections

/-! ### Keys -/

section Keys

variable {key other line : Text}

theorem opens_iff : opens key line = true ↔ ∃ rest, line = key ++ ':' :: rest := by
  rw [opens, List.isPrefixOf_iff_prefix, marker]
  constructor
  · rintro ⟨rest, rfl⟩
    exact ⟨rest, by simp⟩
  · rintro ⟨rest, rfl⟩
    exact ⟨rest, by simp⟩

theorem TopLevel.eq_of_opens (h : TopLevel key) (hother : TopLevel other)
    (hopens : opens key line = true) (hopens' : opens other line = true) : key = other := by
  obtain ⟨rest, rfl⟩ := opens_iff.1 hopens
  obtain ⟨rest', heq⟩ := opens_iff.1 hopens'
  have htake : ∀ (name rest : Text), ':' ∉ name →
      (name ++ ':' :: rest).takeWhile (· ≠ ':') = name := by
    intro name rest hname
    have hplain : ∀ c ∈ name, decide (c ≠ ':') = true := by
      intro c hc
      rw [decide_eq_true_eq]
      rintro rfl
      exact hname hc
    rw [List.takeWhile_append_of_pos hplain]
    simp
  rw [← htake key rest h.plain.1, heq, htake other rest' hother.plain.1]

/-- A line that begins the section of a key is part of no section before it. -/
theorem TopLevel.closes_of_opens (h : TopLevel key) (hopens : opens key line = true) :
    closes line = true := by
  obtain ⟨rest, rfl⟩ := opens_iff.1 hopens
  obtain ⟨c, name, rfl⟩ := List.exists_cons_of_ne_nil h.nonempty
  obtain ⟨hblank, htab, hreturn, hdash, -⟩ := h.start c rfl
  simp [closes, List.isPrefixOf, hblank, htab, hreturn, hdash, Ne.symm hdash]

theorem content_of_plain {body : Text} (h : '\n' ∉ body) : content (body ++ ['\n']) = body := by
  have hplain : ∀ c ∈ body, decide (c ≠ '\n') = true := by
    intro c hc
    rw [decide_eq_true_eq]
    rintro rfl
    exact h hc
  rw [content, List.takeWhile_append_of_pos hplain]
  simp

/-- What is written under a key is a section of the key, with every line ended. -/
theorem blockLines_owned (h : '\n' ∉ key) (value : Text) :
    OwnedBy content key (blockLines key value) := by
  have hmarker : ∀ rest, '\n' ∉ rest →
      opens key (content (marker key ++ rest ++ ['\n'])) = true := by
    intro rest hrest
    rw [content_of_plain (by simp [marker, h, hrest]), opens_iff]
    exact ⟨rest, by simp [marker]⟩
  rw [blockLines]
  split_ifs
  · refine ⟨_, [], rfl, ?_, by simp⟩
    have hlast : " []\n".toList = " []".toList ++ ['\n'] := rfl
    rw [hlast, ← List.append_assoc]
    exact hmarker " []".toList (by decide)
  · refine ⟨_, _, rfl, ?_, fun line hline => ?_⟩
    · have hopens := hmarker [] (by simp)
      simpa using hopens
    · obtain ⟨piece, -, rfl⟩ := List.mem_map.1 hline
      rfl

/-- The value's lines hold no line end but their own. -/
theorem blockLines_ended (h : '\n' ∉ key) (value : Text) :
    ∀ line ∈ blockLines key value, ∃ body, '\n' ∉ body ∧ line = body ++ ['\n'] := by
  intro line hline
  rw [blockLines] at hline
  split_ifs at hline
  · obtain rfl := List.mem_singleton.1 hline
    have hlast : " []\n".toList = " []".toList ++ ['\n'] := rfl
    refine ⟨marker key ++ " []".toList, ?_, by rw [hlast, List.append_assoc]⟩
    simp [marker, h]
  · rcases List.mem_cons.1 hline with rfl | hline
    · exact ⟨marker key, by simp [marker, h], rfl⟩
    · obtain ⟨piece, hpiece, rfl⟩ := List.mem_map.1 hline
      refine ⟨"  ".toList ++ piece, ?_, rfl⟩
      have hfree := (ConfigSecrets.lines_splitLines value).unbroken piece hpiece
      simp [hfree]

theorem lines_of_ended {ls : List Text}
    (h : ∀ line ∈ ls, ∃ body, '\n' ∉ body ∧ line = body ++ ['\n']) (rest : Text) :
    lines (ls.flatten ++ rest) = ls ++ lines rest := by
  have hline : ∀ body : Text, '\n' ∉ body → lines (body ++ ['\n']) = [body ++ ['\n']] := by
    intro body hbody
    induction body with
    | nil => rfl
    | cons c body ih =>
        rw [List.mem_cons, not_or] at hbody
        rw [List.cons_append, lines, if_neg (Ne.symm hbody.1), ih hbody.2]
  induction ls with
  | nil => rfl
  | cons line ls ih =>
      obtain ⟨body, hbody, rfl⟩ := h line List.mem_cons_self
      rw [List.flatten_cons, List.append_assoc, lines_append (.inr (by simp)), hline body hbody,
        ih fun l hl => h l (List.mem_cons_of_mem _ hl)]
      rfl

/-- The lines of a text are ended, up to the last. -/
theorem ended_of_lines {text : Text} {before after : List Text} (h : lines text = before ++ after)
    (hafter : after ≠ []) : ∀ line ∈ before, ∃ body, '\n' ∉ body ∧ line = body ++ ['\n'] := by
  induction text generalizing before with
  | nil =>
      rw [lines] at h
      exact absurd (List.append_eq_nil_iff.1 h.symm).2 hafter
  | cons c text ih =>
      rw [lines] at h
      cases before with
      | nil => simp
      | cons line before =>
          split_ifs at h with hc
          · obtain ⟨rfl, hrest⟩ := List.cons.inj h
            intro l hl
            rcases List.mem_cons.1 hl with rfl | hl
            · exact ⟨[], by simp, by simp [hc]⟩
            · exact ih hrest l hl
          · cases hlines : lines text with
            | nil =>
                rw [hlines] at h
                obtain ⟨-, hrest⟩ := List.cons.inj h
                exact absurd (List.append_eq_nil_iff.1 hrest.symm).2 hafter
            | cons first others =>
                rw [hlines] at h
                obtain ⟨rfl, hrest⟩ := List.cons.inj h
                have hsplit : lines text = (first :: before) ++ after := by
                  rw [hlines, hrest]
                  rfl
                have hall := ih hsplit
                intro l hl
                rcases List.mem_cons.1 hl with rfl | hl
                · obtain ⟨body, hbody, rfl⟩ := hall first List.mem_cons_self
                  exact ⟨c :: body, by simp [hbody, Ne.symm hc], rfl⟩
                · exact hall l (List.mem_cons_of_mem _ hl)

theorem lines_of_suffix {text : Text} {before after : List Text}
    (h : lines text = before ++ after) : lines after.flatten = after := by
  by_cases hafter : after = []
  · rw [hafter]
    rfl
  · have hlines := lines_of_ended (ended_of_lines h hafter) after.flatten
    rw [← List.flatten_append, ← h, flatten_lines, h, List.append_cancel_left_eq] at hlines
    exact hlines.symm

end Keys

/-! ### Writing and reading -/

section Replace

variable {key other text value : Text}

theorem StartsClosed.of_owned {α : Type*} {text : α → Text} {own rest : List α}
    (h : TopLevel key) (hown : OwnedBy text key own) : StartsClosed text (own ++ rest) := by
  obtain ⟨head, tail, rfl, hopens, -⟩ := hown
  intro line hline
  obtain rfl := Option.some.inj hline
  exact h.closes_of_opens hopens

/-- No line of another key's section begins this one's. -/
theorem findSection_owned {α : Type*} {text : α → Text} {own : List α} (h : TopLevel key)
    (hother : TopLevel other) (hne : other ≠ key) (hown : OwnedBy text key own) :
    findSection text other own = none := by
  obtain ⟨head, tail, rfl, hopens, htail⟩ := hown
  refine findSection_eq_none_iff.2 fun line hline => Bool.eq_false_iff.2 fun hopens' => ?_
  rcases List.mem_cons.1 hline with rfl | hline
  · exact hne (hother.eq_of_opens h hopens' hopens)
  · exact absurd ((htail line hline).symm.trans (hother.closes_of_opens hopens')) (by simp)

theorem findSection_content (key text : Text) :
    findSection id key ((lines text).map content) =
      (findSection content key (lines text)).map (.map content) :=
  findSection_map content (lines text)

theorem readSection_eq (text key : Text) : readSection text key =
    ((findSection content key (lines text)).map Section.own).map fun own =>
      (own.map content).rdropWhile List.isEmpty := by
  rw [readSection, findSection_content, Option.map_map, Option.map_map]
  rfl

/-- An empty line at the end belongs to no value. -/
theorem own_snoc (key : Text) (contents : List Text) :
    ((findSection id key (contents ++ [[]])).map Section.own).map (List.rdropWhile List.isEmpty) =
      ((findSection id key contents).map Section.own).map (List.rdropWhile List.isEmpty) := by
  induction contents with
  | nil =>
      have hnone : opens key [] = false := by simp [opens, marker]
      simp [findSection, hnone]
  | cons line contents ih =>
      rw [List.cons_append, findSection, findSection]
      split_ifs with hopens
      · simp only [Option.map_some, Option.some.injEq]
        rw [List.takeWhile_append]
        split_ifs with hall
        · have hdropped : ∀ own : List Text, (own ++ [[]]).rdropWhile List.isEmpty =
              own.rdropWhile List.isEmpty := fun own => List.rdropWhile_concat_pos _ _ _ rfl
          have hclosed : closes (id []) = false := rfl
          simp only [List.takeWhile_cons, hclosed, Bool.not_false, if_true, List.takeWhile_nil]
          have hself : (contents.takeWhile fun line => !closes (id line)) = contents :=
            (List.takeWhile_prefix _).eq_of_length hall
          rw [hself, ← List.cons_append]
          exact hdropped _
        · rfl
      · rw [Option.map_map, Option.map_map] at ih ⊢
        rw [Option.map_map, Option.map_map]
        exact ih

theorem lines_put {before own after : List Text} (hlines : lines text = before ++ (own ++ after))
    (hown : own ≠ []) (hkey : '\n' ∉ key) :
    lines (before.flatten ++ (blockLines key value).flatten ++ after.flatten) =
      before ++ (blockLines key value ++ after) := by
  have hbefore := ended_of_lines hlines (by simp [hown])
  have hafter : lines after.flatten = after :=
    lines_of_suffix (hlines.trans (List.append_assoc before own after).symm)
  rw [List.append_assoc, lines_of_ended hbefore, lines_of_ended (blockLines_ended hkey value),
    hafter]

theorem lines_appended (hkey : '\n' ∉ key) :
    lines (addEmptyLine (endLine text) ++ (blockLines key value).flatten) =
      lines (addEmptyLine (endLine text)) ++ blockLines key value := by
  have hblock := lines_of_ended (blockLines_ended hkey value) []
  rw [List.append_nil, lines, List.append_nil] at hblock
  rw [lines_append (addEmptyLine_ended (endLine_ended text)), hblock]

theorem opens_spaced (hnone : findSection content key (lines text) = none) :
    ∀ line ∈ lines (addEmptyLine (endLine text)), opens key (content line) = false := by
  intro line hline
  have hmem : content line ∈ (lines (addEmptyLine (endLine text))).map content :=
    List.mem_map_of_mem hline
  have hfree : ∀ c ∈ (lines text).map content, opens key c = false := by
    intro c hc
    obtain ⟨l, hl, rfl⟩ := List.mem_map.1 hc
    exact findSection_eq_none_iff.1 hnone l hl
  rcases content_lines_spaced text with hsame | hsame
  · exact hfree _ (hsame ▸ hmem)
  · rw [hsame] at hmem
    rcases List.mem_append.1 hmem with hmem | hmem
    · exact hfree _ hmem
    · rw [List.mem_singleton.1 hmem]
      simp [opens, marker]

/-- The lines that stay when a section is written, where those of the old value stood between
them, or where they are all there was. -/
structure Kept (key text : Text) (before after : List Text) : Prop where
  before_free : ∀ line ∈ before, opens key (content line) = false
  after_closed : StartsClosed content after
  stays : (∃ own, lines text = before ++ (own ++ after) ∧ OwnedBy content key own) ∨
    after = [] ∧ (before.map content = (lines text).map content ∨
      before.map content = (lines text).map content ++ [[]])
  lines_eq : ∀ value, lines (replaceTopLevelYamlSection text key value) =
    before ++ (blockLines key value ++ after)
  text_eq : ∀ value, replaceTopLevelYamlSection text key value =
    before.flatten ++ (blockLines key value).flatten ++ after.flatten

theorem exists_kept (hkey : '\n' ∉ key) (text : Text) :
    ∃ before after, Kept key text before after := by
  cases hfound : findSection content key (lines text) with
  | some found =>
      obtain ⟨hlines, hbefore, hown, hafter⟩ := findSection_spec hfound
      have hsplit := hlines.trans (List.append_assoc _ _ _)
      have hne : found.own ≠ [] := by
        obtain ⟨head, tail, hcons, -⟩ := hown
        simp [hcons]
      have hvalue : ∀ value, replaceTopLevelYamlSection text key value =
          found.before.flatten ++ (blockLines key value).flatten ++ found.after.flatten := by
        intro value
        rw [replaceTopLevelYamlSection, hfound]
      exact ⟨found.before, found.after,
        { before_free := hbefore
          after_closed := hafter
          stays := .inl ⟨found.own, hsplit, hown⟩
          lines_eq := fun value => by rw [hvalue value]; exact lines_put hsplit hne hkey
          text_eq := hvalue }⟩
  | none =>
      have hvalue : ∀ value, replaceTopLevelYamlSection text key value =
          addEmptyLine (endLine text) ++ (blockLines key value).flatten := by
        intro value
        rw [replaceTopLevelYamlSection, hfound]
      exact ⟨lines (addEmptyLine (endLine text)), [],
        { before_free := opens_spaced hfound
          after_closed := by simp [StartsClosed]
          stays := .inr ⟨rfl, content_lines_spaced text⟩
          lines_eq := fun value => by
            rw [hvalue value, List.append_nil]
            exact lines_appended hkey
          text_eq := fun value => by
            rw [hvalue value, flatten_lines, List.flatten_nil, List.append_nil] }⟩

theorem replace_replace (hkey : '\n' ∉ key) (text value value' : Text) :
    replaceTopLevelYamlSection (replaceTopLevelYamlSection text key value) key value' =
      replaceTopLevelYamlSection text key value' := by
  obtain ⟨before, after, h⟩ := exists_kept hkey text
  have hfound := findSection_of h.before_free (blockLines_owned hkey value) h.after_closed
  rw [replaceTopLevelYamlSection, h.lines_eq value, hfound, h.text_eq value']

theorem content_blockLines_ne_nil (hkey : '\n' ∉ key) (value : Text) :
    ∀ line ∈ blockLines key value, content line ≠ [] := by
  obtain ⟨head, tail, hlines, hopens, -⟩ := blockLines_owned hkey value
  intro line hline
  by_cases hhead : line = head
  · rw [hhead]
    obtain ⟨rest, hrest⟩ := opens_iff.1 hopens
    simp [hrest]
  · rw [blockLines] at hlines hline
    split_ifs at hlines hline
    · obtain ⟨rfl, -⟩ := List.cons.inj hlines
      exact absurd (List.mem_singleton.1 hline) hhead
    · obtain ⟨rfl, -⟩ := List.cons.inj hlines
      rcases List.mem_cons.1 hline with rfl | hline
      · exact absurd rfl hhead
      · obtain ⟨piece, -, rfl⟩ := List.mem_map.1 hline
        exact List.cons_ne_nil _ _

theorem readSection_replace (hkey : '\n' ∉ key) (text value : Text) :
    readSection (replaceTopLevelYamlSection text key value) key =
      some ((blockLines key value).map content) := by
  obtain ⟨before, after, h⟩ := exists_kept hkey text
  have hfound := findSection_of h.before_free (blockLines_owned hkey value) h.after_closed
  rw [readSection_eq, h.lines_eq value, hfound]
  simp only [Option.map_some, Option.some.injEq]
  refine List.rdropWhile_eq_self_iff.2 fun hne hempty => ?_
  obtain ⟨line, hline, hlast⟩ := List.mem_map.1 (List.getLast_mem hne)
  exact content_blockLines_ne_nil hkey value line hline
    (hlast.trans (List.isEmpty_iff.1 hempty))

theorem readSection_replace_of_ne (hkey : TopLevel key) (hother : TopLevel other)
    (hne : other ≠ key) (text value : Text) :
    readSection (replaceTopLevelYamlSection text key value) other = readSection text other := by
  obtain ⟨before, after, h⟩ := exists_kept hkey.plain.2 text
  have hblock := blockLines_owned hkey.plain.2 value
  have hskip : ∀ own : List Text, OwnedBy content key own →
      (findSection content other (before ++ (own ++ after))).map Section.own =
        ((findSection content other before).map Section.own).or
          ((findSection content other after).map Section.own) := by
    intro own hown
    rw [own_append (.of_owned hkey hown), own_append h.after_closed,
      findSection_owned hkey hother hne hown]
    rfl
  rw [readSection_eq, readSection_eq, h.lines_eq value, hskip _ hblock]
  rcases h.stays with ⟨own, hlines, hown⟩ | ⟨rfl, hcontents⟩
  · rw [hlines, hskip own hown]
  · have hread : ∀ ls : List Text,
        (((findSection content other ls).map Section.own).map fun own =>
          (own.map content).rdropWhile List.isEmpty) =
        ((findSection id other (ls.map content)).map Section.own).map
          (List.rdropWhile List.isEmpty) := by
      intro ls
      rw [findSection_map, Option.map_map, Option.map_map, Option.map_map]
      rfl
    rw [findSection, Option.map_none, Option.or_none, hread, hread]
    rcases hcontents with hsame | hsame
    · rw [hsame]
    · rw [hsame, own_snoc]

/-- Writing a section is lawful: the value can be read back, the last one written stays, and no
other section reads any different. -/
theorem replaceTopLevelYamlSection_lawful (hkey : TopLevel key) (text value : Text) :
    readSection (replaceTopLevelYamlSection text key value) key =
        some ((blockLines key value).map content) ∧
      (∀ value', replaceTopLevelYamlSection (replaceTopLevelYamlSection text key value) key value' =
        replaceTopLevelYamlSection text key value') ∧
      ∀ other, TopLevel other → other ≠ key →
        readSection (replaceTopLevelYamlSection text key value) other = readSection text other :=
  ⟨readSection_replace hkey.plain.2 text value, replace_replace hkey.plain.2 text value,
    fun _ hother hne => readSection_replace_of_ne hkey hother hne text value⟩

/-- The keys that the gateway writes. -/
theorem topLevel_written (h : key = "auth".toList ∨ key = "model_aliases".toList) :
    TopLevel key := by
  rcases h with rfl | rfl <;> exact ⟨by decide, by decide, by simp⟩

theorem replaceTopLevelYamlSection_lawful_auth :
    readSection (replaceTopLevelYamlSection "auth:\n  token: a\n\nmodel_aliases: []".toList
        "auth".toList "token: a\nrequired: true".toList) "auth".toList =
      some ["auth:".toList, "  token: a".toList, "  required: true".toList] ∧
    readSection (replaceTopLevelYamlSection "auth:\n  token: a\n\nmodel_aliases: []".toList
        "auth".toList "token: a\nrequired: true".toList) "model_aliases".toList =
      some ["model_aliases: []".toList] := by
  have hlawful := replaceTopLevelYamlSection_lawful (topLevel_written (.inl rfl))
    "auth:\n  token: a\n\nmodel_aliases: []".toList "token: a\nrequired: true".toList
  refine ⟨hlawful.1.trans (by decide), ?_⟩
  exact (hlawful.2.2 "model_aliases".toList (topLevel_written (.inr rfl)) (by decide)).trans
    (by decide)

end Replace

end InferDeck.Gateway.ConfigYaml
