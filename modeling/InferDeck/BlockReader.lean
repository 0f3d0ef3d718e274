import InferDeck.MaskedPlaces

/-!
# A reader of block mappings

A loader of configuration texts that are sections of scalars, which exchanges scalars as the library
is assumed to.
-/

namespace InferDeck.Gateway.ConfigSecrets

namespace BlockReader

inductive Row where
  | skip
  | section_ (name : Text)
  | entry (key : Text) (node : Node)

def plainPart (previous : Char) : Text → Text
  | [] => []
  | c :: text => if c == '#' && isBlank previous then [] else c :: plainPart c text

def readScalar (text : Text) : Option Node :=
  match text with
  | '"' :: text =>
      let word := text.takeWhile (· != '"')
      if text.contains '"' && !word.contains '\\' && skipped (text.drop (word.length + 1)) then
        some (.scalar word)
      else none
  | text =>
      match trimEnd (plainPart ' ' text) with
      | [] => some .null
      | c :: value =>
          if c != '\'' && plainStart c value && plainAfter c value then some (.scalar (c :: value))
          else none

def row (line : Text) : Option Row :=
  if skipped line then some .skip
  else (keyLine line).bind fun found =>
    if found.indent = [] then if skipped found.rest then some (.section_ found.name) else none
    else if found.rest.head?.all isBlank then
      (readScalar (found.rest.dropWhile isBlank)).map (.entry found.name)
    else none

def assemble : List Row → List (Node × Node) × List (Node × Node)
  | [] => ([], [])
  | .skip :: rows => assemble rows
  | .section_ name :: rows => ([], (.scalar name, .map (assemble rows).1) :: (assemble rows).2)
  | .entry key node :: rows => ((.scalar key, node) :: (assemble rows).1, (assemble rows).2)

def load (text : Text) : Option Node :=
  ((splitLines text).mapM row).bind fun rows =>
    if (assemble rows).1.isEmpty then some (.map (assemble rows).2) else none

variable {field : Field} {place : Place} {value word : Text} {rows before between later : List Row}
variable {node node' : Node}

/-! ### Sections of rows -/

theorem assemble_append (h : (assemble later).1 = []) : assemble (before ++ later) =
    ((assemble before).1, (assemble before).2 ++ (assemble later).2) := by
  induction before with
  | nil => exact Prod.ext h rfl
  | cons row before ih =>
      cases row with
      | skip => rw [List.cons_append, assemble, assemble, ih]
      | section_ name => rw [List.cons_append, assemble, assemble, ih]; rfl
      | entry key node => rw [List.cons_append, assemble, assemble, ih]

def Entries (rows : List Row) : Prop := ∀ name, Row.section_ name ∉ rows

theorem assemble_entries (h : Entries between) : assemble (between ++ rows) =
    ((assemble between).1 ++ (assemble rows).1, (assemble rows).2) := by
  induction between with
  | nil => rfl
  | cons row between ih =>
      have hbetween : Entries between := fun name hmem => h name (List.mem_cons_of_mem _ hmem)
      cases row with
      | skip => rw [List.cons_append, assemble, assemble, ih hbetween]
      | section_ name => exact absurd List.mem_cons_self (h name)
      | entry key node => rw [List.cons_append, assemble, assemble, ih hbetween]; rfl

/-- The sections around the node of an entry. -/
theorem assemble_section (before later : List Row) (h : Entries between) (name key : Text) :
    ∃ sections fields fields' sections', ∀ node,
      assemble (before ++ .section_ name :: (between ++ .entry key node :: later)) =
        ((assemble before).1, sections ++
          (.scalar name, .map (fields ++ (.scalar key, node) :: fields')) :: sections') := by
  refine ⟨(assemble before).2, (assemble between).1, (assemble later).1, (assemble later).2,
    fun node => ?_⟩
  rw [assemble_append rfl, assemble, assemble_entries h, assemble]

end BlockReader

namespace Node

variable {field : Field} {word : Text}

theorem setEntry_of_ne {entry : Node × Node} (h : entry.1 ≠ .scalar field.key) :
    setEntry field field.section_ word entry = entry := by
  unfold setEntry
  split
  · rename_i key node
    rw [if_neg]
    exact fun heq => h (congrArg (fun field : Field => Node.scalar field.key) heq)
  · rfl

theorem setSection_of_ne {entry : Node × Node} (h : entry.1 ≠ .scalar field.section_) :
    setSection field word entry = entry := by
  unfold setSection
  split
  · rename_i section_ fields
    have hfields : ∀ entry ∈ fields, setEntry field section_ word entry = entry := by
      intro entry _
      unfold setEntry
      split
      · rw [if_neg]
        rintro rfl
        exact h rfl
      · rfl
    rw [List.map_congr_left hfields, List.map_id']
  · rfl

/-- In distinct mappings the field is changed where it stands. -/
theorem setField_eq {sections fields fields' sections' : List (Node × Node)} {node : Node}
    (h : (Node.map (sections ++ (.scalar field.section_,
      .map (fields ++ (.scalar field.key, node) :: fields')) :: sections')).Distinct) :
    (Node.map (sections ++ (.scalar field.section_,
      .map (fields ++ (.scalar field.key, node) :: fields')) :: sections')).setField field word =
    .map (sections ++ (.scalar field.section_,
      .map (fields ++ (.scalar field.key, .scalar word) :: fields')) :: sections') := by
  have hothers : ∀ {entries entries' : List (Node × Node)} {name node : Node},
      ((entries ++ (name, node) :: entries').map Prod.fst).Nodup →
        (∀ entry ∈ entries, entry.1 ≠ name) ∧ ∀ entry ∈ entries', entry.1 ≠ name := by
    intro entries entries' name node hnodup
    rw [List.map_append, List.map_cons, List.nodup_middle, List.nodup_cons, List.mem_append,
      not_or] at hnodup
    constructor
    · rintro entry hmem rfl
      exact hnodup.1.1 (List.mem_map.2 ⟨entry, hmem, rfl⟩)
    · rintro entry hmem rfl
      exact hnodup.1.2 (List.mem_map.2 ⟨entry, hmem, rfl⟩)
  obtain ⟨hsections, hsections'⟩ := hothers h.sections
  obtain ⟨hfields, hfields'⟩ := hothers (h.fields _ _ (List.mem_append_right _ List.mem_cons_self))
  have hentries : (fields ++ (.scalar field.key, node) :: fields').map
      (setEntry field field.section_ word) =
        fields ++ (.scalar field.key, .scalar word) :: fields' := by
    rw [List.map_append, List.map_cons,
      List.map_congr_left fun entry hmem => setEntry_of_ne (hfields entry hmem),
      List.map_congr_left fun entry hmem => setEntry_of_ne (hfields' entry hmem),
      List.map_id', List.map_id', setEntry, if_pos rfl]
  rw [setField, List.map_append, List.map_cons,
    List.map_congr_left fun entry hmem => setSection_of_ne (hsections entry hmem),
    List.map_congr_left fun entry hmem => setSection_of_ne (hsections' entry hmem),
    List.map_id', List.map_id', setSection, hentries]

end Node

namespace BlockReader

variable {field : Field} {place : Place} {value word text : Text}

/-! ### Rows of a place -/

theorem skipped_of_trailing (h : Trailing text) : skipped text = true := by
  obtain ⟨blanks, comment, rfl, hblanks, hcomment⟩ := h
  unfold skipped
  rw [List.dropWhile_append_of_pos hblanks]
  obtain rfl | ⟨hhead, -⟩ := hcomment
  · rfl
  · cases comment with
    | nil => rfl
    | cons c comment =>
        obtain rfl := Option.some.inj hhead
        rfl

theorem skipped_plain {indent name : Text} (hindent : ∀ c ∈ indent, (isBlank c || c == '\r') = true)
    (hname : plainKey name = true) (rest : Text) :
    skipped (indent ++ (name ++ ':' :: rest)) = false := by
  obtain ⟨c, more, rfl, hblank, hcomment, -⟩ := plain_head hname
  unfold skipped
  rw [List.dropWhile_append_of_pos hindent, dropWhile_of_head]
  · exact beq_false_of_ne hcomment
  · rintro _ ⟨⟩
    exact hblank

theorem row_heading (hname : plainKey field.section_ = true) (h : Trailing place.heading) :
    row (field.section_ ++ ':' :: place.heading) = some (.section_ field.section_) := by
  have hskipped : skipped (field.section_ ++ ':' :: place.heading) = false :=
    skipped_plain (List.forall_mem_nil _) hname place.heading
  rw [row, hskipped, keyLine_margin hname]
  simp [skipped_of_trailing h]

theorem row_line (hkey : plainKey field.key = true) (h : place.Direct field) (value : Text) :
    row (place.line field value) =
      (readScalar ((place.blanks ++ (value ++ place.after)).dropWhile isBlank)).map
        (.entry field.key) := by
  have hindent : ∀ c ∈ place.indent, (isBlank c || c == '\r') = true :=
    fun c hc => by rw [h.indent.2 c hc]; rfl
  have hblank : (place.blanks ++ (value ++ place.after)).head?.all isBlank = true := by
    obtain ⟨hne, hblanks⟩ := h.blanks
    cases hhead : place.blanks with
    | nil => exact absurd hhead hne
    | cons c blanks => exact hblanks c (by rw [hhead]; exact List.mem_cons_self)
  rw [row, Place.line, skipped_plain hindent hkey, keyLine_plain hindent hkey, if_neg (by simp),
    Option.bind_some, if_neg h.indent.1, if_pos hblank]

theorem readScalar_quoted (hword : Quotable word) (h : skipped text = true) :
    readScalar (quoted word ++ text) = some (.scalar word) := by
  have hquote : ∀ c ∈ word, (c != '"') = true := by
    intro c hc
    rw [bne_iff_ne]
    rintro rfl
    exact absurd (hword _ hc) (by decide)
  have hescape : word.contains '\\' = false := by
    rw [← Bool.not_eq_true, List.contains_iff_mem]
    exact fun hc => absurd (hword _ hc) (by decide)
  have htake : (word ++ '"' :: text).takeWhile (· != '"') = word := by
    rw [List.takeWhile_append_of_pos hquote]
    simp
  have hdrop : (word ++ '"' :: text).drop (word.length + 1) = text := by
    rw [← List.drop_drop, List.drop_left]
    rfl
  have htext : quoted word ++ text = '"' :: (word ++ '"' :: text) := by simp [quoted]
  rw [htext, readScalar, htake, hdrop, hescape, h]
  simp

theorem row_indented {line : Text} {found : Row} (h : ∀ found ∈ keyLine line, found.indent ≠ [])
    (hrow : row line = some found) (name : Text) : found ≠ .section_ name := by
  rintro rfl
  unfold row at hrow
  split_ifs at hrow with hskipped
  · cases hrow
  obtain ⟨key, hkey, hrow⟩ := Option.bind_eq_some_iff.1 hrow
  rw [if_neg (h key hkey)] at hrow
  split_ifs at hrow
  obtain ⟨node, -, hnode⟩ := Option.map_eq_some_iff.1 hrow
  cases hnode

section Rows

variable {line : Text} {lines lines' : List Text} {rows : List Row}

theorem mapM_cons_some (h : (line :: lines).mapM row = some rows) : ∃ first rest,
    row line = some first ∧ lines.mapM row = some rest ∧ rows = first :: rest := by
  rw [List.mapM_cons] at h
  obtain ⟨first, hfirst, h⟩ := Option.bind_eq_some_iff.1 h
  obtain ⟨rest, hrest, h⟩ := Option.bind_eq_some_iff.1 h
  exact ⟨first, rest, hfirst, hrest, (Option.some.inj h).symm⟩

theorem mapM_append_some (h : (lines ++ lines').mapM row = some rows) : ∃ first rest,
    lines.mapM row = some first ∧ lines'.mapM row = some rest ∧ rows = first ++ rest := by
  rw [List.mapM_append] at h
  obtain ⟨first, hfirst, h⟩ := Option.bind_eq_some_iff.1 h
  obtain ⟨rest, hrest, h⟩ := Option.bind_eq_some_iff.1 h
  exact ⟨first, rest, hfirst, hrest, (Option.some.inj h).symm⟩

end Rows

theorem entries_of_indented {lines : List Text} {rows : List Row}
    (h : ∀ line ∈ lines, ∀ found ∈ keyLine line, found.indent ≠ [])
    (hrows : lines.mapM row = some rows) : Entries rows := by
  induction lines generalizing rows with
  | nil =>
      obtain rfl := Option.some.inj hrows
      exact fun _ => List.not_mem_nil
  | cons line lines ih =>
      obtain ⟨first, rest, hfirst, hrest, rfl⟩ := mapM_cons_some hrows
      intro name hmem
      obtain heq | hmem := List.mem_cons.1 hmem
      · exact row_indented (h line List.mem_cons_self) hfirst name heq.symm
      · exact ih (fun line hline => h line (List.mem_cons_of_mem _ hline)) hrest name hmem

/-- The rows around the entry of a place do not depend on its scalar. -/
theorem mapM_lines (h : place.Direct field) (hfield : field ∈ secretFields) (hword : Quotable word)
    {rows : List Row} (hrows : (place.lines field value).mapM row = some rows) :
    ∃ before between later node, Entries between ∧
      rows = before ++ .section_ field.section_ :: (between ++ .entry field.key node :: later) ∧
      (place.lines field (quoted word)).mapM row = some (before ++
        .section_ field.section_ :: (between ++ .entry field.key (.scalar word) :: later)) := by
  obtain ⟨hsection, hkey⟩ := plainKey_of_secret hfield
  have hheading := row_heading hsection h.heading
  have hquoted : row (place.line field (quoted word)) = some (.entry field.key (.scalar word)) := by
    have hblank : ∀ c ∈ (quoted word ++ place.after).head?, isBlank c = false := by
      rintro _ ⟨⟩
      rfl
    rw [row_line hkey h, List.dropWhile_append_of_pos h.blanks.2, dropWhile_of_head hblank,
      readScalar_quoted hword (skipped_of_trailing h.after)]
    rfl
  obtain ⟨before, rows₁, hbefore, hrows₁, rfl⟩ := mapM_append_some hrows
  obtain ⟨heading, rows₂, hfirst, hrows₂, rfl⟩ := mapM_cons_some hrows₁
  obtain rfl := Option.some.inj (hheading.symm.trans hfirst)
  obtain ⟨between, rows₃, hbetween, hrows₃, rfl⟩ := mapM_append_some hrows₂
  obtain ⟨child, later, hchild, hlater, rfl⟩ := mapM_cons_some hrows₃
  rw [row_line hkey h] at hchild
  obtain ⟨node, -, rfl⟩ := Option.map_eq_some_iff.1 hchild
  refine ⟨before, between, later, node, entries_of_indented h.indented hbetween, rfl, ?_⟩
  rw [Place.lines, List.mapM_append, hbefore, List.mapM_cons, hheading, List.mapM_append, hbetween,
    List.mapM_cons, hquoted, hlater]
  rfl

theorem unbroken_lines {place : Place} (hword : Quotable word)
    (h : ∀ line ∈ place.lines field value, '\n' ∉ line) :
    ∀ line ∈ place.lines field (quoted word), '\n' ∉ line := by
  have hquoted : '\n' ∉ quoted word := by
    simp only [quoted, List.cons_append, List.mem_cons, List.mem_append, List.not_mem_nil, or_false,
      not_or]
    exact ⟨by decide, fun hmem => absurd (hword _ hmem) (by decide), by decide⟩
  intro line hmem
  simp only [Place.lines, List.mem_append, List.mem_cons] at h hmem
  obtain hmem | hmem | hmem | hmem | hmem := hmem
  · exact h line (Or.inl hmem)
  · exact h line (Or.inr (Or.inl hmem))
  · exact h line (Or.inr (Or.inr (Or.inl hmem)))
  · have hline := h _ (Or.inr (Or.inr (Or.inr (Or.inl rfl))))
    rw [hmem]
    simp only [Place.line, List.mem_append, List.mem_cons, not_or] at hline ⊢
    exact ⟨hline.1, hline.2.1, hline.2.2.1, hline.2.2.2.1, hquoted, hline.2.2.2.2.2⟩
  · exact h line (Or.inr (Or.inr (Or.inr (Or.inr hmem))))

end BlockReader

def blockYaml : Yaml where
  load := BlockReader.load
  dump _ := []

open BlockReader in
theorem blockMappings_blockYaml : BlockMappings blockYaml := by
  refine ⟨fun field hfield place value word root hdirect _ hword hblock hload hdistinct _ => ?_⟩
  have hsplit : ∀ value, (∀ line ∈ place.lines field value, '\n' ∉ line) →
      splitLines (joinLines (place.lines field value)) = place.lines field value :=
    fun value hlines => split_join ⟨by simp [Place.lines], hlines⟩
  change BlockReader.load _ = _ at hload
  change BlockReader.load _ = _
  rw [BlockReader.load, hsplit value hblock.unbroken] at hload
  rw [BlockReader.load, hsplit _ (unbroken_lines hword hblock.unbroken)]
  obtain ⟨rows, hrows, hroot⟩ := Option.bind_eq_some_iff.1 hload
  obtain ⟨before, between, later, node, hentries, rfl, hquoted⟩ :=
    mapM_lines hdirect hfield hword hrows
  obtain ⟨sections, fields, fields', sections', hsections⟩ :=
    assemble_section before later hentries field.section_ field.key
  rw [hsections] at hroot
  rw [hquoted, Option.bind_some, hsections]
  dsimp only at hroot ⊢
  split_ifs at hroot ⊢ with hempty
  obtain rfl := Option.some.inj hroot
  rw [Node.setField_eq hdistinct]

end InferDeck.Gateway.ConfigSecrets
