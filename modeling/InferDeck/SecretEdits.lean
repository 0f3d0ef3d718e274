import InferDeck.SecretMasking

/-!
# Secrets restored in an edited text

A submitted text in which the mask stands as the scalar of secret fields only gets the current
scalars there, and is the submitted text on every other line.
-/

namespace InferDeck.Gateway.ConfigSecrets

variable {field : Field} {inSection : Bool} {line value word : Text} {found : Spot}
variable {lines current : List Text} {fields : List Field}

/-! ### Words in lines -/

theorem infix_joinLines_iff (hword : '\n' ∉ word) (hne : word ≠ []) :
    word <:+: joinLines lines ↔ ∃ line ∈ lines, word <:+: line := by
  induction lines with
  | nil => simp [joinLines, hne]
  | cons line lines ih =>
      cases lines with
      | nil => simp [joinLines]
      | cons line' lines =>
          have hjoin : joinLines (line :: line' :: lines) =
              line ++ '\n' :: joinLines (line' :: lines) := by
            simp [joinLines, List.intercalate]
          rw [hjoin, infix_append_cons_iff hword, ih]
          simp

/-- Characters that a word does not have do not make it longer. -/
theorem infix_append_iff {before after : Text} (h : ∀ c ∈ before, c ∉ word) (hne : word ≠ []) :
    word <:+: before ++ after ↔ word <:+: after := by
  induction before with
  | nil => rfl
  | cons c before ih =>
      have hc : c ∉ word := h c List.mem_cons_self
      rw [List.cons_append, ← ih fun c hmem => h c (List.mem_cons_of_mem _ hmem),
        ← List.nil_append (c :: (before ++ after)), infix_append_cons_iff hc, List.infix_nil]
      exact or_iff_right hne

theorem not_mem_mask {c : Char} (h : isBlank c = true ∨ c = '\r' ∨ c = '#' ∨ c = ':') :
    c ∉ mask := by
  rw [isBlank, Bool.or_eq_true, beq_iff_eq, beq_iff_eq] at h
  obtain (rfl | rfl) | rfl | rfl | rfl := h <;> decide

/-! ### The line of a secret -/

theorem spot_parts (h : spot field inSection lines = some found) :
    (∃ indent blanks, found.start = indent ++ (field.key ++ ':' :: blanks) ∧
      (∀ c ∈ indent, (isBlank c || c == '\r') = true) ∧ ∀ c ∈ blanks, isBlank c = true) ∧
      (∃ text : Text, found.rest = text.drop (scalar text).length) ∧
        ∀ value, put field value inSection lines =
          lines.set found.row (found.start ++ value ++ found.rest) := by
  induction lines generalizing inSection found with
  | nil => cases h
  | cons line lines ih =>
      rw [spot_cons] at h
      cases hreading : reading field inSection line with
      | next inSection' =>
          rw [hreading] at h
          obtain ⟨below, hbelow, rfl⟩ := Option.map_eq_some_iff.1 h
          obtain ⟨hstart, hrest, hput⟩ := ih hbelow
          refine ⟨hstart, hrest, fun value => ?_⟩
          rw [put_cons, hreading]
          exact congrArg (line :: ·) (hput value)
      | here key =>
          rw [hreading] at h
          obtain rfl := Option.some.inj h
          obtain ⟨hline, -, -, hname⟩ := reading_here hreading
          obtain ⟨-, hindent, -, -⟩ := KeyLine.text_eq hline
          refine ⟨⟨key.indent, key.rest.takeWhile isBlank, ?_, hindent,
            fun c hc => of_mem_takeWhile hc⟩, ⟨key.rest.dropWhile isBlank, rfl⟩, fun value => ?_⟩
          · rw [← hname]
            exact List.append_assoc _ _ _
          · rw [put_cons, hreading]
            rfl

theorem spot_getElem (h : spot field inSection lines = some found) :
    lines[found.row]? = some (found.start ++ found.value ++ found.rest) := by
  induction lines generalizing inSection found with
  | nil => cases h
  | cons line lines ih =>
      rw [spot_cons] at h
      cases hreading : reading field inSection line with
      | next inSection' =>
          rw [hreading] at h
          obtain ⟨below, hbelow, rfl⟩ := Option.map_eq_some_iff.1 h
          exact ih hbelow
      | here key =>
          rw [hreading] at h
          obtain rfl := Option.some.inj h
          have htext := (KeyLine.text_eq (reading_here hreading).1).1
          rw [← KeyLine.put_span] at htext
          exact congrArg some htext

/-- The line of a secret has the mask in its scalar or behind it. -/
theorem mask_infix_line (hfield : field ∈ secretFields)
    (h : spot field inSection lines = some found)
    (hmask : mask <:+: found.start ++ value ++ found.rest) :
    mask <:+: value ∨ mask <:+: found.rest := by
  have hne : mask ≠ [] := by decide
  obtain ⟨⟨indent, blanks, hstart, hindent, hblanks⟩, ⟨text, hrest⟩, -⟩ := spot_parts h
  have hindent' : ∀ c ∈ indent, c ∉ mask := by
    intro c hc
    have hblank := hindent c hc
    rw [Bool.or_eq_true, beq_iff_eq] at hblank
    exact not_mem_mask (hblank.imp_right Or.inl)
  have hkey : ∀ field ∈ secretFields, ¬ mask <:+: field.key := by decide
  have hvalue : mask <:+: value ++ found.rest := by
    rw [hstart, List.append_assoc, List.append_assoc, List.append_assoc,
      infix_append_iff hindent' hne, List.cons_append,
      infix_append_cons_iff (not_mem_mask (by simp))] at hmask
    exact (infix_append_iff (fun c hc => not_mem_mask (Or.inl (hblanks c hc))) hne).1
      (hmask.resolve_left (hkey field hfield))
  obtain ⟨blanks, comment, hparts, hblanks, hcomment⟩ := after_scalar text
  rw [← hrest] at hparts
  -- what follows the scalar begins with a character that the mask does not have
  have hhead : ∀ c ∈ found.rest.head?, c ∉ mask := by
    rw [hparts]
    intro c hc
    cases blanks with
    | nil =>
        obtain rfl | ⟨more, rfl, -⟩ := hcomment
        · cases hc
        · obtain rfl := Option.some.inj hc
          exact not_mem_mask (by simp)
    | cons c' blanks =>
        obtain rfl := Option.some.inj hc
        have hblank := hblanks c' List.mem_cons_self
        rw [Bool.or_eq_true, beq_iff_eq] at hblank
        exact not_mem_mask (hblank.imp_right Or.inl)
  cases hcases : found.rest with
  | nil =>
      rw [hcases, List.append_nil] at hvalue
      exact Or.inl hvalue
  | cons c rest =>
      rw [hcases] at hvalue hhead
      rw [infix_append_cons_iff (hhead c rfl)] at hvalue
      exact hvalue.imp_right fun hwithin => hwithin.trans (List.suffix_cons _ _).isInfix

/-! ### Restoring -/

/-- The mask stands in the submitted lines only as the scalar of fields that the current ones have
too. -/
def MaskedOnly (current : List Text) (fields : List Field) (submitted : List Text) : Prop :=
  ∀ row line, submitted[row]? = some line → mask <:+: line → ∃ field ∈ fields,
    ∃ found ∈ spot field false submitted, found.row = row ∧ found.value ∈ masks ∧
      ¬ mask <:+: found.rest ∧ (get field false current).isSome = true

/-- What restoring one field does to the lines. -/
theorem restoreLine_cases (current lines : List Text) (field : Field) :
    restoreLine current lines field = lines ∧
        (∀ found ∈ spot field false lines, found.value ∈ masks →
          (get field false current).isSome = false) ∨
      ∃ found original rest, spot field false lines = some found ∧ found.value ∈ masks ∧
        get field false current = some (original, rest) ∧
        restoreLine current lines field = put field original false lines := by
  unfold restoreLine
  rw [get_eq_spot]
  cases hspot : spot field false lines with
  | none => exact Or.inl ⟨rfl, fun found hfound => by cases hfound⟩
  | some found =>
      cases hcurrent : get field false current with
      | none => exact Or.inl ⟨rfl, fun _ _ _ => rfl⟩
      | some original =>
          obtain ⟨original, rest⟩ := original
          dsimp only [Option.map_some]
          by_cases hmask : masks.contains found.value = true
          · rw [if_pos hmask]
            exact Or.inr ⟨found, original, rest, rfl, List.contains_iff_mem.1 hmask, rfl, rfl⟩
          · rw [if_neg hmask]
            refine Or.inl ⟨rfl, fun found' hfound' hvalue => ?_⟩
            obtain rfl := Option.some.inj hfound'
            exact absurd (List.contains_iff_mem.2 hvalue) hmask

theorem spot_restoreLine {field' : Field} (hne : field ≠ field') :
    spot field' false (restoreLine current lines field) = spot field' false lines := by
  obtain ⟨hline, -⟩ | ⟨found, original, rest, -, -, -, hline⟩ :=
    restoreLine_cases current lines field
  · rw [hline]
  · rw [hline, spot_put_of_apart (apart_of_ne hne)]

theorem MaskedOnly.restoreLine (h : MaskedOnly current (field :: fields) lines)
    (hfields : (field :: fields).Nodup) (hfield : field ∈ secretFields)
    (hcurrent : ∀ value rest, get field false current = some (value, rest) → ¬ mask <:+: value) :
    MaskedOnly current fields (restoreLine current lines field) := by
  have hother : ∀ field' ∈ fields,
      spot field' false (ConfigSecrets.restoreLine current lines field) =
        spot field' false lines :=
    fun field' hmem => spot_restoreLine fun heq => (List.nodup_cons.1 hfields).1 (heq ▸ hmem)
  intro row line hline hmask
  -- a line that another field accounts for in the old lines is its line in the new ones
  have hold : ∀ old, lines[row]? = some old → mask <:+: old →
      (∀ found ∈ spot field false lines, found.row = row → found.value ∈ masks →
        ¬ mask <:+: found.rest → (get field false current).isSome = true → False) →
      ∃ field' ∈ fields,
        ∃ found ∈ spot field' false (ConfigSecrets.restoreLine current lines field),
          found.row = row ∧ found.value ∈ masks ∧ ¬ mask <:+: found.rest ∧
            (get field' false current).isSome = true := by
    intro old hgetElem hwithin hnot
    obtain ⟨field', hmem, found, hfound, hrow, hvalue, hrest, hsome⟩ := h row old hgetElem hwithin
    obtain rfl | hmem := List.mem_cons.1 hmem
    · exact absurd (hnot found hfound hrow hvalue hrest hsome) not_false
    · rw [← hother field' hmem] at hfound
      exact ⟨field', hmem, found, hfound, hrow, hvalue, hrest, hsome⟩
  obtain ⟨hsame, hnone⟩ | ⟨found, original, rest, hspot, hvalue, hget, hput⟩ :=
    restoreLine_cases current lines field
  · rw [hsame] at hline
    refine hold line hline hmask fun found hfound _ hvalue _ hsome => ?_
    rw [hnone found hfound hvalue] at hsome
    cases hsome
  · rw [hput, (spot_parts hspot).2.2 original, List.getElem?_set] at hline
    split_ifs at hline with hrow hlt
    · obtain rfl := Option.some.inj hline
      have hrest : mask <:+: found.rest :=
        (mask_infix_line hfield hspot hmask).resolve_left (hcurrent original rest hget)
      have hmasks : ∀ value ∈ masks, mask <:+: value := by decide
      have hwithin : mask <:+: found.start ++ found.value ++ found.rest :=
        (hmasks found.value hvalue).trans ⟨found.start, found.rest, rfl⟩
      have hgetElem : lines[row]? = some (found.start ++ found.value ++ found.rest) := by
        rw [← hrow, spot_getElem hspot]
      refine hold _ hgetElem hwithin fun found' hfound' _ _ hclean _ => hclean ?_
      obtain rfl := Option.some.inj (hspot.symm.trans hfound')
      exact hrest
    · refine hold line hline hmask fun found' hfound' hrow' _ _ _ => hrow ?_
      obtain rfl := Option.some.inj (hspot.symm.trans hfound')
      exact hrow'

theorem maskedOnly_restoreLines (h : MaskedOnly current fields lines) (hfields : fields.Nodup)
    (hsecret : fields ⊆ secretFields)
    (hcurrent : ∀ field value rest, get field false current = some (value, rest) →
      ¬ mask <:+: value) : ∀ line ∈ restoreLines current fields lines, ¬ mask <:+: line := by
  induction fields generalizing lines with
  | nil =>
      intro line hmem hwithin
      obtain ⟨row, hrow⟩ := List.mem_iff_getElem?.1 hmem
      obtain ⟨field, hfield, -⟩ := h row line hrow hwithin
      cases hfield
  | cons field fields ih =>
      exact ih (h.restoreLine hfields (hsecret List.mem_cons_self) (hcurrent field))
        (List.nodup_cons.1 hfields).2 fun field' hmem => hsecret (List.mem_cons_of_mem _ hmem)

/-- A line on which no masked secret stands is not changed. -/
theorem getElem_restoreLines {row : Nat} (hfields : fields.Nodup)
    (h : ∀ field ∈ fields, ∀ found ∈ spot field false lines, found.value ∈ masks →
      found.row ≠ row) : (restoreLines current fields lines)[row]? = lines[row]? := by
  induction fields generalizing lines with
  | nil => rfl
  | cons field fields ih =>
      rw [List.nodup_cons] at hfields
      have hstep : (restoreLine current lines field)[row]? = lines[row]? := by
        obtain ⟨hsame, -⟩ | ⟨found, original, rest, hspot, hvalue, -, hput⟩ :=
          restoreLine_cases current lines field
        · rw [hsame]
        · rw [hput, (spot_parts hspot).2.2 original,
            List.getElem?_set_ne (h field List.mem_cons_self found hspot hvalue)]
      refine Eq.trans (ih hfields.2 fun field' hmem found hfound => ?_) hstep
      have hne : field ≠ field' := fun heq => hfields.1 (heq ▸ hmem)
      rw [spot_restoreLine hne] at hfound
      exact h field' (List.mem_cons_of_mem _ hmem) found hfound

/-- The mask is gone from an edited text where it stood as the scalar of secret fields only. -/
theorem not_mask_infix_restoreSpans {text submitted : Text} (hmask : ¬ mask <:+: text)
    (h : MaskedOnly (splitLines text) secretFields (splitLines submitted)) :
    ¬ mask <:+: restoreSpans submitted text := by
  have hbreak : '\n' ∉ mask := by decide
  have hne : mask ≠ [] := by decide
  have hcurrent : ∀ field value rest, get field false (splitLines text) = some (value, rest) →
      ¬ mask <:+: value := by
    intro field value rest hget hwithin
    rw [get_eq_spot] at hget
    obtain ⟨found, hspot, hvalue⟩ := Option.map_eq_some_iff.1 hget
    obtain ⟨rfl, rfl⟩ := Prod.mk.inj hvalue
    refine hmask ?_
    rw [← join_split text, infix_joinLines_iff hbreak hne]
    exact ⟨_, List.mem_of_getElem? (spot_getElem hspot),
      hwithin.trans ⟨found.start, found.rest, rfl⟩⟩
  rw [← join_split (restoreSpans submitted text), splitLines_restoreSpans,
    infix_joinLines_iff hbreak hne]
  rintro ⟨line, hmem, hwithin⟩
  exact maskedOnly_restoreLines h secretFields_nodup (List.Subset.refl _) hcurrent line hmem hwithin

end InferDeck.Gateway.ConfigSecrets
