import InferDeck.SecretFields

/-!
# Secrets survive masking and restoring

`mask_config_secrets` and `restore_config_secrets` write one field of a text after the other, so that
restoring a masked text gives it back wherever the scanner and the YAML library agree on it.
-/

namespace InferDeck.Gateway.ConfigSecrets

variable {field : Field} {inSection : Bool} {line value value' rest : Text}
variable {found : KeyLine} {lines : List Text}

/-! ### Texts as lines -/

structure Lines (lines : List Text) : Prop where
  nonempty : lines ≠ []
  unbroken : ∀ line ∈ lines, '\n' ∉ line

theorem lines_splitLines (text : Text) : Lines (splitLines text) := by
  refine ⟨List.splitOn_ne_nil _ _, ?_⟩
  unfold splitLines
  induction text with
  | nil =>
      intro line hline
      rw [List.splitOn_nil, List.mem_singleton] at hline
      rw [hline]
      exact List.not_mem_nil
  | cons c text ih =>
      rw [List.splitOn_cons_eq_if_modifyHead]
      by_cases hc : c = '\n'
      · rw [if_pos (beq_iff_eq.2 hc)]
        intro line hline
        obtain rfl | hline := List.mem_cons.1 hline
        · exact List.not_mem_nil
        · exact ih line hline
      · rw [if_neg (mt beq_iff_eq.1 hc)]
        cases hlines : text.splitOn '\n' with
        | nil => exact absurd hlines (List.splitOn_ne_nil _ _)
        | cons first lines =>
            rw [hlines] at ih
            intro line hline
            obtain rfl | hline := List.mem_cons.1 hline
            · rw [List.mem_cons, not_or]
              exact ⟨Ne.symm hc, ih first List.mem_cons_self⟩
            · exact ih line (List.mem_cons_of_mem _ hline)

theorem split_join (h : Lines lines) : splitLines (joinLines lines) = lines :=
  List.splitOn_intercalate '\n' h.unbroken h.nonempty

theorem join_split (text : Text) : joinLines (splitLines text) = text :=
  List.intercalate_splitOn '\n'

/-- The parts of an unbroken key line are unbroken. -/
theorem KeyLine.unbroken (h : keyLine line = some found) (hline : '\n' ∉ line) :
    '\n' ∉ (found.span []).value ∧ ∀ value, '\n' ∉ value → '\n' ∉ found.put value := by
  rw [(KeyLine.text_eq h).1] at hline
  simp only [List.mem_append, List.mem_cons, not_or] at hline
  obtain ⟨hindent, hname, hcolon, hrest⟩ := hline
  have htext : '\n' ∉ found.rest.dropWhile isBlank :=
    fun hmem => hrest ((List.dropWhile_suffix _).subset hmem)
  have hparts : '\n' ∉ scalar (found.rest.dropWhile isBlank) ++ (found.span []).rest := by
    change '\n' ∉ scalar _ ++ (found.rest.dropWhile isBlank).drop _
    rw [scalar_append]
    exact htext
  rw [List.mem_append, not_or] at hparts
  refine ⟨hparts.1, fun value hvalue => ?_⟩
  rw [KeyLine.put_eq]
  simp only [List.mem_append, List.mem_cons, not_or]
  exact ⟨hindent, hname, hcolon, fun hmem => hrest ((List.takeWhile_prefix _).subset hmem), hvalue,
    hparts.2⟩

theorem put_unbroken (h : ∀ line ∈ lines, '\n' ∉ line) (hvalue : '\n' ∉ value) :
    ∀ line ∈ put field value inSection lines, '\n' ∉ line := by
  induction lines generalizing inSection with
  | nil => exact h
  | cons first lines ih =>
      have hlines : ∀ line ∈ lines, '\n' ∉ line :=
        fun line hline => h line (List.mem_cons_of_mem _ hline)
      intro line hline
      rw [put_cons] at hline
      cases hreading : reading field inSection first with
      | next inSection' =>
          rw [hreading] at hline
          obtain rfl | hline := List.mem_cons.1 hline
          · exact h line List.mem_cons_self
          · exact ih hlines line hline
      | here found =>
          rw [hreading] at hline
          obtain rfl | hline := List.mem_cons.1 hline
          · exact (KeyLine.unbroken (reading_here hreading).1 (h first List.mem_cons_self)).2
              value hvalue
          · exact hlines line hline

theorem Lines.put (h : Lines lines) (hvalue : '\n' ∉ value) :
    Lines (put field value inSection lines) := by
  refine ⟨?_, put_unbroken h.unbroken hvalue⟩
  cases lines with
  | nil => exact absurd rfl h.nonempty
  | cons line lines =>
      rw [put_cons]
      cases reading field inSection line with
      | next inSection' => exact List.cons_ne_nil _ _
      | here found => exact List.cons_ne_nil _ _

theorem get_unbroken (h : ∀ line ∈ lines, '\n' ∉ line)
    (hget : get field inSection lines = some (value, rest)) : '\n' ∉ value := by
  induction lines generalizing inSection with
  | nil => cases hget
  | cons line lines ih =>
      rw [get_cons] at hget
      cases hreading : reading field inSection line with
      | next inSection' =>
          rw [hreading] at hget
          exact ih (fun line hline => h line (List.mem_cons_of_mem _ hline)) hget
      | here found =>
          rw [hreading] at hget
          obtain ⟨rfl, rfl⟩ := Prod.mk.inj (Option.some.inj hget)
          exact (KeyLine.unbroken (reading_here hreading).1 (h line List.mem_cons_self)).1

/-! ### Masking and restoring lines -/

def maskLines (fields : List Field) (lines : List Text) : List Text :=
  fields.foldl (fun lines field => put field quotedMask false lines) lines

def restoreLine (current lines : List Text) (field : Field) : List Text :=
  match get field false lines, get field false current with
  | some (value, _), some (original, _) =>
      if masks.contains value then put field original false lines else lines
  | _, _ => lines

def restoreLines (current : List Text) (fields : List Field) (lines : List Text) : List Text :=
  fields.foldl (restoreLine current) lines

variable {fields : List Field}

theorem get_maskLines (h : field ∉ fields) (lines : List Text) :
    get field false (maskLines fields lines) = get field false lines := by
  induction fields generalizing lines with
  | nil => rfl
  | cons other fields ih =>
      rw [List.mem_cons, not_or] at h
      change get field false (maskLines fields (put other quotedMask false lines)) = _
      rw [ih h.2, get_put_of_apart (apart_of_ne (Ne.symm h.1))]

theorem put_maskLines (h : field ∉ fields) (lines : List Text) :
    put field value false (maskLines fields lines) =
      maskLines fields (put field value false lines) := by
  induction fields generalizing lines with
  | nil => rfl
  | cons other fields ih =>
      rw [List.mem_cons, not_or] at h
      change put field value false (maskLines fields (put other quotedMask false lines)) =
        maskLines fields (put other quotedMask false (put field value false lines))
      rw [ih h.2, put_comm (apart_of_ne (Ne.symm h.1))]

/-- The mask can be read back wherever the scanner finds one of the fields. -/
def MaskFits (fields : List Field) (lines : List Text) : Prop :=
  ∀ field ∈ fields, ∀ value rest, get field false lines = some (value, rest) → Fits quotedMask rest

/-- The mask fits the fields of a text where none of them begins with a comment. -/
theorem maskFits_of_lines (h : ∀ field ∈ fields, ∀ value rest,
    get field false lines = some (value, rest) → rest.head? ≠ some '#') : MaskFits fields lines := by
  intro field hfield value rest hget
  obtain ⟨text, rfl⟩ := rest_of_get hget
  exact fits_quotedMask (h field hfield value _ hget)

theorem restoreLines_maskLines (hnodup : fields.Nodup) (hfits : MaskFits fields lines) :
    restoreLines lines fields (maskLines fields lines) = lines := by
  induction fields with
  | nil => rfl
  | cons field fields ih =>
      rw [List.nodup_cons] at hnodup
      have hrest := ih hnodup.2 fun other hother => hfits other (List.mem_cons_of_mem _ hother)
      have hstep : restoreLine lines (maskLines fields (put field quotedMask false lines)) field =
          maskLines fields lines := by
        unfold restoreLine
        rw [get_maskLines hnodup.1]
        cases hget : get field false lines with
        | none =>
            rw [put_of_get_none hget, hget]
        | some found =>
            obtain ⟨value, rest⟩ := found
            have hfit := hfits field List.mem_cons_self value rest hget
            rw [get_put hget hfit]
            dsimp only
            rw [if_pos (by decide), put_maskLines hnodup.1, put_put hget hfit, put_get hget]
      change restoreLines lines fields (restoreLine lines
        (maskLines fields (put field quotedMask false lines)) field) = lines
      rw [hstep]
      exact hrest

/-- What was found of a masked field is the mask. -/
theorem get_maskLines_of_mem (hnodup : fields.Nodup) (hfits : MaskFits fields lines)
    (hfield : field ∈ fields) (hget : get field false lines = some (value, rest)) :
    get field false (maskLines fields lines) = some (quotedMask, rest) := by
  induction fields generalizing lines value with
  | nil => cases hfield
  | cons other fields ih =>
      rw [List.nodup_cons] at hnodup
      change get field false (maskLines fields (put other quotedMask false lines)) = _
      by_cases hsame : field = other
      · subst hsame
        rw [get_maskLines hnodup.1]
        exact get_put hget (hfits field List.mem_cons_self value rest hget)
      · have hapart : Apart other false field false := apart_of_ne (Ne.symm hsame)
        refine ih hnodup.2 (fun f hf v r hf' => ?_)
          ((List.mem_cons.1 hfield).resolve_left hsame) ((get_put_of_apart hapart).trans hget)
        have hne : other ≠ f := fun h => hnodup.1 (h ▸ hf)
        rw [get_put_of_apart (apart_of_ne hne)] at hf'
        exact hfits f (List.mem_cons_of_mem _ hf) v r hf'

/-- The masked lines do not depend on the scalar of a masked field. -/
theorem maskLines_put (hnodup : fields.Nodup) (hfield : field ∈ fields)
    (hget : get field false lines = some (value', rest)) (hfits : Fits value rest) :
    maskLines fields (put field value false lines) = maskLines fields lines := by
  induction fields generalizing lines with
  | nil => cases hfield
  | cons other fields ih =>
      rw [List.nodup_cons] at hnodup
      change maskLines fields (put other quotedMask false (put field value false lines)) =
        maskLines fields (put other quotedMask false lines)
      by_cases hsame : field = other
      · subst hsame
        rw [put_put hget hfits]
      · rw [put_comm (apart_of_ne hsame)]
        refine ih hnodup.2 ((List.mem_cons.1 hfield).resolve_left hsame) ?_
        rw [get_put_of_apart (apart_of_ne (Ne.symm hsame))]
        exact hget

/-! ### Masking and restoring texts -/

theorem splitLines_replaceScalar (h : '\n' ∉ value) (text : Text) (field : Field) :
    splitLines (replaceScalar value text field) = put field value false (splitLines text) := by
  have hput : replaceScalar value text field = joinLines (put field value false (splitLines text)) := by
    unfold replaceScalar put yamlScalarSpan
    cases scanLines field false (splitLines text) with
    | none => exact (join_split text).symm
    | some span => rfl
  rw [hput, split_join ((lines_splitLines text).put h)]

theorem splitLines_maskSpans (text : Text) :
    splitLines (maskSpans text) = maskLines secretFields (splitLines text) := by
  have hfold : ∀ (fields : List Field) (text : Text),
      splitLines (fields.foldl (replaceScalar quotedMask) text) =
        maskLines fields (splitLines text) := by
    intro fields
    induction fields with
    | nil => exact fun _ => rfl
    | cons field fields ih =>
        intro text
        rw [List.foldl_cons, ih, splitLines_replaceScalar (by decide)]
        rfl
  exact hfold secretFields text

theorem splitLines_restoreScalar (submitted current : Text) (field : Field) :
    splitLines (restoreScalar current submitted field) =
      restoreLine (splitLines current) (splitLines submitted) field := by
  unfold restoreScalar restoreLine get yamlScalarSpan
  cases hspan : scanLines field false (splitLines submitted) with
  | none => rfl
  | some span =>
      cases horiginal : scanLines field false (splitLines current) with
      | none => rfl
      | some original =>
          dsimp only [Option.map_some]
          by_cases hmask : masks.contains span.value = true
          · have hget : get field false (splitLines current) =
                some (original.value, original.rest) := by
              unfold get
              rw [horiginal]
              rfl
            have hvalue := get_unbroken (lines_splitLines current).unbroken hget
            have hput : put field original.value false (splitLines submitted) =
                span.lines original.value := by
              unfold put
              rw [hspan]
            rw [if_pos hmask, if_pos hmask, ScalarSpan.replace, ← hput,
              split_join ((lines_splitLines submitted).put hvalue)]
          · rw [if_neg hmask, if_neg hmask]

theorem splitLines_restoreSpans (submitted current : Text) :
    splitLines (restoreSpans submitted current) =
      restoreLines (splitLines current) secretFields (splitLines submitted) := by
  have hfold : ∀ (fields : List Field) (submitted : Text),
      splitLines (fields.foldl (restoreScalar current) submitted) =
        restoreLines (splitLines current) fields (splitLines submitted) := by
    intro fields
    induction fields with
    | nil => exact fun _ => rfl
    | cons field fields ih =>
        intro submitted
        rw [List.foldl_cons, ih, splitLines_restoreScalar]
        rfl
  exact hfold secretFields submitted

theorem eq_of_splitLines {text text' : Text} (h : splitLines text = splitLines text') :
    text = text' := by
  rw [← join_split text, h, join_split]

/-- A field that no masked scalar is restored of keeps its scalar. -/
theorem get_restoreLines {current : List Text}
    (h : ∀ value ∈ masks, ∀ rest, field ∈ fields → get field false lines ≠ some (value, rest)) :
    get field false (restoreLines current fields lines) = get field false lines := by
  induction fields generalizing lines with
  | nil => rfl
  | cons other fields ih =>
      have hstep : get field false (restoreLine current lines other) = get field false lines := by
        unfold restoreLine
        split
        · rename_i value rest original rest' hget _
          split_ifs with hmask
          · refine get_put_of_apart (apart_of_ne fun hsame => ?_)
            subst hsame
            exact h value (List.contains_iff_mem.1 hmask) rest List.mem_cons_self hget
          · rfl
        · rfl
      change get field false (restoreLines current fields (restoreLine current lines other)) = _
      rw [ih, hstep]
      intro value hvalue rest hmem
      rw [hstep]
      exact h value hvalue rest (List.mem_cons_of_mem _ hmem)

theorem secretFields_nodup : secretFields.Nodup := by decide

theorem put_ne_blank (h : lines ≠ [[]]) : put field value inSection lines ≠ [[]] := by
  cases lines with
  | nil => simp [put, scanLines]
  | cons line lines =>
      rw [put_cons]
      cases hreading : reading field inSection line with
      | next inSection' =>
          dsimp only
          cases lines with
          | nil => exact h
          | cons second lines =>
              rw [put_cons]
              cases reading field inSection' second with
              | next inSection'' => simp
              | here found => simp
      | here found =>
          dsimp only
          rw [KeyLine.put_eq]
          simp

theorem maskLines_ne_blank (h : lines ≠ [[]]) : maskLines fields lines ≠ [[]] := by
  induction fields generalizing lines with
  | nil => exact h
  | cons field fields ih => exact ih (put_ne_blank h)

theorem maskSpans_ne_nil {text : Text} (h : text ≠ []) : maskSpans text ≠ [] := by
  have hlines : splitLines text ≠ [[]] := fun hblank => h (eq_of_splitLines hblank)
  intro hnil
  have hmasked := splitLines_maskSpans text
  rw [hnil] at hmasked
  exact maskLines_ne_blank hlines hmasked.symm

end InferDeck.Gateway.ConfigSecrets
