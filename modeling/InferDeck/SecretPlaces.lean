import InferDeck.BlockText
import InferDeck.SecretFields

/-!
# The scanner in a block mapping

The scanner of the secrets finds the scalar that stands at a place of the text and puts the mask
there, so that the library finds the field masked.
-/

namespace InferDeck.Gateway.ConfigSecrets

variable {field field' : Field} {inSection : Bool} {line value value' : Text}
variable {lines lines' before later : List Text} {place : Place} {found : KeyLine}

/-! ### What the scanner reads of a scalar -/

/-- Whether a quote is open behind the text, single and double ones. -/
def openQuotes (single double : Bool) (previous : Char) : Text → Bool × Bool
  | [] => (single, double)
  | c :: text =>
      let single' := if c == '\'' && !double then !single else single
      let double' := if c == '"' && !single' && previous != '\\' then !double else double
      openQuotes single' double' c text

section Uncommented

variable {single double : Bool} {previous : Char} {text : Text}

/-- The text has no comment for the scanner. -/
def Uncut (single double : Bool) (previous : Char) (text : Text) : Prop :=
  uncommented single double previous text = text

theorem uncommented_of_uncut (h : Uncut single double previous value) (text : Text) :
    uncommented single double previous (value ++ text) = value ++
      uncommented (openQuotes single double previous value).1
        (openQuotes single double previous value).2 (value.getLastD previous) text := by
  induction value generalizing single double previous with
  | nil => rfl
  | cons c value ih =>
      unfold Uncut at h
      rw [uncommented] at h
      rw [List.cons_append, uncommented, openQuotes, List.getLastD_cons]
      generalize (if c == '\'' && !double then !single else single) = single' at h ⊢
      generalize (if c == '"' && !single' && previous != '\\' then !double else double) = double'
        at h ⊢
      split_ifs at h with hcut
      rw [if_neg hcut, ih (List.cons.inj h).2, List.cons_append]

theorem uncut_cons {c : Char} (h : (c == '#' && isBlank previous) = false)
    (htext : ∀ single double, Uncut single double c text) :
    Uncut single double previous (c :: text) := by
  unfold Uncut
  rw [uncommented, if_neg, htext]
  rw [Bool.and_eq_true, Bool.and_eq_true, Bool.and_eq_true]
  rintro ⟨⟨⟨hc, -⟩, -⟩, hblank⟩
  rw [hc, hblank] at h
  cases h

/-- A plain scalar has no comment, whatever quotes it has. -/
theorem uncut_of_plain (h : plainAfter previous text = true) :
    Uncut single double previous text := by
  induction text generalizing single double previous with
  | nil => rfl
  | cons c text ih =>
      rw [plainAfter, Bool.and_eq_true, Bool.and_eq_true, Bool.not_eq_true'] at h
      refine uncut_cons ?_ fun single double => ih h.2
      rw [Bool.and_comm]
      exact h.1.1

theorem uncut_of_singleQuoted (h : singleQuoted text = true) (previous : Char) :
    Uncut true false previous text := by
  unfold Uncut
  fun_induction singleQuoted text generalizing previous with
  | case1 => rfl
  | case2 text ih => simp [uncommented, ih h]
  | case3 text => simp_all [uncommented]
  | case4 c text hdoubled hquote ih =>
      simp [uncommented, ih h, show c ≠ '\'' from hquote]

theorem uncut_of_doubleQuoted (h : doubleQuoted text = true) (previous : Char) :
    Uncut false true previous text := by
  unfold Uncut
  fun_induction doubleQuoted text generalizing previous with
  | case1 => rfl
  | case2 c text ih => simp [uncommented, ih h]
  | case3 text => simp_all [uncommented]
  | case4 c text hescape hquote ih => simp [uncommented, ih h, show c ≠ '"' from hquote]

theorem uncut_of_isScalar (h : isScalar value = true) : Uncut false false ' ' value := by
  unfold isScalar at h
  split at h
  · rfl
  · rename_i text
    exact congrArg ('\'' :: ·) (uncut_of_singleQuoted h '\'')
  · rename_i text
    exact congrArg ('"' :: ·) (uncut_of_doubleQuoted h '"')
  · rename_i c text _ _
    rw [Bool.and_eq_true] at h
    refine uncut_cons ?_ fun single double => uncut_of_plain h.2
    have hc : c ≠ '#' := by
      rintro rfl
      exact Bool.false_ne_true h.1
    rw [beq_false_of_ne hc, Bool.false_and]

end Uncommented

section Fits

variable {text : Text} {c : Char}

theorem getLast_of_plain (h : plainAfter c text = true) :
    isBlank ((c :: text).getLast (List.cons_ne_nil _ _)) = false := by
  induction text generalizing c with
  | nil =>
      rw [plainAfter, Bool.and_eq_true, Bool.not_eq_true'] at h
      exact h.1
  | cons c' text ih =>
      rw [plainAfter, Bool.and_eq_true] at h
      rw [List.getLast_cons (List.cons_ne_nil _ _)]
      exact ih h.2

theorem getLast_of_singleQuoted (h : singleQuoted text = true) (c : Char) :
    (c :: text).getLast (List.cons_ne_nil _ _) = '\'' := by
  fun_induction singleQuoted text generalizing c with
  | case1 => cases h
  | case2 text ih =>
      rw [List.getLast_cons (List.cons_ne_nil _ _), List.getLast_cons (List.cons_ne_nil _ _)]
      exact ih h '\''
  | case3 text =>
      obtain rfl := List.isEmpty_iff.1 h
      rfl
  | case4 c' text _ _ ih =>
      rw [List.getLast_cons (List.cons_ne_nil _ _)]
      exact ih h c'

theorem getLast_of_doubleQuoted (h : doubleQuoted text = true) (c : Char) :
    (c :: text).getLast (List.cons_ne_nil _ _) = '"' := by
  fun_induction doubleQuoted text generalizing c with
  | case1 => cases h
  | case2 c' text ih =>
      rw [List.getLast_cons (List.cons_ne_nil _ _), List.getLast_cons (List.cons_ne_nil _ _)]
      exact ih h c'
  | case3 text =>
      obtain rfl := List.isEmpty_iff.1 h
      rfl
  | case4 c' text _ _ ih =>
      rw [List.getLast_cons (List.cons_ne_nil _ _)]
      exact ih h c'

/-- A scalar ends with no blank, and begins with none. -/
theorem isBlank_getLast (h : isScalar value = true) : ∀ c ∈ value.getLast?, isBlank c = false := by
  unfold isScalar at h
  split at h
  · rintro c ⟨⟩
  · rename_i text
    rintro c ⟨⟩
    rw [getLast_of_singleQuoted h]
    rfl
  · rename_i text
    rintro c ⟨⟩
    rw [getLast_of_doubleQuoted h]
    rfl
  · rename_i text _ _
    rw [Bool.and_eq_true] at h
    rintro c ⟨⟩
    exact getLast_of_plain h.2

theorem isBlank_head (h : isScalar value = true) : ∀ c ∈ value.head?, isBlank c = false := by
  unfold isScalar at h
  split at h
  · rintro c ⟨⟩
  · rintro c ⟨⟩
    rfl
  · rintro c ⟨⟩
    rfl
  · rename_i c text _ _
    rintro c ⟨⟩
    unfold plainStart at h
    simp only [Bool.and_eq_true, Bool.not_eq_true'] at h
    exact h.1.1.1

/-- The scanner reads a scalar back, unless a quote is open where a comment follows or a blank
follows an empty one. -/
theorem fits_of_scalar {after : Text} (hvalue : Scalar value) (hafter : Trailing after)
    (hempty : value = [] → ∀ c ∈ after.head?, isBlank c = false)
    (hclosed : '#' ∈ after → openQuotes false false ' ' value = (false, false)) :
    Fits value after := by
  obtain ⟨blanks, comment, rfl, hblanks, hcomment⟩ := hafter
  have hlast : ∀ c ∈ value.getLast?, (isBlank c || c == '\r') = false := by
    intro c hc
    have hmem : c ∈ value := List.mem_of_mem_getLast? hc
    rw [isBlank_getLast hvalue.isScalar c hc, beq_false_of_ne (hvalue.unbroken c hmem).2]
    rfl
  have huncommented :
      uncommented false false ' ' (value ++ (blanks ++ comment)) = value ++ blanks := by
    rw [uncommented_of_uncut (uncut_of_isScalar hvalue.isScalar), uncommented_blanks hblanks]
    obtain rfl | ⟨hhead, hblank⟩ := hcomment
    · rw [uncommented, List.append_nil]
    · cases comment with
      | nil => cases hhead
      | cons c comment =>
          obtain rfl := Option.some.inj hhead
          have hopen := hclosed (List.mem_append_right _ List.mem_cons_self)
          obtain ⟨last, hlast, hblank⟩ := hblank
          have hlast : blanks.getLastD (value.getLastD ' ') = last := by
            rw [List.getLastD_eq_getLast?, hlast]
            rfl
          rw [hopen, hlast, uncommented_comment hblank, List.append_nil]
  refine ⟨?_, ?_⟩
  · rw [scalar, huncommented, trimEnd_append hblanks hlast]
  · cases value with
    | nil => exact hempty rfl
    | cons c value => exact fun c hc => isBlank_head hvalue.isScalar c hc

end Fits

/-! ### Lines around a place -/

/-- A key that the scanner compares with the text before the colon. -/
def plainKey (name : Text) : Bool := !name.contains ':' && name.head?.any Char.isAlpha

theorem plainKey_of_secret (h : field ∈ secretFields) :
    plainKey field.section_ = true ∧ plainKey field.key = true := by
  revert field
  decide

section Keys

variable {indent name rest : Text}

theorem plain_head (h : plainKey name = true) :
    ∃ c more, name = c :: more ∧ (isBlank c || c == '\r') = false ∧ c ≠ '#' ∧ c ≠ ' ' := by
  rw [plainKey, Bool.and_eq_true] at h
  cases name with
  | nil => cases h.2
  | cons c more =>
      have hne : ∀ c', c'.isAlpha = false → c ≠ c' := by
        rintro _ hc rfl
        exact Bool.false_ne_true (hc.symm.trans h.2)
      refine ⟨c, more, rfl, ?_, hne '#' (by decide), hne ' ' (by decide)⟩
      rw [isBlank, beq_false_of_ne (hne ' ' (by decide)), beq_false_of_ne (hne '\t' (by decide)),
        beq_false_of_ne (hne '\r' (by decide))]
      rfl

theorem keyLine_plain (hindent : ∀ c ∈ indent, (isBlank c || c == '\r') = true)
    (hname : plainKey name = true) (rest : Text) :
    keyLine (indent ++ (name ++ ':' :: rest)) = some ⟨indent, name, rest⟩ := by
  obtain ⟨c, more, rfl, hblank, hcomment, -⟩ := plain_head hname
  have hcolon : ∀ c' ∈ c :: more, (c' != ':') = true := by
    intro c' hmem
    rw [bne_iff_ne]
    rintro rfl
    rw [plainKey, List.contains_iff_mem.2 hmem] at hname
    cases hname
  have hbody : ∀ c' ∈ (c :: more ++ ':' :: rest).head?, (isBlank c' || c' == '\r') = false := by
    rintro _ ⟨⟩
    exact hblank
  unfold keyLine
  rw [List.takeWhile_append_of_pos hindent, List.dropWhile_append_of_pos hindent,
    takeWhile_of_head hbody, dropWhile_of_head hbody]
  dsimp only
  rw [if_neg, List.takeWhile_append_of_pos hcolon, List.dropWhile_append_of_pos hcolon]
  · simp
  · simp [hcomment]

theorem keyLine_of_skipped (h : skipped line = true) : keyLine line = none := by
  unfold skipped at h
  unfold keyLine
  dsimp only
  generalize line.dropWhile (fun c => isBlank c || c == '\r') = body at h ⊢
  rw [if_pos]
  cases body with
  | nil => exact Or.inr List.not_mem_nil
  | cons c body =>
      obtain rfl : c = '#' := beq_iff_eq.1 h
      exact Or.inl rfl

/-- A line that does not begin with the section's key leaves the scanner outside. -/
theorem reading_before (h : ¬ field.section_ ++ [':'] <+: line) :
    reading field false line = .next false := by
  unfold reading
  cases hline : keyLine line with
  | none => rfl
  | some found =>
      dsimp only
      by_cases hindent : found.indent = []
      · rw [if_pos hindent]
        refine congrArg Reading.next (beq_false_of_ne fun hname => h ?_)
        rw [(KeyLine.text_eq hline).1, hindent, hname]
        exact ⟨found.rest, by simp⟩
      · rw [if_neg hindent, if_neg (by simp)]

theorem keyLine_margin (h : plainKey name = true) (rest : Text) :
    keyLine (name ++ ':' :: rest) = some ⟨[], name, rest⟩ :=
  keyLine_plain (List.forall_mem_nil _) h rest

theorem reading_heading (h : plainKey field.section_ = true) (inSection : Bool) (heading : Text) :
    reading field inSection (field.section_ ++ ':' :: heading) = .next true := by
  unfold reading
  rw [keyLine_margin h]
  dsimp only
  rw [if_pos rfl, beq_self_eq_true]

end Keys

theorem spot_append (h : ∀ line ∈ before, reading field inSection line = .next inSection) :
    spot field inSection (before ++ lines) = (spot field inSection lines).map fun found =>
      { found with row := before.length + found.row } := by
  induction before with
  | nil =>
      rw [List.nil_append]
      cases spot field inSection lines with
      | none => rfl
      | some found =>
          rw [Option.map_some, List.length_nil, Nat.zero_add]
  | cons line before ih =>
      rw [List.cons_append, spot_cons, h line List.mem_cons_self]
      dsimp only
      rw [ih fun line hline => h line (List.mem_cons_of_mem _ hline), Option.map_map]
      refine congrArg (fun f => Option.map f _) (funext fun found => ?_)
      rw [Function.comp, Spot.down, List.length_cons, Nat.add_right_comm]

theorem put_append (h : ∀ line ∈ before, reading field inSection line = .next inSection) :
    put field value inSection (before ++ lines) = before ++ put field value inSection lines := by
  induction before with
  | nil => rfl
  | cons line before ih =>
      rw [List.cons_append, put_cons, h line List.mem_cons_self]
      exact congrArg (line :: ·) (ih fun line hline => h line (List.mem_cons_of_mem _ hline))

/-- Where the scanner stops in a section whose earlier lines it passes over. -/
theorem spot_section {heading child : Text} {between : List Text}
    (hsection : plainKey field.section_ = true)
    (hbefore : ∀ line ∈ before, reading field false line = .next false)
    (hbetween : ∀ line ∈ between, reading field true line = .next true)
    (hchild : reading field true child = .here found) :
    spot field false (before ++ (field.section_ ++ ':' :: heading) :: (between ++ child :: later)) =
      some ⟨before.length + (between.length + 1), (found.span []).start, (found.span []).value,
        (found.span []).rest⟩ := by
  rw [spot_append hbefore, spot_cons, reading_heading hsection]
  dsimp only
  rw [spot_append hbetween, spot_cons, hchild]
  rfl

theorem put_section {heading child : Text} {between : List Text}
    (hsection : plainKey field.section_ = true)
    (hbefore : ∀ line ∈ before, reading field false line = .next false)
    (hbetween : ∀ line ∈ between, reading field true line = .next true)
    (hchild : reading field true child = .here found) :
    put field value false
        (before ++ (field.section_ ++ ':' :: heading) :: (between ++ child :: later)) =
      before ++ (field.section_ ++ ':' :: heading) :: (between ++ found.put value :: later) := by
  rw [put_append hbefore, put_cons, reading_heading hsection]
  dsimp only
  rw [put_append hbetween, put_cons, hchild]

namespace Place

/-- The scanner comes to the place, and reads the scalar there as it stands: no earlier line of the
section begins with the key, an empty scalar has no blank behind it, and no quote is open where a
comment follows. -/
structure Read (place : Place) (field : Field) (value : Text) : Prop where
  first : ∀ line ∈ place.between, ∀ found ∈ keyLine line, found.name ≠ field.key
  empty : value = [] → ∀ c ∈ place.after.head?, isBlank c = false
  closed : '#' ∈ place.after → openQuotes false false ' ' value = (false, false)

def keyLine (place : Place) (field : Field) (value : Text) : KeyLine :=
  ⟨place.indent, field.key, place.blanks ++ (value ++ place.after)⟩

/-- The keys before the place are indented. -/
theorem Direct.indented (h : place.Direct field) :
    ∀ line ∈ place.between, ∀ found ∈ ConfigSecrets.keyLine line, found.indent ≠ [] := by
  intro line hmem found hline
  obtain ⟨htext, -, -, c, hhead, hblank, -⟩ := KeyLine.text_eq hline
  obtain hskipped | ⟨more, rfl⟩ := h.between line hmem
  · rw [keyLine_of_skipped hskipped] at hline
    cases hline
  · obtain ⟨hne, hspaces⟩ := h.indent
    intro hnil
    rw [hnil, List.nil_append] at htext
    cases hindent : place.indent with
    | nil => exact hne hindent
    | cons c' indent =>
        have hc := hspaces c' (by rw [hindent]; exact List.mem_cons_self)
        have hfirst := hhead found.rest
        rw [← htext, hindent] at hfirst
        obtain rfl := Option.some.inj hfirst
        rw [hc] at hblank
        cases hblank

theorem Direct.reading_between (h : place.Direct field) (hread : place.Read field value) :
    ∀ line ∈ place.between, reading field true line = .next true := by
  intro line hmem
  unfold reading
  cases hline : ConfigSecrets.keyLine line with
  | none => rfl
  | some found =>
      dsimp only
      rw [if_neg (h.indented line hmem found hline), if_neg]
      rw [Bool.true_and, beq_iff_eq]
      exact hread.first line hmem found hline

theorem Direct.keyLine_line (h : place.Direct field) (hkey : plainKey field.key = true)
    (value : Text) : ConfigSecrets.keyLine (place.line field value) =
      some (place.keyLine field value) :=
  keyLine_plain (fun c hc => by rw [h.indent.2 c hc]; rfl) hkey _

theorem Direct.reading_line (h : place.Direct field) (hkey : plainKey field.key = true)
    (value : Text) :
    reading field true (place.line field value) = .here (place.keyLine field value) :=
  reading_of_here (h.keyLine_line hkey value) h.indent.1 rfl

theorem Direct.span_keyLine (h : place.Direct field) (hfits : Fits value place.after) :
    (place.keyLine field value).span [] =
      ⟨[], place.indent ++ field.key ++ ':' :: place.blanks, value, place.after, []⟩ := by
  have hdrop : (place.keyLine field value).rest.dropWhile isBlank = value ++ place.after := by
    change (place.blanks ++ (value ++ place.after)).dropWhile isBlank = _
    rw [List.dropWhile_append_of_pos h.blanks.2, dropWhile_of_head hfits.2]
  have htake : (place.keyLine field value).rest.takeWhile isBlank = place.blanks := by
    change (place.blanks ++ (value ++ place.after)).takeWhile isBlank = _
    rw [List.takeWhile_append_of_pos h.blanks.2, takeWhile_of_head hfits.2, List.append_nil]
  unfold KeyLine.span
  dsimp only
  rw [hdrop, htake, hfits.1, List.drop_left]
  rfl

theorem Direct.put_keyLine (h : place.Direct field) (hfits : Fits value place.after)
    (value' : Text) : (place.keyLine field value).put value' = place.line field value' := by
  rw [KeyLine.put, h.span_keyLine hfits, line]
  simp

theorem Direct.reading_before (h : place.Direct field) :
    ∀ line ∈ place.before, reading field false line = .next false :=
  fun line hline => ConfigSecrets.reading_before (h.before line hline)

/-- The scanner finds the scalar of the place. -/
theorem Direct.spot_lines (h : place.Direct field) (hread : place.Read field value)
    (hvalue : Scalar value) (hfield : field ∈ secretFields) :
    spot field false (place.lines field value) =
      some ⟨place.before.length + (place.between.length + 1),
        place.indent ++ field.key ++ ':' :: place.blanks, value, place.after⟩ := by
  obtain ⟨hsection, hkey⟩ := plainKey_of_secret hfield
  have hfits := fits_of_scalar hvalue h.after hread.empty hread.closed
  rw [lines, spot_section hsection h.reading_before (h.reading_between hread)
    (h.reading_line hkey value), h.span_keyLine hfits]

theorem Direct.get_lines (h : place.Direct field) (hread : place.Read field value)
    (hvalue : Scalar value) (hfield : field ∈ secretFields) :
    get field false (place.lines field value) = some (value, place.after) := by
  rw [get_eq_spot, h.spot_lines hread hvalue hfield]
  rfl

/-- The scanner puts another scalar there. -/
theorem Direct.put_lines (h : place.Direct field) (hread : place.Read field value)
    (hvalue : Scalar value) (hfield : field ∈ secretFields) (value' : Text) :
    put field value' false (place.lines field value) = place.lines field value' := by
  obtain ⟨hsection, hkey⟩ := plainKey_of_secret hfield
  have hfits := fits_of_scalar hvalue h.after hread.empty hread.closed
  rw [lines, put_section hsection h.reading_before (h.reading_between hread)
    (h.reading_line hkey value), h.put_keyLine hfits]
  rfl

end Place

end InferDeck.Gateway.ConfigSecrets
