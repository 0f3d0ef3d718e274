import InferDeck.SecretPlaces
import InferDeck.SecretMasking

/-!
# Masked places

The places of the other secrets stay where they are when one of them is masked, so that the library
finds all of them masked in the end.
-/

namespace InferDeck.Gateway.ConfigSecrets

variable {field field' : Field} {inSection : Bool} {line line' value : Text}
variable {lines lines' before later : List Text} {place : Place}

/-! ### Another scalar elsewhere -/

/-- The indented line with something else behind the colon of its key. -/
structure Changed (line line' : Text) (indent key rest rest' : Text) : Prop where
  blank : indent ≠ [] ∧ ∀ c ∈ indent, (isBlank c || c == '\r') = true
  plain : plainKey key = true
  old : line = indent ++ (key ++ ':' :: rest)
  new : line' = indent ++ (key ++ ':' :: rest')
  returns : '\r' ∉ line.dropLast → '\r' ∉ line'.dropLast

def Alike (line line' : Text) : Prop :=
  line' = line ∨ ∃ indent key rest rest', Changed line line' indent key rest rest'

theorem continues_append {spaces text : Text} {c : Char} (hc : c ≠ '-') :
    continues spaces (spaces ++ c :: text) = isBlank c := by
  have hbegins : spaces.isPrefixOf (spaces ++ c :: text) = true :=
    List.isPrefixOf_iff_prefix.2 (List.prefix_append _ _)
  unfold continues
  rw [hbegins, List.drop_left, Bool.true_and]
  split
  · rename_i h
    exact absurd (List.cons.inj h).1 hc
  · rename_i h
    exact absurd (List.cons.inj h).1 hc
  · rename_i h
    rw [(List.cons.inj h).1]
  · rename_i h
    cases h

namespace Changed

variable {indent key rest rest' spaces : Text}

theorem parts (h : Changed line line' indent key rest rest') : ∃ c more, key = c :: more ∧
    (isBlank c || c == '\r') = false ∧ c ≠ '#' ∧ c ≠ ' ' ∧
      ∃ text text', line = indent ++ c :: text ∧ line' = indent ++ c :: text' := by
  obtain ⟨c, more, rfl, hblank, hcomment, hspace⟩ := plain_head h.plain
  exact ⟨c, more, rfl, hblank, hcomment, hspace, _, _, h.old, h.new⟩

theorem skipped_eq (h : Changed line line' indent key rest rest') :
    skipped line' = skipped line := by
  obtain ⟨c, more, rfl, hblank, hcomment, hspace, text, text', hline, hline'⟩ := h.parts
  have hdrop : ∀ text : Text, (indent ++ c :: text).dropWhile (fun c => isBlank c || c == '\r') =
      c :: text := by
    intro text
    rw [List.dropWhile_append_of_pos h.blank.2, dropWhile_of_head]
    rintro _ ⟨⟩
    exact hblank
  unfold skipped
  rw [hline, hline', hdrop, hdrop]
  rfl

theorem startsKey_eq (h : Changed line line' indent key rest rest') :
    startsKey line' = startsKey line := by
  obtain ⟨c, more, rfl, hblank, hcomment, hspace, text, text', hline, hline'⟩ := h.parts
  have hhead : ∀ text : Text, ((indent ++ c :: text).dropWhile (· == ' ')).head? =
      ((indent ++ [c]).dropWhile (· == ' ')).head? := by
    intro text
    clear hline hline' h
    induction indent with
    | nil => simp [hspace]
    | cons c' indent ih =>
        by_cases hc : c' = ' '
        · simpa [hc] using ih
        · simp [hc]
  unfold startsKey
  rw [hline, hline', hhead, hhead text]

theorem prefix_spaces (h : Changed line line' indent key rest rest')
    (hspaces : ∀ c ∈ spaces, c = ' ') (hbegins : spaces <+: line) : spaces <+: line' := by
  obtain ⟨c, more, rfl, -, -, hspace, text, text', hline, hline'⟩ := h.parts
  have hc : c ∉ spaces := fun hmem => hspace (hspaces c hmem)
  rw [hline, prefix_append_cons_iff hc] at hbegins
  rw [hline', prefix_append_cons_iff hc]
  exact hbegins

theorem continues_eq (h : Changed line line' indent key rest rest')
    (hspaces : ∀ c ∈ spaces, c = ' ') (hline : continues spaces line = false) :
    continues spaces line' = false := by
  obtain ⟨c, more, rfl, hblank, -, hspace, text, text', hold, hnew⟩ := h.parts
  by_cases hbegins : spaces <+: indent
  · obtain ⟨deeper, rfl⟩ := hbegins
    rw [hold, List.append_assoc] at hline
    rw [hnew, List.append_assoc]
    cases deeper with
    | nil =>
        have hdash : c ≠ '-' := by
          rintro rfl
          have hplain := h.plain
          rw [plainKey, Bool.and_eq_true] at hplain
          have halpha : '-'.isAlpha = true := hplain.2
          cases halpha
        rw [List.nil_append, continues_append hdash]
        rw [Bool.or_eq_false_iff] at hblank
        exact hblank.1
    | cons c' deeper =>
        have hdash : c' ≠ '-' := by
          rintro rfl
          cases h.blank.2 '-' (by simp)
        rw [List.cons_append, continues_append hdash] at hline ⊢
        exact hline
  · have hbegins' : ¬ spaces <+: line' := by
      rw [hnew, prefix_append_cons_iff fun hmem => hspace (hspaces c hmem)]
      exact hbegins
    unfold continues
    rw [Bool.and_eq_false_iff]
    refine Or.inl ?_
    rw [← Bool.not_eq_true, List.isPrefixOf_iff_prefix]
    exact hbegins'

theorem not_begins (h : Changed line line' indent key rest rest') {c : Char} {text : Text}
    (hc : (isBlank c || c == '\r') = false) : ¬ c :: text <+: line' := by
  rw [h.new]
  cases hindent : indent with
  | nil => exact absurd hindent h.blank.1
  | cons c' indent' =>
      intro hbegins
      obtain ⟨rfl, -⟩ := List.cons_prefix_cons.1 hbegins
      have hblank := h.blank.2 c (by rw [hindent]; exact List.mem_cons_self)
      exact Bool.false_ne_true (hc.symm.trans hblank)

theorem keyLine_eq (h : Changed line line' indent key rest rest') :
    ∀ found ∈ keyLine line', ∃ found' ∈ keyLine line, found'.name = found.name := by
  rw [h.old, h.new, keyLine_plain h.blank.2 h.plain, keyLine_plain h.blank.2 h.plain]
  rintro _ ⟨⟩
  exact ⟨_, rfl, rfl⟩

end Changed

/-- The lines differ behind the colons of plain keys only. -/
def AlikeLines (lines lines' : List Text) : Prop := List.Forall₂ Alike lines lines'

theorem returns_put {start value' rest : Text} (hvalue : '\r' ∉ value')
    (hstart : '\r' ∈ start → '\r' ∈ (start ++ value ++ rest).dropLast)
    (hline : '\r' ∉ (start ++ value ++ rest).dropLast) :
    '\r' ∉ (start ++ value' ++ rest).dropLast := by
  intro hmem
  by_cases hrest : rest = []
  · rw [hrest, List.append_nil] at hmem
    rcases List.mem_append.1 (List.dropLast_subset _ hmem) with h | h
    · exact hline (hstart h)
    · exact hvalue h
  · rw [List.dropLast_append_of_ne_nil hrest] at hmem hline
    rcases List.mem_append.1 hmem with h | h
    · rcases List.mem_append.1 h with h | h
      · exact hline (List.mem_append_left _ (List.mem_append_left _ h))
      · exact hvalue h
    · exact hline (List.mem_append_right _ h)

theorem put_alike (hfield : field ∈ secretFields) (hvalue : '\r' ∉ value) :
    AlikeLines lines (put field value inSection lines) := by
  have hrefl : ∀ lines : List Text, AlikeLines lines lines :=
    fun lines => List.forall₂_same.2 fun _ _ => Or.inl rfl
  induction lines generalizing inSection with
  | nil => exact List.Forall₂.nil
  | cons line lines ih =>
      rw [put_cons]
      cases hreading : reading field inSection line with
      | next inSection' => exact List.Forall₂.cons (Or.inl rfl) ih
      | here found =>
          obtain ⟨hline, hindent, -, hname⟩ := reading_here hreading
          obtain ⟨htext, hblank, -, -⟩ := KeyLine.text_eq hline
          refine List.Forall₂.cons (Or.inr ⟨found.indent, found.name, found.rest, _,
            ⟨hindent, hblank⟩, ?_, htext, KeyLine.put_eq value found, fun hreturns => ?_⟩)
            (hrefl lines)
          · rw [hname]
            exact (plainKey_of_secret hfield).2
          · have hparts : (found.span []).start ++ (found.span []).value ++ (found.span []).rest =
                found.indent ++ (found.name ++ ':' :: found.rest) := KeyLine.put_span found
            rw [htext, ← hparts] at hreturns
            refine returns_put hvalue (fun hstart => ?_) hreturns
            rw [hparts, ← List.append_assoc, List.dropLast_append_of_ne_nil (List.cons_ne_nil _ _)]
            refine List.mem_append_left _ ?_
            obtain hstart | hstart := List.mem_append.1 hstart
            · exact hstart
            · obtain hcolon | hblanks := List.mem_cons.1 hstart
              · cases hcolon
              · cases of_mem_takeWhile hblanks

namespace Alike

theorem skipped_eq (h : Alike line line') : skipped line' = skipped line := by
  obtain rfl | ⟨indent, key, rest, rest', h⟩ := h
  · rfl
  · exact h.skipped_eq

theorem startsKey_eq (h : Alike line line') : startsKey line' = startsKey line := by
  obtain rfl | ⟨indent, key, rest, rest', h⟩ := h
  · rfl
  · exact h.startsKey_eq

theorem prefix_spaces {spaces : Text} (h : Alike line line') (hspaces : ∀ c ∈ spaces, c = ' ')
    (hbegins : spaces <+: line) : spaces <+: line' := by
  obtain rfl | ⟨indent, key, rest, rest', h⟩ := h
  · exact hbegins
  · exact h.prefix_spaces hspaces hbegins

theorem continues_eq {spaces : Text} (h : Alike line line') (hspaces : ∀ c ∈ spaces, c = ' ')
    (hline : continues spaces line = false) : continues spaces line' = false := by
  obtain rfl | ⟨indent, key, rest, rest', h⟩ := h
  · exact hline
  · exact h.continues_eq hspaces hline

theorem not_begins {c : Char} {text : Text} (h : Alike line line')
    (hc : (isBlank c || c == '\r') = false) (hline : ¬ c :: text <+: line) :
    ¬ c :: text <+: line' := by
  obtain rfl | ⟨indent, key, rest, rest', h⟩ := h
  · exact hline
  · exact h.not_begins hc

theorem keyLine_eq (h : Alike line line') :
    ∀ found ∈ keyLine line', ∃ found' ∈ keyLine line, found'.name = found.name := by
  obtain rfl | ⟨indent, key, rest, rest', h⟩ := h
  · exact fun found hfound => ⟨found, hfound, rfl⟩
  · exact h.keyLine_eq

theorem returns (h : Alike line line') (hline : '\r' ∉ line.dropLast) : '\r' ∉ line'.dropLast := by
  obtain rfl | ⟨indent, key, rest, rest', h⟩ := h
  · exact hline
  · exact h.returns hline

/-- A line at the margin stays as it is. -/
theorem eq_of_head {c : Char} {text : Text} (h : Alike (c :: text) line')
    (hc : (isBlank c || c == '\r') = false) : line' = c :: text := by
  obtain heq | ⟨indent, key, rest, rest', h⟩ := h
  · exact heq
  · have hold := h.old
    cases hindent : indent with
    | nil => exact absurd hindent h.blank.1
    | cons c' indent' =>
        rw [hindent] at hold
        obtain ⟨rfl, -⟩ := List.cons.inj hold
        have hblank := h.blank.2 c (by rw [hindent]; exact List.mem_cons_self)
        exact absurd (hc.symm.trans hblank) Bool.false_ne_true

/-- A line with a plain key keeps its indentation and the key. -/
theorem keyLine_of_plain {indent key rest : Text} (h : Alike (indent ++ (key ++ ':' :: rest)) line')
    (hindent : ∀ c ∈ indent, (isBlank c || c == '\r') = true) (hkey : plainKey key = true) :
    ∃ rest', keyLine line' = some ⟨indent, key, rest'⟩ := by
  obtain rfl | ⟨indent', key', rest₁, rest₂, h⟩ := h
  · exact ⟨rest, keyLine_plain hindent hkey rest⟩
  · have hold := keyLine_plain hindent hkey rest
    rw [h.old, keyLine_plain h.blank.2 h.plain] at hold
    obtain ⟨rfl, rfl, -⟩ := KeyLine.mk.inj (Option.some.inj hold)
    exact ⟨rest₂, by rw [h.new, keyLine_plain hindent hkey]⟩

end Alike

namespace AlikeLines

theorem append (h : AlikeLines (before ++ later) lines') : ∃ before' later',
    lines' = before' ++ later' ∧ AlikeLines before before' ∧ AlikeLines later later' := by
  refine ⟨lines'.take before.length, lines'.drop before.length,
    (List.take_append_drop _ _).symm, ?_, ?_⟩
  · have htake := List.forall₂_take before.length h
    rwa [List.take_left] at htake
  · have hdrop := List.forall₂_drop before.length h
    rwa [List.drop_left] at hdrop

theorem mem (h : AlikeLines lines lines') : ∀ line' ∈ lines', ∃ line ∈ lines, Alike line line' := by
  induction h with
  | nil => exact fun _ hmem => by cases hmem
  | cons hline hlines ih =>
      intro line' hmem
      obtain rfl | hmem := List.mem_cons.1 hmem
      · exact ⟨_, List.mem_cons_self, hline⟩
      · obtain ⟨line, hmem, halike⟩ := ih line' hmem
        exact ⟨line, List.mem_cons_of_mem _ hmem, halike⟩

theorem find (h : AlikeLines lines lines') :
    ∀ line' ∈ lines'.find? (!skipped ·), ∃ line ∈ lines.find? (!skipped ·), Alike line line' := by
  induction h with
  | nil => exact fun _ hmem => by cases hmem
  | @cons line line' lines lines' hline hlines ih =>
      rw [List.find?_cons, List.find?_cons, hline.skipped_eq]
      cases skipped line with
      | true => exact ih
      | false =>
          rintro _ ⟨⟩
          exact ⟨line, rfl, hline⟩

end AlikeLines

theorem BlockStyle.alike (h : BlockStyle lines) (halike : AlikeLines lines lines')
    (hlines' : ∀ line ∈ lines', '\n' ∉ line) : BlockStyle lines' := by
  refine ⟨hlines', fun line' hmem => ?_, fun line' hmem => ?_, fun line' hmem => ?_⟩
  · obtain ⟨line, hmem, hline⟩ := halike.mem line' hmem
    obtain ⟨hdashes, hdots⟩ := h.unmarked line hmem
    exact ⟨hline.not_begins rfl hdashes, hline.not_begins rfl hdots⟩
  · obtain ⟨line, hmem, hline⟩ := halike.mem line' hmem
    exact hline.returns (h.returns line hmem)
  · obtain ⟨line, hmem, hline⟩ := halike.find line' hmem
    obtain ⟨hkey, hmargin⟩ := h.block line hmem
    refine ⟨hline.startsKey_eq.trans hkey, ?_⟩
    cases line with
    | nil =>
        obtain rfl | ⟨indent, key, rest, rest', hchanged⟩ := hline
        · exact hmargin
        · have hold := hchanged.old
          simp at hold
    | cons c text =>
        rw [hline.eq_of_head (hmargin c rfl)]
        exact hmargin

/-- The field stands in a section of the lines, where the scanner reads it. -/
def Written (lines : List Text) (field : Field) : Prop :=
  ∃ (place : Place) (value : Text), lines = place.lines field value ∧ place.Direct field ∧
    Scalar value ∧ place.Read field value

/-- A place moves along when lines change behind the colons of other keys. -/
theorem Written.alike (h : Written lines field) (hfield : field ∈ secretFields)
    (halike : AlikeLines lines lines') (hspot : spot field false lines' = spot field false lines) :
    Written lines' field := by
  obtain ⟨place, value, rfl, hdirect, hvalue, hread⟩ := h
  obtain ⟨hsection, hkey⟩ := plainKey_of_secret hfield
  obtain ⟨before', lines₁, rfl, hbefore, hlines₁⟩ := halike.append
  obtain ⟨heading', lines₂, hheading, hlines₂, rfl⟩ := List.forall₂_cons_left_iff.1 hlines₁
  obtain ⟨between', lines₃, rfl, hbetween, hlines₃⟩ := AlikeLines.append hlines₂
  obtain ⟨child', later', hchild, hlater, rfl⟩ := List.forall₂_cons_left_iff.1 hlines₃
  obtain ⟨c, more, hname, hblank, -, -⟩ := plain_head hsection
  have hsame : heading' = field.section_ ++ ':' :: place.heading := by
    rw [hname] at hheading ⊢
    exact hheading.eq_of_head hblank
  subst hsame
  let place' : Place := { place with before := before', between := between', later := later' }
  have hdirect' : place'.Direct field := by
    refine ⟨fun line' hmem => ?_, hdirect.heading, hdirect.indent, fun line' hmem => ?_,
      fun line' hmem => ?_, hdirect.blanks, hdirect.after, fun line' hmem => ?_⟩
    · obtain ⟨line, hmem, hline⟩ := hbefore.mem line' hmem
      have hold := hdirect.before line hmem
      rw [hname] at hold ⊢
      exact hline.not_begins hblank hold
    · obtain ⟨line, hmem, hline⟩ := hbetween.mem line' hmem
      rw [hline.skipped_eq]
      exact (hdirect.between line hmem).imp_right (hline.prefix_spaces hdirect.indent.2)
    · obtain ⟨line, hmem, hline⟩ := hbetween.find line' hmem
      rw [hline.startsKey_eq]
      exact hdirect.block line hmem
    · obtain ⟨line, hmem, hline⟩ := AlikeLines.find hlater line' hmem
      exact hline.continues_eq hdirect.indent.2 (hdirect.later line hmem)
  have hread' : place'.Read field value := by
    refine ⟨fun line' hmem found hfound => ?_, hread.empty, hread.closed⟩
    obtain ⟨line, hmem, hline⟩ := hbetween.mem line' hmem
    obtain ⟨found', hfound', heq⟩ := hline.keyLine_eq found hfound
    rw [← heq]
    exact hread.first line hmem found' hfound'
  refine ⟨place', value, ?_, hdirect', hvalue, hread'⟩
  -- the child's line has the same parts as before, since the scanner finds the same ones
  have hspaces : ∀ c ∈ place.indent, (isBlank c || c == '\r') = true :=
    fun c hc => by rw [hdirect.indent.2 c hc]; rfl
  obtain ⟨rest', hkeyLine⟩ := hchild.keyLine_of_plain hspaces hkey
  have hreading : reading field true child' = .here ⟨place.indent, field.key, rest'⟩ :=
    reading_of_here hkeyLine hdirect.indent.1 rfl
  rw [hdirect.spot_lines hread hvalue hfield, spot_section hsection hdirect'.reading_before
    (hdirect'.reading_between hread') hreading] at hspot
  have hparts := Spot.mk.inj (Option.some.inj hspot)
  have hsame : child' = place.line field value := by
    have htext := KeyLine.put_span ⟨place.indent, field.key, rest'⟩
    rw [KeyLine.put, hparts.2.1, hparts.2.2.1, hparts.2.2.2] at htext
    rw [(KeyLine.text_eq hkeyLine).1, ← htext, Place.line]
    simp
  rw [hsame]
  rfl

/-! ### All secrets masked -/

/-- The lines load as the mappings, and every field of them stands in a section where the scanner
reads it; of another field the scanner reads none. -/
structure Agrees (yaml : Yaml) (fields : List Field) (lines : List Text) (root : Node) : Prop where
  loaded : yaml.load (joinLines lines) = some root
  distinct : root.Distinct
  block : BlockStyle lines
  written : ∀ field ∈ fields, root.Has field → Written lines field
  unread : ∀ field ∈ fields, ¬ root.Has field → get field false lines = none

variable {yaml : Yaml} {root : Node} {fields : List Field}

theorem quotable_mask : Quotable mask := forall_mem_of_all (by decide)

/-- The first of the fields is masked, and the others stay where they are. -/
theorem Agrees.mask_first (h : Agrees yaml (field :: fields) lines root)
    (hyaml : BlockMappings yaml) (hfields : (field :: fields).Nodup)
    (hsecret : field :: fields ⊆ secretFields) : ∃ root',
      Agrees yaml fields (put field quotedMask false lines) root' ∧ root'.Holds field mask ∧
        ∀ field', field ≠ field' → root.Holds field' mask → root'.Holds field' mask := by
  have hfield : field ∈ secretFields := hsecret List.mem_cons_self
  have hne : ∀ field' ∈ fields, field ≠ field' :=
    fun field' hmem heq => (List.nodup_cons.1 hfields).1 (heq ▸ hmem)
  by_cases hhas : root.Has field
  · obtain ⟨place, value, hlines, hdirect, hvalue, hread⟩ := h.written field List.mem_cons_self hhas
    have hput : put field quotedMask false lines = place.lines field (quoted mask) := by
      rw [hlines]
      exact hdirect.put_lines hread hvalue hfield quotedMask
    have halike : AlikeLines lines (put field quotedMask false lines) :=
      put_alike hfield (by decide)
    have hunbroken : ∀ line ∈ put field quotedMask false lines, '\n' ∉ line :=
      put_unbroken h.block.unbroken (by decide)
    refine ⟨root.setField field mask, ⟨?_, h.distinct.setField, h.block.alike halike hunbroken,
      fun field' hmem hhas' => ?_, fun field' hmem hhas' => ?_⟩, Node.holds_setField,
      fun field' hne hholds => hholds.setField hne⟩
    · rw [hput]
      refine hyaml.exchange field hfield place value mask root hdirect hvalue quotable_mask ?_ ?_
        h.distinct hhas
      · rw [← hlines]
        exact h.block
      · rw [← hlines]
        exact h.loaded
    · refine (h.written field' (List.mem_cons_of_mem _ hmem) (Node.has_setField hhas')).alike
        (hsecret (List.mem_cons_of_mem _ hmem)) halike ?_
      exact spot_put_of_apart (apart_of_ne (hne field' hmem))
    · rw [get_put_of_apart (apart_of_ne (hne field' hmem))]
      exact h.unread field' (List.mem_cons_of_mem _ hmem)
        fun hhas => hhas' (Node.has_setField_of hhas)
  · have hput : put field quotedMask false lines = lines :=
      put_of_get_none (h.unread field List.mem_cons_self hhas)
    rw [hput]
    exact ⟨root, ⟨h.loaded, h.distinct, h.block,
      fun field' hmem => h.written field' (List.mem_cons_of_mem _ hmem),
      fun field' hmem => h.unread field' (List.mem_cons_of_mem _ hmem)⟩,
      Node.holds_of_not_has hhas, fun field' _ hholds => hholds⟩

theorem Agrees.mask_all (h : Agrees yaml fields lines root) (hyaml : BlockMappings yaml)
    (hfields : fields.Nodup) (hsecret : fields ⊆ secretFields) : ∃ root',
      yaml.load (joinLines (maskLines fields lines)) = some root' ∧
        (∀ field ∈ fields, root'.Holds field mask) ∧
        ∀ field ∉ fields, root.Holds field mask → root'.Holds field mask := by
  induction fields generalizing lines root with
  | nil => exact ⟨root, h.loaded, fun _ hmem => (by cases hmem), fun _ _ hholds => hholds⟩
  | cons field fields ih =>
      obtain ⟨root₁, hagrees, hmasked, hkept⟩ := h.mask_first hyaml hfields hsecret
      rw [List.nodup_cons] at hfields
      obtain ⟨root₂, hloaded, hall, hothers⟩ := ih hagrees hfields.2
        fun field' hmem => hsecret (List.mem_cons_of_mem _ hmem)
      refine ⟨root₂, hloaded, fun field' hmem => ?_, fun field' hmem hholds => ?_⟩
      · obtain rfl | hmem := List.mem_cons.1 hmem
        · exact hothers field' hfields.1 hmasked
        · exact hall field' hmem
      · rw [List.mem_cons, not_or] at hmem
        exact hothers field' hmem.2 (hkept field' (Ne.symm hmem.1) hholds)

/-- The library finds every secret masked in the text that the scanner has masked. -/
theorem secretNodesAreMasked_maskSpans {text : Text} (hyaml : BlockMappings yaml)
    (h : Agrees yaml secretFields (splitLines text) root) :
    secretNodesAreMasked yaml (maskSpans text) = true := by
  obtain ⟨root', hloaded, hmasked, -⟩ := h.mask_all hyaml secretFields_nodup (List.Subset.refl _)
  rw [← splitLines_maskSpans, join_split] at hloaded
  rw [secretNodesAreMasked, hloaded]
  exact Node.secretsMasked_of_holds hmasked

end InferDeck.Gateway.ConfigSecrets
