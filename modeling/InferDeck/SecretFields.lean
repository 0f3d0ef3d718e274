import InferDeck.ConfigSecrets

/-!
# Fields of a configuration text

The scanner of the secrets as a reader and a writer of fields: what is written is read back where it
fits what follows on its line, writing twice is writing once, and another field does not change.
The mask fits wherever no comment stands in place of the scalar.
-/

namespace InferDeck.Gateway.ConfigSecrets

/-! ### A field of the lines -/

/-- What the scanner makes of a line: it goes on, or has found the scalar. -/
inductive Reading where
  | next (inSection : Bool)
  | here (found : KeyLine)

def reading (field : Field) (inSection : Bool) (line : Text) : Reading :=
  match keyLine line with
  | none => .next inSection
  | some found =>
      if found.indent = [] then .next (found.name == field.section_)
      else if inSection && found.name == field.key then .here found
      else .next inSection

/-- The line with another scalar. -/
def KeyLine.put (value : Text) (found : KeyLine) : Text :=
  (found.span []).start ++ value ++ (found.span []).rest

def get (field : Field) (inSection : Bool) (lines : List Text) : Option (Text × Text) :=
  (scanLines field inSection lines).map fun span => (span.value, span.rest)

def put (field : Field) (value : Text) (inSection : Bool) (lines : List Text) : List Text :=
  match scanLines field inSection lines with
  | some span => span.lines value
  | none => lines

/-- Where the scanner finds a scalar: the number of its line, and the parts of the line. -/
structure Spot where
  row : Nat
  start : Text
  value : Text
  rest : Text

def Spot.down (spot : Spot) : Spot := { spot with row := spot.row + 1 }

def spot (field : Field) (inSection : Bool) (lines : List Text) : Option Spot :=
  (scanLines field inSection lines).map fun span =>
    ⟨span.earlier.length, span.start, span.value, span.rest⟩

/-- The scanner reads the text back in front of the given one. -/
def Fits (value rest : Text) : Prop :=
  scalar (value ++ rest) = value ∧ ∀ c ∈ (value ++ rest).head?, isBlank c = false

variable {field field' : Field} {inSection inSection' : Bool} {line value value' rest : Text}
variable {found : KeyLine} {lines : List Text}

theorem scanLines_cons : scanLines field inSection (line :: lines) =
    match reading field inSection line with
    | .next inSection' => (scanLines field inSection' lines).map (.under line)
    | .here found => some (found.span lines) := by
  rw [scanLines, reading]
  cases keyLine line with
  | none => rfl
  | some found =>
      dsimp only
      split_ifs
      · rfl
      · rfl
      · rfl

theorem get_cons : get field inSection (line :: lines) =
    match reading field inSection line with
    | .next inSection' => get field inSection' lines
    | .here found => some ((found.span []).value, (found.span []).rest) := by
  unfold get
  rw [scanLines_cons]
  cases reading field inSection line with
  | next inSection' =>
      dsimp only
      rw [Option.map_map]
      rfl
  | here found => rfl

theorem get_eq_spot : get field inSection lines =
    (spot field inSection lines).map fun found => (found.value, found.rest) := by
  unfold get spot
  rw [Option.map_map]
  rfl

theorem spot_cons : spot field inSection (line :: lines) =
    match reading field inSection line with
    | .next inSection' => (spot field inSection' lines).map Spot.down
    | .here found => some
        ⟨0, (found.span []).start, (found.span []).value, (found.span []).rest⟩ := by
  unfold spot
  rw [scanLines_cons]
  cases reading field inSection line with
  | next inSection' =>
      dsimp only
      rw [Option.map_map, Option.map_map]
      rfl
  | here found => rfl

theorem put_cons : put field value inSection (line :: lines) =
    match reading field inSection line with
    | .next inSection' => line :: put field value inSection' lines
    | .here found => found.put value :: lines := by
  unfold put
  rw [scanLines_cons]
  cases reading field inSection line with
  | next inSection' =>
      dsimp only
      cases scanLines field inSection' lines with
      | none => rfl
      | some span => rfl
  | here found => rfl

theorem put_of_get_none (h : get field inSection lines = none) :
    put field value inSection lines = lines := by
  unfold get at h
  unfold put
  rw [Option.map_eq_none_iff.1 h]

/-! ### A line with another scalar -/

section Words

variable {p : Char → Bool} {text : Text} {c : Char}

theorem takeWhile_of_head (h : ∀ c ∈ text.head?, p c = false) : text.takeWhile p = [] := by
  cases text with
  | nil => rfl
  | cons c text =>
      rw [List.takeWhile_cons, h c rfl]
      rfl

theorem dropWhile_of_head (h : ∀ c ∈ text.head?, p c = false) : text.dropWhile p = text := by
  cases text with
  | nil => rfl
  | cons c text =>
      rw [List.dropWhile_cons, h c rfl]
      rfl

theorem dropWhile_colon (h : ':' ∈ text) :
    text.dropWhile (· != ':') = ':' :: (text.dropWhile (· != ':')).tail := by
  induction text with
  | nil => cases h
  | cons c text ih =>
      by_cases hc : c = ':'
      · subst hc
        rfl
      · have hdrop : (c :: text).dropWhile (· != ':') = text.dropWhile (· != ':') := by
          simp [hc]
        rw [hdrop]
        refine ih ?_
        simpa [Ne.symm hc] using h

theorem of_mem_takeWhile (h : c ∈ text.takeWhile p) : p c = true := by
  induction text with
  | nil => cases h
  | cons c' text ih =>
      rw [List.takeWhile_cons] at h
      cases hc' : p c' with
      | false => simp [hc'] at h
      | true =>
          rw [hc', if_pos rfl, List.mem_cons] at h
          obtain rfl | h := h
          · exact hc'
          · exact ih h

theorem prefix_append_cons_iff {word before after : Text} (h : c ∉ word) :
    word <+: before ++ c :: after ↔ word <+: before := by
  constructor
  · intro hbegins
    obtain hle | ⟨more, rfl⟩ :=
      List.prefix_or_prefix_of_prefix hbegins (List.prefix_append before _)
    · exact hle
    · cases more with
      | nil => simp
      | cons c' more =>
          rw [List.prefix_append_right_inj] at hbegins
          obtain ⟨rfl, -⟩ := List.cons_prefix_cons.1 hbegins
          exact absurd (by simp) h
  · exact fun h => h.trans (List.prefix_append _ _)

/-- A word without the character stands before or behind it. -/
theorem infix_append_cons_iff {word before after : Text} (h : c ∉ word) :
    word <:+: before ++ c :: after ↔ word <:+: before ∨ word <:+: after := by
  constructor
  · induction before with
    | nil =>
        intro hwithin
        obtain hbegins | hwithin := List.infix_cons_iff.1 hwithin
        · have hbefore : word <+: [] := (prefix_append_cons_iff h).1 hbegins
          exact Or.inl hbefore.isInfix
        · exact Or.inr hwithin
    | cons c' before ih =>
        intro hwithin
        obtain hbegins | hwithin := List.infix_cons_iff.1 hwithin
        · have hbefore : word <+: c' :: before := (prefix_append_cons_iff h).1 hbegins
          exact Or.inl hbefore.isInfix
        · exact (ih hwithin).imp_left fun hwithin => hwithin.trans (List.suffix_cons _ _).isInfix
  · rintro (hwithin | hwithin)
    · exact hwithin.trans (List.prefix_append _ _).isInfix
    · exact hwithin.trans ((List.suffix_cons _ _).trans (List.suffix_append _ _)).isInfix

end Words

theorem KeyLine.text_eq (h : keyLine line = some found) :
    line = found.indent ++ (found.name ++ ':' :: found.rest) ∧
      (∀ c ∈ found.indent, (isBlank c || c == '\r') = true) ∧
      (∀ c ∈ found.name, (c != ':') = true) ∧
      ∃ c, (∀ text, (found.name ++ ':' :: text).head? = some c) ∧
        (isBlank c || c == '\r') = false ∧ c ≠ '#' := by
  unfold keyLine at h
  dsimp only at h
  split_ifs at h with hline
  obtain rfl := Option.some.inj h
  rw [not_or, not_not] at hline
  obtain ⟨hcomment, hcolon⟩ := hline
  have hbody := List.takeWhile_append_dropWhile
    (p := (· != ':')) (l := line.dropWhile fun c => isBlank c || c == '\r')
  rw [dropWhile_colon hcolon] at hbody
  dsimp only
  refine ⟨?_, fun c hc => of_mem_takeWhile hc,
    fun c hc => of_mem_takeWhile (p := (· != ':')) hc, ?_⟩
  · rw [hbody, List.takeWhile_append_dropWhile]
  · have hhead := List.head?_dropWhile_not (fun c => isBlank c || c == '\r') line
    rw [← hbody] at hhead hcomment
    generalize List.takeWhile (· != ':') _ = name at hhead hcomment ⊢
    cases name with
    | nil => exact ⟨':', fun _ => rfl, rfl, by decide⟩
    | cons c name =>
        refine ⟨c, fun _ => rfl, hhead, fun hc => hcomment ?_⟩
        rw [hc]
        rfl

theorem keyLine_of_text {text : Text} (h : keyLine line = some found) :
    keyLine (found.indent ++ (found.name ++ ':' :: text)) = some { found with rest := text } := by
  obtain ⟨-, hindent, hname, c, hhead, hblank, hcomment⟩ := KeyLine.text_eq h
  have hbody : ∀ c ∈ (found.name ++ ':' :: text).head?, (isBlank c || c == '\r') = false := by
    rw [hhead text]
    rintro _ ⟨⟩
    exact hblank
  unfold keyLine
  rw [List.takeWhile_append_of_pos hindent, List.dropWhile_append_of_pos hindent,
    takeWhile_of_head hbody, dropWhile_of_head hbody]
  dsimp only
  rw [if_neg, List.takeWhile_append_of_pos hname, List.dropWhile_append_of_pos hname]
  · simp
  · rw [hhead text]
    simp [hcomment]

theorem KeyLine.put_eq (value : Text) (found : KeyLine) : found.put value =
    found.indent ++ (found.name ++ ':' :: (found.rest.takeWhile isBlank ++
      (value ++ (found.span []).rest))) := by
  simp [KeyLine.put, KeyLine.span]

theorem uncommented_cons (single double : Bool) (previous c : Char) (text : Text) :
    uncommented single double previous (c :: text) = [] ∧ c = '#' ∧ isBlank previous = true ∨
      ∃ single' double', uncommented single double previous (c :: text) =
        c :: uncommented single' double' c text := by
  rw [uncommented]
  generalize (if c == '\'' && !double then !single else single) = single'
  generalize (if c == '"' && !single' && previous != '\\' then !double else double) = double'
  by_cases hcomment : (c == '#' && !single' && !double' && isBlank previous) = true
  · refine Or.inl ⟨if_pos hcomment, ?_⟩
    simp only [Bool.and_eq_true, beq_iff_eq] at hcomment
    exact ⟨hcomment.1.1.1, hcomment.2⟩
  · exact Or.inr ⟨single', double', if_neg hcomment⟩

theorem uncommented_isPrefix (single double : Bool) (previous : Char) (text : Text) :
    uncommented single double previous text <+: text := by
  induction text generalizing single double previous with
  | nil => exact List.prefix_rfl
  | cons c text ih =>
      obtain ⟨hnil, _⟩ | ⟨single', double', hcons⟩ := uncommented_cons single double previous c text
      · rw [hnil]
        exact List.nil_prefix
      · rw [hcons]
        exact (List.prefix_cons_inj c).2 (ih _ _ _)

theorem scalar_append (text : Text) : scalar text ++ text.drop (scalar text).length = text := by
  have hbegins : scalar text <+: text :=
    (List.rdropWhile_prefix _ _).trans (uncommented_isPrefix false false ' ' text)
  exact List.prefix_append_drop hbegins |>.symm

theorem KeyLine.put_span (found : KeyLine) : found.put (found.span []).value =
    found.indent ++ (found.name ++ ':' :: found.rest) := by
  rw [KeyLine.put_eq]
  congr 3
  change found.rest.takeWhile isBlank ++ (scalar (found.rest.dropWhile isBlank) ++
    (found.rest.dropWhile isBlank).drop (scalar (found.rest.dropWhile isBlank)).length) = found.rest
  rw [scalar_append, List.takeWhile_append_dropWhile]

/-- The line with another scalar, read again. -/
def KeyLine.replaced (value : Text) (found : KeyLine) : KeyLine :=
  { found with rest := found.rest.takeWhile isBlank ++ (value ++ (found.span []).rest) }

theorem keyLine_put (h : keyLine line = some found) (value : Text) :
    keyLine (found.put value) = some (found.replaced value) := by
  rw [KeyLine.put_eq]
  exact keyLine_of_text h

/-- A scalar that fits stands where the old one stood. -/
theorem KeyLine.span_replaced (h : Fits value (found.span []).rest) (lines : List Text) :
    (found.replaced value).span lines = { found.span lines with value } := by
  obtain ⟨hscalar, hhead⟩ := h
  have hblanks : ∀ c ∈ found.rest.takeWhile isBlank, isBlank c = true :=
    fun c hc => of_mem_takeWhile hc
  generalize hrest : (found.span []).rest = rest at hscalar hhead
  have htake : (found.replaced value).rest.takeWhile isBlank = found.rest.takeWhile isBlank := by
    change (found.rest.takeWhile isBlank ++ (value ++ (found.span []).rest)).takeWhile isBlank = _
    rw [List.takeWhile_append_of_pos hblanks, hrest, takeWhile_of_head hhead, List.append_nil]
  have hdrop : (found.replaced value).rest.dropWhile isBlank = value ++ rest := by
    change (found.rest.takeWhile isBlank ++ (value ++ (found.span []).rest)).dropWhile isBlank = _
    rw [List.dropWhile_append_of_pos hblanks, hrest, dropWhile_of_head hhead]
  have hlines : (found.span lines).rest = rest := hrest
  unfold KeyLine.span at hlines ⊢
  dsimp only at hlines ⊢
  rw [htake, hdrop, hscalar, List.drop_left, hlines]
  rfl

/-! ### Laws of a field -/

/-- No line is read for both fields. -/
def Apart (field : Field) (inSection : Bool) (field' : Field) (inSection' : Bool) : Prop :=
  field.section_ = field'.section_ ∧ field.key ≠ field'.key ∨
    field.section_ ≠ field'.section_ ∧ ¬ (inSection = true ∧ inSection' = true)

theorem Apart.symm (h : Apart field inSection field' inSection') :
    Apart field' inSection' field inSection := by
  obtain ⟨hsection, hkey⟩ | ⟨hsection, hboth⟩ := h
  · exact Or.inl ⟨hsection.symm, hkey.symm⟩
  · exact Or.inr ⟨hsection.symm, fun h => hboth ⟨h.2, h.1⟩⟩

theorem apart_of_ne (h : field ≠ field') : Apart field false field' false := by
  by_cases hsection : field.section_ = field'.section_
  · refine Or.inl ⟨hsection, fun hkey => h ?_⟩
    cases field
    cases field'
    exact congrArg₂ Field.mk hsection hkey
  · exact Or.inr ⟨hsection, fun h => Bool.false_ne_true h.1⟩

/-- Where the scanner stops at a line for a field. -/
theorem reading_here (h : reading field inSection line = .here found) :
    keyLine line = some found ∧ found.indent ≠ [] ∧ inSection = true ∧ found.name = field.key := by
  unfold reading at h
  cases hline : keyLine line with
  | none =>
      rw [hline] at h
      cases h
  | some other =>
      rw [hline] at h
      dsimp only at h
      split_ifs at h with hindent hkey
      obtain rfl := Reading.here.inj h
      rw [Bool.and_eq_true, beq_iff_eq] at hkey
      exact ⟨rfl, hindent, hkey.1, hkey.2⟩

theorem reading_of_here (hline : keyLine line = some found) (hindent : found.indent ≠ [])
    (hkey : found.name = field.key) : reading field true line = .here found := by
  unfold reading
  rw [hline]
  dsimp only
  rw [if_neg hindent, if_pos]
  rw [Bool.true_and, beq_iff_eq]
  exact hkey

/-- A line that is read for one field is passed over for another, whatever its scalar. -/
theorem reading_of_apart (h : reading field inSection line = .here found)
    (hapart : Apart field inSection field' inSection') {line' : Text} {found' : KeyLine}
    (hline : keyLine line' = some found') (hindent : found'.indent = found.indent)
    (hname : found'.name = found.name) : reading field' inSection' line' = .next inSection' := by
  obtain ⟨-, hindented, hin, hkey⟩ := reading_here h
  unfold reading
  rw [hline]
  dsimp only
  rw [hindent, if_neg hindented, if_neg]
  rw [Bool.and_eq_true, beq_iff_eq, hname, hkey]
  rintro ⟨hin', hkey'⟩
  obtain ⟨_, hne⟩ | ⟨_, hboth⟩ := hapart
  · exact hne hkey'
  · exact hboth ⟨hin, hin'⟩

theorem apart_next {b b' c c' : Bool} (hapart : Apart field b field' b')
    (h : reading field b line = .next c) (h' : reading field' b' line = .next c') :
    Apart field c field' c' := by
  unfold reading at h h'
  cases hline : keyLine line with
  | none =>
      rw [hline] at h h'
      obtain rfl := Reading.next.inj h
      obtain rfl := Reading.next.inj h'
      exact hapart
  | some found =>
      rw [hline] at h h'
      dsimp only at h h'
      by_cases hindent : found.indent = []
      · rw [if_pos hindent] at h h'
        obtain rfl := Reading.next.inj h
        obtain rfl := Reading.next.inj h'
        obtain hsame | ⟨hsection, _⟩ := hapart
        · exact Or.inl hsame
        · refine Or.inr ⟨hsection, fun hboth => hsection ?_⟩
          rw [beq_iff_eq, beq_iff_eq] at hboth
          exact hboth.1.symm.trans hboth.2
      · rw [if_neg hindent] at h h'
        split_ifs at h
        split_ifs at h'
        obtain rfl := Reading.next.inj h
        obtain rfl := Reading.next.inj h'
        exact hapart

theorem get_put (h : get field inSection lines = some (value', rest)) (hfits : Fits value rest) :
    get field inSection (put field value inSection lines) = some (value, rest) := by
  induction lines generalizing inSection with
  | nil => cases h
  | cons line lines ih =>
      rw [get_cons] at h
      rw [put_cons]
      cases hreading : reading field inSection line with
      | next inSection' =>
          rw [hreading] at h
          dsimp only at h ⊢
          rw [get_cons, hreading]
          exact ih h
      | here found =>
          rw [hreading] at h
          obtain ⟨hline, hindent, hin, hkey⟩ := reading_here hreading
          obtain ⟨rfl, rfl⟩ := Prod.mk.inj (Option.some.inj h)
          dsimp only
          have hagain : reading field true (found.put value) = .here (found.replaced value) :=
            reading_of_here (keyLine_put hline value) hindent hkey
          rw [get_cons, hin, hagain]
          dsimp only
          rw [KeyLine.span_replaced hfits]

theorem put_put {new : Text} (h : get field inSection lines = some (value', rest))
    (hfits : Fits value rest) :
    put field new inSection (put field value inSection lines) = put field new inSection lines := by
  induction lines generalizing inSection with
  | nil => cases h
  | cons line lines ih =>
      rw [get_cons] at h
      rw [put_cons, put_cons]
      cases hreading : reading field inSection line with
      | next inSection' =>
          rw [hreading] at h
          dsimp only at h ⊢
          rw [put_cons, hreading]
          dsimp only
          rw [ih h]
      | here found =>
          rw [hreading] at h
          obtain ⟨hline, hindent, hin, hkey⟩ := reading_here hreading
          obtain ⟨rfl, rfl⟩ := Prod.mk.inj (Option.some.inj h)
          dsimp only
          have hagain : reading field true (found.put value) = .here (found.replaced value) :=
            reading_of_here (keyLine_put hline value) hindent hkey
          rw [put_cons, hin, hagain]
          dsimp only
          rw [KeyLine.put, KeyLine.span_replaced hfits]
          rfl

theorem put_get (h : get field inSection lines = some (value, rest)) :
    put field value inSection lines = lines := by
  induction lines generalizing inSection with
  | nil => rfl
  | cons line lines ih =>
      rw [get_cons] at h
      rw [put_cons]
      cases hreading : reading field inSection line with
      | next inSection' =>
          rw [hreading] at h
          dsimp only at h ⊢
          rw [ih h]
      | here found =>
          rw [hreading] at h
          obtain ⟨rfl, rfl⟩ := Prod.mk.inj (Option.some.inj h)
          dsimp only
          rw [KeyLine.put_span, ← (KeyLine.text_eq (reading_here hreading).1).1]

theorem spot_put_of_apart (h : Apart field inSection field' inSection') :
    spot field' inSection' (put field value inSection lines) = spot field' inSection' lines := by
  induction lines generalizing inSection inSection' with
  | nil => rfl
  | cons line lines ih =>
      rw [put_cons, spot_cons]
      cases hreading : reading field inSection line with
      | next c =>
          dsimp only
          rw [spot_cons]
          cases hreading' : reading field' inSection' line with
          | next c' => exact congrArg (Option.map Spot.down) (ih (apart_next h hreading hreading'))
          | here found => rfl
      | here found =>
          obtain ⟨hline, -, -, -⟩ := reading_here hreading
          dsimp only
          rw [spot_cons, reading_of_apart hreading h hline rfl rfl,
            reading_of_apart hreading h (keyLine_put hline value) rfl rfl]

theorem get_put_of_apart (h : Apart field inSection field' inSection') :
    get field' inSection' (put field value inSection lines) = get field' inSection' lines := by
  rw [get_eq_spot, get_eq_spot, spot_put_of_apart h]

theorem put_comm (h : Apart field inSection field' inSection') :
    put field' value' inSection' (put field value inSection lines) =
      put field value inSection (put field' value' inSection' lines) := by
  induction lines generalizing inSection inSection' with
  | nil => rfl
  | cons line lines ih =>
      rw [put_cons, put_cons]
      cases hreading : reading field inSection line with
      | next c =>
          cases hreading' : reading field' inSection' line with
          | next c' =>
              dsimp only
              rw [put_cons, put_cons, hreading, hreading']
              dsimp only
              rw [ih (apart_next h hreading hreading')]
          | here found =>
              obtain ⟨hline, -, -, -⟩ := reading_here hreading'
              have hpass := reading_of_apart hreading' h.symm hline rfl rfl
              obtain rfl := Reading.next.inj (hreading.symm.trans hpass)
              dsimp only
              rw [put_cons, put_cons, hreading', reading_of_apart hreading' h.symm
                (keyLine_put hline value') rfl rfl]
      | here found =>
          obtain ⟨hline, -, -, -⟩ := reading_here hreading
          have hpass := reading_of_apart hreading h hline rfl rfl
          rw [hpass]
          dsimp only
          rw [put_cons, put_cons, reading_of_apart hreading h (keyLine_put hline value) rfl rfl,
            hreading]

/-! ### Where the mask fits -/

section MaskFits

variable {text blanks : Text} {previous : Char}

/-- A comment begins after a blank. -/
theorem uncommented_append (single double : Bool) (previous : Char) (text : Text) :
    ∃ comment, text = uncommented single double previous text ++ comment ∧
      (comment = [] ∨ ∃ more, comment = '#' :: more ∧
        isBlank ((uncommented single double previous text).getLastD previous) = true) := by
  induction text generalizing single double previous with
  | nil => exact ⟨[], rfl, Or.inl rfl⟩
  | cons c text ih =>
      obtain ⟨hnil, rfl, hblank⟩ | ⟨single', double', hcons⟩ :=
        uncommented_cons single double previous c text
      · exact ⟨'#' :: text, by rw [hnil]; rfl, Or.inr ⟨text, rfl, by rw [hnil]; exact hblank⟩⟩
      · obtain ⟨comment, htext, hcomment⟩ := ih single' double' c
        refine ⟨comment, ?_, ?_⟩
        · rw [hcons, List.cons_append, ← htext]
        · rw [hcons, List.getLastD_cons]
          exact hcomment

theorem uncommented_blanks (h : ∀ c ∈ blanks, (isBlank c || c == '\r') = true)
    (single double : Bool) (previous : Char) (text : Text) :
    uncommented single double previous (blanks ++ text) =
      blanks ++ uncommented single double (blanks.getLastD previous) text := by
  induction blanks generalizing previous with
  | nil => rfl
  | cons c blanks ih =>
      have hc : (c = ' ' ∨ c = '\t') ∨ c = '\r' := by
        simpa [isBlank] using h c List.mem_cons_self
      have hstep : uncommented single double previous (c :: (blanks ++ text)) =
          c :: uncommented single double c (blanks ++ text) := by
        obtain (rfl | rfl) | rfl := hc
        · rfl
        · rfl
        · rfl
      rw [List.cons_append, hstep, ih fun c hc => h c (List.mem_cons_of_mem _ hc),
        List.getLastD_cons, List.cons_append]

theorem uncommented_comment (h : isBlank previous = true) (text : Text) :
    uncommented false false previous ('#' :: text) = [] := by
  simp [uncommented, h]

theorem uncommented_quotedMask (text : Text) : uncommented false false ' ' (quotedMask ++ text) =
    quotedMask ++ uncommented false false '"' text := rfl

theorem trimEnd_append {value : Text} (h : ∀ c ∈ blanks, (isBlank c || c == '\r') = true)
    (hvalue : ∀ c ∈ value.getLast?, (isBlank c || c == '\r') = false) :
    trimEnd (value ++ blanks) = value := by
  have hreverse : ∀ c ∈ blanks.reverse, (isBlank c || c == '\r') = true :=
    fun c hc => h c (List.mem_reverse.1 hc)
  have hhead : ∀ c ∈ value.reverse.head?, (isBlank c || c == '\r') = false := by
    rw [List.head?_reverse]
    exact hvalue
  rw [trimEnd, List.rdropWhile, List.reverse_append, List.dropWhile_append_of_pos hreverse,
    dropWhile_of_head hhead, List.reverse_reverse]

/-- What follows a scalar on its line: blanks, and a comment after one of them or, behind the colon,
after no character of the scalar. -/
theorem after_scalar (text : Text) : ∃ blanks comment,
    text.drop (scalar text).length = blanks ++ comment ∧
      (∀ c ∈ blanks, (isBlank c || c == '\r') = true) ∧
      (comment = [] ∨ ∃ more, comment = '#' :: more ∧
        (blanks = [] ∨ isBlank (blanks.getLastD '"') = true)) := by
  obtain ⟨comment, htext, hcomment⟩ := uncommented_append false false ' ' text
  have hparts := List.rdropWhile_append_rtakeWhile
    (p := fun c => isBlank c || c == '\r') (l := uncommented false false ' ' text)
  refine ⟨(uncommented false false ' ' text).rtakeWhile fun c => isBlank c || c == '\r', comment,
    ?_, fun c hc => List.mem_rtakeWhile_imp (p := fun c => isBlank c || c == '\r') hc,
    hcomment.imp_right ?_⟩
  · have hwhole : text = scalar text ++
        ((uncommented false false ' ' text).rtakeWhile (fun c => isBlank c || c == '\r') ++
          comment) := by
      rw [← List.append_assoc]
      exact htext.trans (congrArg (· ++ comment) hparts.symm)
    calc text.drop (scalar text).length
        = (scalar text ++ ((uncommented false false ' ' text).rtakeWhile
            (fun c => isBlank c || c == '\r') ++ comment)).drop (scalar text).length :=
          congrArg _ hwhole
      _ = _ := List.drop_left
  · rintro ⟨more, hmore, hlast⟩
    refine ⟨more, hmore, ?_⟩
    generalize (uncommented false false ' ' text).rtakeWhile _ = blanks at hparts ⊢
    cases blanks with
    | nil => exact Or.inl rfl
    | cons c blanks =>
        refine Or.inr ?_
        rw [← hparts, List.getLastD_eq_getLast?, List.getLast?_append, List.getLast?_cons,
          Option.some_or] at hlast
        rw [List.getLastD_eq_getLast?, List.getLast?_cons]
        exact hlast

/-- The mask fits wherever no comment stands where the scalar should. -/
theorem fits_quotedMask (h : (text.drop (scalar text).length).head? ≠ some '#') :
    Fits quotedMask (text.drop (scalar text).length) := by
  obtain ⟨blanks, comment, hrest, hblanks, hcomment⟩ := after_scalar text
  rw [hrest] at h ⊢
  refine ⟨?_, fun c hc => ?_⟩
  · have hcut : uncommented false false (blanks.getLastD '"') comment = [] := by
      obtain rfl | ⟨more, rfl, rfl | hlast⟩ := hcomment
      · rfl
      · exact absurd rfl h
      · exact uncommented_comment hlast more
    rw [scalar, uncommented_quotedMask, uncommented_blanks hblanks, hcut, List.append_nil]
    refine trimEnd_append hblanks fun c hc => ?_
    obtain rfl := Option.some.inj hc
    rfl
  · obtain rfl := Option.some.inj hc
    rfl

end MaskFits

theorem rest_of_get (h : get field inSection lines = some (value, rest)) :
    ∃ text : Text, rest = text.drop (scalar text).length := by
  induction lines generalizing inSection with
  | nil => cases h
  | cons line lines ih =>
      rw [get_cons] at h
      cases hreading : reading field inSection line with
      | next inSection' =>
          rw [hreading] at h
          exact ih h
      | here found =>
          rw [hreading] at h
          obtain ⟨_, hrest⟩ := Prod.mk.inj (Option.some.inj h)
          exact ⟨found.rest.dropWhile isBlank, hrest.symm⟩

end InferDeck.Gateway.ConfigSecrets
