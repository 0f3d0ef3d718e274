import InferDeck.ConfigSecrets

/-!
# Block mappings in a configuration text

What YAML 1.2 says of a text of one block mapping whose values are block mappings again: where a
scalar of such a section stands among the lines, and that another scalar in its place changes the
node of its field and nothing else. The library is assumed to read texts so.
-/

namespace InferDeck.Gateway.ConfigSecrets

/-! ### Lines and scalars -/

theorem forall_mem_of_all {p : Char → Prop} [DecidablePred p] {text : Text}
    (h : text.all (fun c => decide (p c)) = true) : ∀ c ∈ text, p c :=
  fun c hc => of_decide_eq_true (List.all_eq_true.1 h c hc)

def skipped (line : Text) : Bool :=
  (line.dropWhile fun c => isBlank c || c == '\r').head?.all (· == '#')

/-- Blanks, and a comment after one of them. -/
def Trailing (text : Text) : Prop :=
  ∃ blanks comment : Text, text = blanks ++ comment ∧
    (∀ c ∈ blanks, (isBlank c || c == '\r') = true) ∧
    (comment = [] ∨ comment.head? = some '#' ∧ ∃ c ∈ blanks.getLast?, isBlank c = true)

/-- What neither a key nor a plain scalar begins with. -/
def indicators : Text := "{}[],&*#|>!%@`".toList

/-- The line begins with a key, at whatever indentation. -/
def startsKey (line : Text) : Bool :=
  !(line.dropWhile (· == ' ')).head?.any indicators.contains

/-- The line goes on with the value of a key that stands at the indentation. -/
def continues (indent line : Text) : Bool :=
  indent.isPrefixOf line && match line.drop indent.length with
    | '-' :: c :: _ => isBlank c || c == '\r'
    | ['-'] => true
    | c :: _ => isBlank c
    | [] => false

/-- The rest of a single-quoted scalar, in which an apostrophe is doubled. -/
def singleQuoted : Text → Bool
  | [] => false
  | '\'' :: '\'' :: text => singleQuoted text
  | '\'' :: text => text.isEmpty
  | _ :: text => singleQuoted text

/-- The rest of a double-quoted scalar, in which a backslash escapes. -/
def doubleQuoted : Text → Bool
  | [] => false
  | '\\' :: _ :: text => doubleQuoted text
  | '"' :: text => text.isEmpty
  | _ :: text => doubleQuoted text

/-- The rest of a plain scalar, which has no comment and no key in it. -/
def plainAfter (previous : Char) : Text → Bool
  | [] => !isBlank previous && previous != ':'
  | c :: text => !(isBlank previous && c == '#') && !(previous == ':' && isBlank c) &&
      plainAfter c text

def plainStart (c : Char) (text : Text) : Bool :=
  !isBlank c && !indicators.contains c && !("-?:".toList.contains c && text.head?.all isBlank)

def isScalar : Text → Bool
  | [] => true
  | '\'' :: text => singleQuoted text
  | '"' :: text => doubleQuoted text
  | c :: text => plainStart c text && plainAfter c text

structure Scalar (value : Text) : Prop where
  isScalar : isScalar value = true
  unbroken : ∀ c ∈ value, c ≠ '\n' ∧ c ≠ '\r'

/-- A word that a pair of double quotes makes a scalar. -/
def Quotable (word : Text) : Prop := ∀ c ∈ word, c.isAlphanum ∨ c = '_'

def quoted (word : Text) : Text := '"' :: word ++ ['"']

/-! ### A scalar of a section -/

/-- The text around a scalar of a section. -/
structure Place where
  before : List Text
  heading : Text
  between : List Text
  indent : Text
  blanks : Text
  after : Text
  later : List Text

namespace Place

def line (place : Place) (field : Field) (value : Text) : Text :=
  place.indent ++ (field.key ++ ':' :: (place.blanks ++ (value ++ place.after)))

def lines (place : Place) (field : Field) (value : Text) : List Text :=
  place.before ++ (field.section_ ++ ':' :: place.heading) ::
    (place.between ++ place.line field value :: place.later)

/-- The line is an entry of the section, both keys are plain, and its value ends on the line. -/
structure Direct (place : Place) (field : Field) : Prop where
  before : ∀ line ∈ place.before, ¬ field.section_ ++ [':'] <+: line
  heading : Trailing place.heading
  indent : place.indent ≠ [] ∧ ∀ c ∈ place.indent, c = ' '
  between : ∀ line ∈ place.between, skipped line = true ∨ place.indent <+: line
  block : ∀ line ∈ place.between.find? (!skipped ·), startsKey line = true
  blanks : place.blanks ≠ [] ∧ ∀ c ∈ place.blanks, isBlank c = true
  after : Trailing place.after
  later : ∀ line ∈ place.later.find? (!skipped ·), continues place.indent line = false

end Place

/-- One document without markers, which begins with a key at the margin. A carriage return stands
at the end of a line only. -/
structure BlockStyle (lines : List Text) : Prop where
  unbroken : ∀ line ∈ lines, '\n' ∉ line
  unmarked : ∀ line ∈ lines, ¬ "---".toList <+: line ∧ ¬ "...".toList <+: line
  returns : ∀ line ∈ lines, '\r' ∉ line.dropLast
  block : ∀ line ∈ lines.find? (!skipped ·),
    startsKey line = true ∧ ∀ c ∈ line.head?, (isBlank c || c == '\r') = false

/-! ### Nodes -/

namespace Node

def sections : Node → List (Node × Node)
  | .map sections => sections
  | _ => []

def setEntry (field : Field) (section_ value : Text) : Node × Node → Node × Node
  | (.scalar key, node) =>
      (.scalar key, if (⟨section_, key⟩ : Field) = field then .scalar value else node)
  | entry => entry

def setSection (field : Field) (value : Text) : Node × Node → Node × Node
  | (.scalar section_, .map fields) =>
      (.scalar section_, .map (fields.map (setEntry field section_ value)))
  | entry => entry

def setField (field : Field) (value : Text) : Node → Node
  | .map sections => .map (sections.map (setSection field value))
  | root => root

def Has (field : Field) (root : Node) : Prop :=
  ∃ fields node, (.scalar field.section_, .map fields) ∈ root.sections ∧
    (.scalar field.key, node) ∈ fields

/-- No key twice. -/
structure Distinct (root : Node) : Prop where
  sections : (root.sections.map Prod.fst).Nodup
  fields : ∀ name fields, (name, .map fields) ∈ root.sections → (fields.map Prod.fst).Nodup

end Node

namespace Node

variable {field field' : Field} {value value' section_ : Text} {root : Node}

/-- Wherever the mappings have the field, it is the scalar. -/
def Holds (field : Field) (value : Text) (root : Node) : Prop :=
  ∀ fields node, (.scalar field.section_, .map fields) ∈ root.sections →
    (.scalar field.key, node) ∈ fields → node = .scalar value

theorem setEntry_fst (entry : Node × Node) : (setEntry field section_ value entry).1 = entry.1 := by
  unfold setEntry
  split <;> rfl

theorem setSection_fst (entry : Node × Node) : (setSection field value entry).1 = entry.1 := by
  unfold setSection
  split <;> rfl

theorem sections_setField (field : Field) (value : Text) (root : Node) :
    (root.setField field value).sections = root.sections.map (setSection field value) := by
  cases root <;> rfl

theorem mem_setSection {name : Node} {fields' : List (Node × Node)} :
    (name, .map fields') ∈ (root.setField field value).sections → ∃ fields,
      (name, .map fields) ∈ root.sections ∧
        (fields' = fields ∧ (∀ section_, name ≠ .scalar section_) ∨ ∃ section_,
          name = .scalar section_ ∧ fields' = fields.map (setEntry field section_ value)) := by
  rw [sections_setField, List.mem_map]
  rintro ⟨⟨name', node⟩, hmem, heq⟩
  unfold setSection at heq
  split at heq
  · rename_i section_ fields hentry
    obtain ⟨rfl, rfl⟩ := Prod.mk.inj hentry
    obtain ⟨rfl, hfields⟩ := Prod.mk.inj heq
    exact ⟨fields, hmem, Or.inr ⟨section_, rfl, (Node.map.inj hfields).symm⟩⟩
  · rename_i hentry
    obtain ⟨rfl, rfl⟩ := Prod.mk.inj heq
    refine ⟨fields', hmem, Or.inl ⟨rfl, fun section_ hname => hentry section_ fields' ?_⟩⟩
    rw [hname]

theorem mem_setSection_scalar {fields' : List (Node × Node)}
    (h : (.scalar section_, .map fields') ∈ (root.setField field value).sections) : ∃ fields,
      (.scalar section_, .map fields) ∈ root.sections ∧
        fields' = fields.map (setEntry field section_ value) := by
  obtain ⟨fields, hmem, ⟨-, hname⟩ | ⟨section', hname, hfields⟩⟩ := mem_setSection h
  · exact absurd rfl (hname section_)
  · obtain rfl := Node.scalar.inj hname
    exact ⟨fields, hmem, hfields⟩

theorem mem_setEntry {key : Text} {node : Node} {fields : List (Node × Node)}
    (h : (.scalar key, node) ∈ fields.map (setEntry field section_ value)) :
    (⟨section_, key⟩ : Field) = field ∧ node = .scalar value ∧
        (∃ old, (.scalar key, old) ∈ fields) ∨
      (⟨section_, key⟩ : Field) ≠ field ∧ (.scalar key, node) ∈ fields := by
  obtain ⟨⟨name, old⟩, hmem, heq⟩ := List.mem_map.1 h
  unfold setEntry at heq
  split at heq
  · rename_i key' node' hentry
    obtain ⟨rfl, rfl⟩ := Prod.mk.inj hentry
    obtain ⟨hkey, hnode⟩ := Prod.mk.inj heq
    obtain rfl := Node.scalar.inj hkey
    split_ifs at hnode with hfield
    · exact Or.inl ⟨hfield, hnode.symm, old, hmem⟩
    · exact Or.inr ⟨hfield, hnode ▸ hmem⟩
  · rename_i hentry
    obtain ⟨rfl, rfl⟩ := Prod.mk.inj heq
    exact absurd rfl (hentry key old)

theorem has_setField (h : (root.setField field value).Has field') : root.Has field' := by
  obtain ⟨fields', node, hsection, hentry⟩ := h
  obtain ⟨fields, hmem, rfl⟩ := mem_setSection_scalar hsection
  obtain ⟨-, -, old, hold⟩ | ⟨-, hold⟩ := mem_setEntry hentry
  · exact ⟨fields, old, hmem, hold⟩
  · exact ⟨fields, node, hmem, hold⟩

theorem has_setField_of (h : root.Has field') : (root.setField field value).Has field' := by
  obtain ⟨fields, node, hsection, hentry⟩ := h
  refine ⟨fields.map (setEntry field field'.section_ value), _, ?_,
    List.mem_map.2 ⟨(.scalar field'.key, node), hentry, rfl⟩⟩
  rw [sections_setField]
  exact List.mem_map.2 ⟨_, hsection, rfl⟩

theorem holds_of_not_has (h : ¬ root.Has field) : root.Holds field value :=
  fun fields node hsection hentry => absurd ⟨fields, node, hsection, hentry⟩ h

theorem holds_setField : (root.setField field value).Holds field value := by
  intro fields' node hsection hentry
  obtain ⟨fields, -, rfl⟩ := mem_setSection_scalar hsection
  obtain ⟨-, hnode, -⟩ | ⟨hne, -⟩ := mem_setEntry hentry
  · exact hnode
  · exact absurd rfl hne

theorem Holds.setField (h : root.Holds field' value') (hne : field ≠ field') :
    (root.setField field value).Holds field' value' := by
  intro fields' node hsection hentry
  obtain ⟨fields, hmem, rfl⟩ := mem_setSection_scalar hsection
  obtain ⟨heq, -, -⟩ | ⟨-, hold⟩ := mem_setEntry hentry
  · exact absurd heq.symm hne
  · exact h fields node hmem hold

theorem Distinct.setField (h : root.Distinct) : (root.setField field value).Distinct := by
  refine ⟨?_, fun name fields' hsection => ?_⟩
  · have hnames : (setSection field value · |>.1) = (Prod.fst : Node × Node → Node) :=
      funext setSection_fst
    rw [sections_setField, List.map_map]
    change (root.sections.map (setSection field value · |>.1)).Nodup
    rw [hnames]
    exact h.sections
  · obtain ⟨fields, hmem, ⟨rfl, -⟩ | ⟨section_, -, rfl⟩⟩ := mem_setSection hsection
    · exact h.fields name fields' hmem
    · have hnames : (setEntry field section_ value · |>.1) = (Prod.fst : Node × Node → Node) :=
        funext setEntry_fst
      rw [List.map_map]
      change (fields.map (setEntry field section_ value · |>.1)).Nodup
      rw [hnames]
      exact h.fields name fields hmem

theorem secretsMasked_of_holds (h : ∀ field ∈ secretFields, root.Holds field mask) :
    root.secretsMasked = true := by
  cases root with
  | map sections =>
      refine List.all_eq_true.2 fun entry hentry => ?_
      unfold sectionMasked
      split
      · rename_i section_ fields
        refine List.all_eq_true.2 fun entry hfield => ?_
        have hholds : ∀ key node, entry = (.scalar key, node) → ⟨section_, key⟩ ∈ secretFields →
            node = .scalar mask := by
          rintro key node rfl hmem
          exact h _ hmem fields node hentry hfield
        split
        · rename_i key value
          by_cases hmem : (⟨section_, key⟩ : Field) ∈ secretFields
          · obtain rfl := Node.scalar.inj (hholds key _ rfl hmem)
            simp
          · simp [hmem]
        · rename_i key node hne
          by_cases hmem : (⟨section_, key⟩ : Field) ∈ secretFields
          · exact absurd (hholds key node rfl hmem) (by rintro rfl; exact hne _ rfl)
          · simp [hmem]
        · rfl
      · rfl
  | null => rfl
  | scalar value => rfl
  | sequence values => rfl

end Node

/-- A scalar of a section can be exchanged for a quoted word: the text then loads as the same
mappings with the word for the field. -/
structure BlockMappings (yaml : Yaml) : Prop where
  exchange : ∀ field ∈ secretFields, ∀ (place : Place) (value word : Text) (root : Node),
    place.Direct field → Scalar value → Quotable word → BlockStyle (place.lines field value) →
    yaml.load (joinLines (place.lines field value)) = some root → root.Distinct → root.Has field →
    yaml.load (joinLines (place.lines field (quoted word))) = some (root.setField field word)

end InferDeck.Gateway.ConfigSecrets
