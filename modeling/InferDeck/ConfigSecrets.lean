import Mathlib.Tactic
import Mathlib.Data.List.DropRight
import InferDeck.StreamingSanitizer

/-!
# The secrets of a configuration text

`mask_config_secrets` hides three scalars of a YAML text, which a scanner of its own finds line by
line, and lets the YAML library check the text. `restore_config_secrets` puts the scalars of the
current text where a submitted one still has the mask. The YAML library is a parameter.
-/

namespace InferDeck.Gateway.ConfigSecrets

/-! ### The scanner -/

def isBlank (c : Char) : Bool := c == ' ' || c == '\t'

/-- A line that is neither blank nor a comment, up to its first colon and after it. -/
structure KeyLine where
  indent : Text
  name : Text
  rest : Text
  deriving DecidableEq

def keyLine (line : Text) : Option KeyLine :=
  let indent := line.takeWhile fun c => isBlank c || c == '\r'
  let body := line.dropWhile fun c => isBlank c || c == '\r'
  if body.head? = some '#' ∨ ':' ∉ body then none
  else some {
    indent
    name := body.takeWhile (· != ':')
    rest := (body.dropWhile (· != ':')).tail }

/-- The text before a comment. A quote toggles unless the other kind is open or, for a double one, a
backslash stands before it; a comment begins after a blank, outside of quotes. -/
def uncommented (single double : Bool) (previous : Char) : Text → Text
  | [] => []
  | c :: text =>
      let single' := if c == '\'' && !double then !single else single
      let double' := if c == '"' && !single' && previous != '\\' then !double else double
      if c == '#' && !single' && !double' && isBlank previous then []
      else c :: uncommented single' double' c text

def trimEnd (text : Text) : Text := text.rdropWhile fun c => isBlank c || c == '\r'

/-- The scalar at the start of a text. Its first character counts as one after a blank. -/
def scalar (text : Text) : Text := trimEnd (uncommented false false ' ' text)

/-- Where a scalar stands: the lines before, its line around it, and the lines after. -/
structure ScalarSpan where
  earlier : List Text
  start : Text
  value : Text
  rest : Text
  later : List Text

namespace ScalarSpan

def lines (span : ScalarSpan) (value : Text) : List Text :=
  span.earlier ++ (span.start ++ value ++ span.rest) :: span.later

def under (line : Text) (span : ScalarSpan) : ScalarSpan :=
  { span with earlier := line :: span.earlier }

end ScalarSpan

def KeyLine.span (line : KeyLine) (later : List Text) : ScalarSpan :=
  let text := line.rest.dropWhile isBlank
  { earlier := []
    start := line.indent ++ line.name ++ ':' :: line.rest.takeWhile isBlank
    value := scalar text
    rest := text.drop (scalar text).length
    later }

structure Field where
  section_ : Text
  key : Text
  deriving DecidableEq

def scanLines (field : Field) : Bool → List Text → Option ScalarSpan
  | _, [] => none
  | inSection, line :: lines =>
      match keyLine line with
      | none => (scanLines field inSection lines).map (.under line)
      | some found =>
          if found.indent = [] then
            (scanLines field (found.name == field.section_) lines).map (.under line)
          else if inSection && found.name == field.key then some (found.span lines)
          else (scanLines field inSection lines).map (.under line)

def splitLines (text : Text) : List Text := text.splitOn '\n'

def joinLines (lines : List Text) : Text := ['\n'].intercalate lines

def yamlScalarSpan (text : Text) (field : Field) : Option ScalarSpan :=
  scanLines field false (splitLines text)

def ScalarSpan.replace (span : ScalarSpan) (value : Text) : Text := joinLines (span.lines value)

/-! ### Masking and restoring -/

inductive Node where
  | null
  | scalar (value : Text)
  | sequence (values : List Node)
  | map (fields : List (Node × Node))

structure Yaml where
  load : Text → Option Node
  dump : Node → Text

def secretFields : List Field :=
  [⟨"auth".toList, "token".toList⟩, ⟨"control".toList, "token".toList⟩,
    ⟨"model_store".toList, "hf_token".toList⟩]

def mask : Text := "__INFERDECK_SECRET__".toList

def quotedMask : Text := "\"__INFERDECK_SECRET__\"".toList

namespace Node

def sectionMasked : Node × Node → Bool
  | (.scalar section_, .map fields) => fields.all fun
      | (.scalar key, .scalar value) => decide (⟨section_, key⟩ ∉ secretFields) || value == mask
      | (.scalar key, _) => decide (⟨section_, key⟩ ∉ secretFields)
      | _ => true
  | _ => true

def secretsMasked : Node → Bool
  | .map sections => sections.all sectionMasked
  | _ => true

def maskSection : Node × Node → Node × Node
  | (.scalar section_, .map fields) => (.scalar section_, .map (fields.map fun
      | (.scalar key, value) =>
          (.scalar key, if ⟨section_, key⟩ ∈ secretFields then .scalar mask else value)
      | field => field))
  | field => field

/-- `node[key]`, which throws for a scalar. -/
def subscript (key : Text) : Node → Option (Option Node)
  | .scalar _ => none
  | .map fields => some ((fields.find? fun
      | (.scalar name, _) => name == key
      | _ => false).map (·.2))
  | _ => some none

def asString : Node → Option Text
  | .scalar value => some value
  | .null => some "null".toList
  | _ => none

/-- The current value of a masked field, or nothing where the library throws. -/
def currentValue (current : Node) (section_ key : Text) : Option Text := do
  let found ← subscript section_ current
  match ← subscript key (← found) with
  | none => return mask
  | some replacement => replacement.asString

def restoreSection (current : Node) : Node × Node → Option (Node × Node)
  | (.scalar section_, .map fields) => do
      let fields ← fields.mapM fun
        | (.scalar key, .scalar value) =>
            if ⟨section_, key⟩ ∈ secretFields ∧ value = mask then do
              return (.scalar key, .scalar (← current.currentValue section_ key))
            else return (.scalar key, .scalar value)
        | field => return field
      return (.scalar section_, .map fields)
  | field => return field

end Node

variable (yaml : Yaml)

def secretNodesAreMasked (text : Text) : Bool := (yaml.load text).any Node.secretsMasked

def serializeMaskedConfig (text : Text) : Text :=
  match yaml.load text with
  | some (.map sections) => yaml.dump (.map (sections.map Node.maskSection))
  | _ => []

def replaceScalar (value text : Text) (field : Field) : Text :=
  match yamlScalarSpan text field with
  | some span => span.replace value
  | none => text

def maskSpans (text : Text) : Text := secretFields.foldl (replaceScalar quotedMask) text

def maskConfigSecrets (text : Text) : Text :=
  let masked := maskSpans text
  if secretNodesAreMasked yaml masked then masked else serializeMaskedConfig yaml masked

def masks : List Text := [mask, quotedMask, '\'' :: mask ++ ['\'']]

def restoreScalar (current submitted : Text) (field : Field) : Text :=
  match yamlScalarSpan submitted field, yamlScalarSpan current field with
  | some span, some original =>
      if masks.contains span.value then span.replace original.value else submitted
  | _, _ => submitted

def restoreSpans (submitted current : Text) : Text :=
  secretFields.foldl (restoreScalar current) submitted

/-- The fields restored by the library, or the given text where it throws. -/
def restoreNodes (submitted current restored : Text) : Text :=
  match yaml.load submitted, yaml.load current with
  | some (.map sections), some (.map currentSections) =>
      match sections.mapM (Node.restoreSection (.map currentSections)) with
      | some sections => yaml.dump (.map sections)
      | none => restored
  | _, _ => restored

def restoreConfigSecrets (submitted current : Text) : Text :=
  let restored := restoreSpans submitted current
  if mask <:+: restored then restoreNodes yaml submitted current restored else restored

end InferDeck.Gateway.ConfigSecrets
