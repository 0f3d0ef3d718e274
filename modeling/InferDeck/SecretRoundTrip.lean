import InferDeck.BlockReader
import InferDeck.SecretEdits

/-!
# Secrets survive masking and restoring

A text whose secrets stand where the scanner and the library both see them is masked in place:
restoring gives it back, and nothing of the secrets is left in what is shown.
-/

namespace InferDeck.Gateway.ConfigSecrets

section RoundTrip

variable (yaml : Yaml)

/-- What masking keeps of a text and hides of it, and restoring of a submitted one. -/
structure RoundTrip (text : Text) : Prop where
  restored : restoreConfigSecrets yaml (maskConfigSecrets yaml text) text = text
  nonempty : text ≠ [] → maskConfigSecrets yaml text ≠ []
  masked : secretNodesAreMasked yaml (maskConfigSecrets yaml text) = true
  hidden : ∀ field ∈ secretFields, ∀ value rest,
    get field false (splitLines text) = some (value, rest) →
      get field false (splitLines (maskConfigSecrets yaml text)) = some (quotedMask, rest)
  independent : ∀ field ∈ secretFields, ∀ value value' rest,
    get field false (splitLines text) = some (value, rest) → Scalar value' →
      (value' = [] → ∀ c ∈ rest.head?, isBlank c = false) →
      ('#' ∈ rest → openQuotes false false ' ' value' = (false, false)) →
      maskConfigSecrets yaml (replaceScalar value' text field) = maskConfigSecrets yaml text
  edited : ∀ submitted, MaskedOnly (splitLines text) secretFields (splitLines submitted) → ∀ row,
    (∀ field ∈ secretFields, ∀ found ∈ spot field false (splitLines submitted),
      found.value ∈ masks → found.row ≠ row) →
    (splitLines (restoreConfigSecrets yaml submitted text))[row]? = (splitLines submitted)[row]?
  kept : ∀ submitted, MaskedOnly (splitLines text) secretFields (splitLines submitted) → ∀ field,
    (∀ value ∈ masks, ∀ rest, field ∈ secretFields →
      get field false (splitLines submitted) ≠ some (value, rest)) →
    get field false (splitLines (restoreConfigSecrets yaml submitted text)) =
      get field false (splitLines submitted)

variable {yaml} {text value value' rest : Text} {field : Field} {root : Node} {lines : List Text}

theorem maskConfigSecrets_eq (h : secretNodesAreMasked yaml (maskSpans text) = true) :
    maskConfigSecrets yaml text = maskSpans text := if_pos h

theorem maskSpans_replaceScalar (hfield : field ∈ secretFields)
    (hget : get field false (splitLines text) = some (value, rest)) (hvalue : '\n' ∉ value')
    (hfits : Fits value' rest) : maskSpans (replaceScalar value' text field) = maskSpans text := by
  refine eq_of_splitLines ?_
  rw [splitLines_maskSpans, splitLines_maskSpans, splitLines_replaceScalar hvalue,
    maskLines_put secretFields_nodup hfield hget hfits]

/-- Behind a secret there is nothing but blanks and a comment. -/
theorem Agrees.trailing (h : Agrees yaml secretFields lines root) (hfield : field ∈ secretFields)
    (hget : get field false lines = some (value, rest)) : Trailing rest := by
  by_cases hhas : root.Has field
  · obtain ⟨place, value', rfl, hdirect, hvalue, hread⟩ := h.written field hfield hhas
    rw [hdirect.get_lines hread hvalue hfield] at hget
    rw [← (Prod.mk.inj (Option.some.inj hget)).2]
    exact hdirect.after
  · rw [h.unread field hfield hhas] at hget
    cases hget

theorem head_of_trailing (h : Trailing rest) : rest.head? ≠ some '#' := by
  obtain ⟨blanks, comment, rfl, hblanks, hcomment⟩ := h
  cases blanks with
  | nil =>
      obtain rfl | ⟨-, c, hlast, -⟩ := hcomment
      · exact fun h => by cases h
      · cases hlast
  | cons c blanks =>
      intro hhead
      obtain rfl := Option.some.inj hhead
      exact absurd (hblanks _ List.mem_cons_self) (by decide)

end RoundTrip

section Token

def keptNote : Text :=
  "auth:\n  required: true\n  token: \"private-token\" # keep token note\n".toList

def keptPlace : Place where
  before := []
  heading := []
  between := ["  required: true".toList]
  indent := "  ".toList
  blanks := " ".toList
  after := " # keep token note".toList
  later := [[]]

theorem keptPlace_direct : keptPlace.Direct ⟨"auth".toList, "token".toList⟩ where
  before := fun _ hmem => by cases hmem
  heading := ⟨[], [], rfl, fun _ hmem => (by cases hmem), Or.inl rfl⟩
  indent := ⟨by decide, forall_mem_of_all (by decide)⟩
  between := by decide
  block := by decide
  blanks := ⟨by decide, forall_mem_of_all (by decide)⟩
  after := ⟨[' '], "# keep token note".toList, rfl, forall_mem_of_all (by decide),
    Or.inr ⟨rfl, ' ', rfl, rfl⟩⟩
  later := by decide

def keptRoot : Node :=
  .map [(.scalar "auth".toList, .map [(.scalar "required".toList, .scalar "true".toList),
    (.scalar "token".toList, .scalar "private-token".toList)])]

/-- The token is the one secret of the configuration. -/
theorem keptRoot_has (hfield : field ∈ secretFields) :
    keptRoot.Has field ↔ field = ⟨"auth".toList, "token".toList⟩ := by
  constructor
  · rintro ⟨fields, node, hsection, -⟩
    obtain ⟨hname, -⟩ := Prod.mk.inj (List.mem_singleton.1 hsection)
    have hauth : ∀ field ∈ secretFields, field.section_ = "auth".toList →
        field = ⟨"auth".toList, "token".toList⟩ := by decide
    exact hauth field hfield (Node.scalar.inj hname)
  · rintro rfl
    exact ⟨_, _, List.mem_singleton.2 rfl, List.mem_cons_of_mem _ List.mem_cons_self⟩

theorem keptNote_block : BlockStyle (splitLines keptNote) where
  unbroken := by decide +kernel
  unmarked := by decide +kernel
  returns := by decide +kernel
  block := fun line hline => by
    have hfirst : (splitLines keptNote).find? (!skipped ·) = some "auth:".toList := by
      decide +kernel
    rw [hfirst] at hline
    obtain rfl := Option.some.inj hline
    refine ⟨by decide, fun c hc => ?_⟩
    obtain rfl := Option.some.inj hc
    rfl

theorem keptNote_agrees : Agrees blockYaml secretFields (splitLines keptNote) keptRoot where
  loaded := by
    rw [join_split]
    rfl
  distinct := by
    refine ⟨List.nodup_singleton _, fun name fields hsection => ?_⟩
    obtain ⟨-, hfields⟩ := Prod.mk.inj (List.mem_singleton.1 hsection)
    obtain rfl := Node.map.inj hfields
    refine List.nodup_cons.2 ⟨fun hmem => ?_, List.nodup_singleton _⟩
    have hname := Node.scalar.inj (List.mem_singleton.1 hmem)
    exact absurd hname (by decide)
  block := keptNote_block
  written := fun field hfield hhas => by
    obtain rfl := (keptRoot_has hfield).1 hhas
    have hsecret : Scalar "\"private-token\"".toList := ⟨by decide, forall_mem_of_all (by decide)⟩
    exact ⟨keptPlace, _, by decide +kernel, keptPlace_direct, hsecret,
      by decide, fun h => (by cases h), by decide⟩
  unread := fun field hfield hhas => by
    rw [keptRoot_has hfield] at hhas
    have hnone : ∀ field ∈ secretFields, field ≠ ⟨"auth".toList, "token".toList⟩ →
        get field false (splitLines keptNote) = none := by decide +kernel
    exact hnone field hfield hhas

def tokenNote (token : String) : Text :=
  "auth:\n  token: ".toList ++ token.toList ++ " # note\n".toList

def emptyToken : Text := "auth:\n  token:\n  required: true\n".toList

end Token

end InferDeck.Gateway.ConfigSecrets
