import InferDeck.StreamingSanitizer

/-!
# Bearer credentials

A managed API key is `idk_`, the 32 hexadecimal digits of its identifier, `_` and the 43 characters
of its secret in URL-safe base 64. `parse_bearer` takes a header apart again. A character stands for
a byte.
-/

namespace InferDeck.Gateway

def hexEncode (data : List UInt8) : Text :=
  data.flatMap fun byte => [Nat.digitChar (byte.toNat / 16), Nat.digitChar (byte.toNat % 16)]

def base64urlAlphabet : Text :=
  "ABCDEFGHIJKLMNOPQRSTUVWXYZabcdefghijklmnopqrstuvwxyz0123456789-_".toList

/-- The character of the six bits of the chunk that begin at the shift. -/
def base64urlDigit (chunk shift : ℕ) : Char :=
  base64urlAlphabet.getD (chunk >>> shift &&& 0x3f) 'A'

def base64urlChunk (first second third : ℕ) : ℕ := first <<< 16 ||| second <<< 8 ||| third

def base64urlEncode : List UInt8 → Text
  | [] => []
  | [first] =>
      let chunk := base64urlChunk first.toNat 0 0
      [base64urlDigit chunk 18, base64urlDigit chunk 12]
  | [first, second] =>
      let chunk := base64urlChunk first.toNat second.toNat 0
      [base64urlDigit chunk 18, base64urlDigit chunk 12, base64urlDigit chunk 6]
  | first :: second :: third :: bytes =>
      let chunk := base64urlChunk first.toNat second.toNat third.toNat
      base64urlDigit chunk 18 :: base64urlDigit chunk 12 :: base64urlDigit chunk 6 ::
        base64urlDigit chunk 0 :: base64urlEncode bytes

def identifierLength : ℕ := 32

def secretLength : ℕ := 43

def identifierChar (c : Char) : Bool := c.isDigit || (decide ('a' ≤ c) && decide (c ≤ 'f'))

def secretChar (c : Char) : Bool := c.isAlphanum || c == '-' || c == '_'

def keyScheme : Text := "idk_".toList

def bearerScheme : Text := "Bearer ".toList

def parseBearer (authorization : Text) : Option (Text × Text) :=
  if !bearerScheme.isPrefixOf authorization then none
  else
    let token := authorization.drop 7
    if token.length ≠ 4 + identifierLength + 1 + secretLength ∨ !keyScheme.isPrefixOf token ∨
        token[4 + identifierLength]? ≠ some '_' then none
    else
      let identifier := (token.drop 4).take identifierLength
      if !identifier.all identifierChar then none
      else
        let secret := token.drop (5 + identifierLength)
        if !secret.all secretChar then none
        else some (identifier, token)

/-- The key that `create` hands out. -/
def keyText (identifier secret : Text) : Text := keyScheme ++ identifier ++ '_' :: secret

structure WellFormedKey (identifier secret : Text) : Prop where
  identifierSize : identifier.length = identifierLength
  identifierChars : identifier.all identifierChar = true
  secretSize : secret.length = secretLength
  secretChars : secret.all secretChar = true

theorem hexEncode_length (data : List UInt8) : (hexEncode data).length = 2 * data.length := by
  induction data with
  | nil => rfl
  | cons byte data ih =>
      rw [hexEncode, List.flatMap_cons, List.length_append]
      change 2 + (hexEncode data).length = 2 * (data.length + 1)
      omega

theorem identifierChar_digitChar {n : ℕ} (h : n < 16) : identifierChar (Nat.digitChar n) = true := by
  interval_cases n <;> decide

theorem hexEncode_chars (data : List UInt8) : (hexEncode data).all identifierChar = true := by
  induction data with
  | nil => rfl
  | cons byte data ih =>
      have hbyte : byte.toNat < 256 := byte.toNat_lt
      have hhigh : identifierChar (Nat.digitChar (byte.toNat / 16)) = true :=
        identifierChar_digitChar (by omega)
      have hlow : identifierChar (Nat.digitChar (byte.toNat % 16)) = true :=
        identifierChar_digitChar (by omega)
      change ([_, _] ++ hexEncode data).all identifierChar = true
      rw [List.all_append, ih]
      simp [hhigh, hlow]

theorem secretChar_base64urlDigit (chunk shift : ℕ) :
    secretChar (base64urlDigit chunk shift) = true := by
  have halphabet : base64urlAlphabet.all secretChar = true := by decide
  rw [base64urlDigit, List.getD_eq_getElem?_getD]
  cases h : base64urlAlphabet[chunk >>> shift &&& 0x3f]? with
  | none => rfl
  | some c => exact List.all_eq_true.1 halphabet c (List.mem_of_getElem? h)

theorem base64urlEncode_chars (bytes : List UInt8) :
    (base64urlEncode bytes).all secretChar = true := by
  induction bytes using base64urlEncode.induct with
  | case1 => rfl
  | case2 first => simp [base64urlEncode, secretChar_base64urlDigit]
  | case3 first second => simp [base64urlEncode, secretChar_base64urlDigit]
  | case4 first second third bytes ih => simp [base64urlEncode, secretChar_base64urlDigit, ih]

theorem base64urlEncode_length (bytes : List UInt8) :
    (base64urlEncode bytes).length = (4 * bytes.length + 2) / 3 := by
  induction bytes using base64urlEncode.induct with
  | case1 => rfl
  | case2 first => simp [base64urlEncode]
  | case3 first second => simp [base64urlEncode]
  | case4 first second third bytes ih =>
      simp only [base64urlEncode, List.length_cons, ih]
      omega

theorem wellFormedKey_encode {identifier secret : List UInt8} (hidentifier : identifier.length = 16)
    (hsecret : secret.length = 32) :
    WellFormedKey (hexEncode identifier) (base64urlEncode secret) where
  identifierSize := by rw [hexEncode_length, hidentifier]; rfl
  identifierChars := hexEncode_chars identifier
  secretSize := by rw [base64urlEncode_length, hsecret]; rfl
  secretChars := base64urlEncode_chars secret

theorem keyText_length {identifier secret : Text} (h : WellFormedKey identifier secret) :
    (keyText identifier secret).length = 4 + identifierLength + 1 + secretLength := by
  rw [keyText, List.length_append, List.length_append, List.length_cons, h.identifierSize,
    h.secretSize]
  rfl

/-- A text of the length of a key splits at the underscore. -/
theorem split_token {rest : Text} (hlength : rest.length = identifierLength + 1 + secretLength)
    (hunderscore : rest[identifierLength]? = some '_') :
    rest = rest.take identifierLength ++ '_' :: rest.drop (identifierLength + 1) := by
  have hlt : identifierLength < rest.length := by
    rw [hlength]
    decide
  have hget : rest[identifierLength] = '_' := by
    rw [List.getElem?_eq_getElem hlt] at hunderscore
    exact Option.some.inj hunderscore
  calc rest = rest.take identifierLength ++ rest.drop identifierLength := by
        rw [List.take_append_drop]
    _ = rest.take identifierLength ++ '_' :: rest.drop (identifierLength + 1) := by
        rw [List.drop_eq_getElem_cons hlt, hget]

/-- A header is parsed exactly where it is the scheme followed by a well-formed key. -/
theorem parseBearer_eq_some_iff {authorization identifier token : Text} :
    parseBearer authorization = some (identifier, token) ↔
      ∃ secret, WellFormedKey identifier secret ∧ token = keyText identifier secret ∧
        authorization = bearerScheme ++ token := by
  constructor
  · intro h
    unfold parseBearer at h
    split at h
    · cases h
    rename_i hscheme
    obtain ⟨token, rfl⟩ : bearerScheme <+: authorization := by
      rw [← List.isPrefixOf_iff_prefix]
      simpa using hscheme
    have hdrop : (bearerScheme ++ token).drop 7 = token := rfl
    simp only [hdrop] at h
    split at h
    · cases h
    rename_i hshape
    simp only [not_or, not_not, Bool.not_eq_true, Bool.not_eq_false'] at hshape
    obtain ⟨hlength, hkey, hunderscore⟩ := hshape
    obtain ⟨rest, rfl⟩ := List.isPrefixOf_iff_prefix.1 hkey
    split at h
    · cases h
    rename_i hidentifier
    split at h
    · cases h
    rename_i hsecret
    obtain ⟨rfl, rfl⟩ := Prod.mk.inj (Option.some.inj h)
    have hrest : rest.length = identifierLength + 1 + secretLength := by
      rw [List.length_append] at hlength
      have hkeyLength : keyScheme.length = 4 := rfl
      omega
    have hsplit := split_token hrest hunderscore
    refine ⟨rest.drop (identifierLength + 1), ?_, ?_, rfl⟩
    · refine ⟨?_, ?_, ?_, ?_⟩
      · change (rest.take identifierLength).length = _
        rw [List.length_take, hrest]
        rfl
      · change ¬(!(rest.take identifierLength).all identifierChar) = true at hidentifier
        rwa [Bool.not_eq_true, Bool.not_eq_false'] at hidentifier
      · rw [List.length_drop, hrest]
        rfl
      · change ¬(!(rest.drop (identifierLength + 1)).all secretChar) = true at hsecret
        rwa [Bool.not_eq_true, Bool.not_eq_false'] at hsecret
    · change keyScheme ++ rest = keyScheme ++ rest.take identifierLength ++ _
      rw [List.append_assoc, ← hsplit]
  · rintro ⟨secret, h, rfl, rfl⟩
    have hscheme : bearerScheme.isPrefixOf (bearerScheme ++ keyText identifier secret) = true :=
      List.isPrefixOf_iff_prefix.2 (List.prefix_append ..)
    have hkey : keyScheme.isPrefixOf (keyText identifier secret) = true := by
      rw [keyText, List.append_assoc]
      exact List.isPrefixOf_iff_prefix.2 (List.prefix_append ..)
    have hdrop : (bearerScheme ++ keyText identifier secret).drop 7 = keyText identifier secret :=
      rfl
    have htail : (keyText identifier secret).drop 4 = identifier ++ '_' :: secret := rfl
    have hunderscore : (keyText identifier secret)[4 + identifierLength]? = some '_' := by
      rw [← List.getElem?_drop, htail, ← h.identifierSize]
      simp
    have hidentifier : ((keyText identifier secret).drop 4).take identifierLength = identifier := by
      rw [htail, ← h.identifierSize, List.take_left]
    have hsecret : (keyText identifier secret).drop (5 + identifierLength) = secret := by
      have hadd : 5 + identifierLength = 4 + (identifier.length + 1) := by
        rw [h.identifierSize]
        rfl
      rw [hadd, ← List.drop_drop, htail, List.drop_append]
      simp
    simp [parseBearer, hscheme, hkey, hdrop, hunderscore, hidentifier, hsecret, keyText_length h,
      h.identifierChars, h.secretChars]

end InferDeck.Gateway
