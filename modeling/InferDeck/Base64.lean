import InferDeck.Foundation
import InferDeck.StreamingSanitizer

/-!
# Base 64

`decode_base64` reads the data of an image in a request, `base64` writes the data of an image in a
response. The decoder takes the encodings of the data that are not empty, and nothing else. A
character stands for a byte.
-/

namespace InferDeck.Gateway

open Foundation

def base64Alphabet : Text :=
  "ABCDEFGHIJKLMNOPQRSTUVWXYZabcdefghijklmnopqrstuvwxyz0123456789+/".toList

/-- The character of the six bits of the value that begin at the shift. -/
def base64Digit (value shift : ℕ) : Char := base64Alphabet.getD (value >>> shift &&& 63) 'A'

def base64Value (a b c : ℕ) : ℕ := a <<< 16 ||| b <<< 8 ||| c

def base64 : List UInt8 → Text
  | [] => []
  | [a] =>
      let value := base64Value a.toNat 0 0
      [base64Digit value 18, base64Digit value 12, '=', '=']
  | [a, b] =>
      let value := base64Value a.toNat b.toNat 0
      [base64Digit value 18, base64Digit value 12, base64Digit value 6, '=']
  | a :: b :: c :: bytes =>
      let value := base64Value a.toNat b.toNat c.toNat
      base64Digit value 18 :: base64Digit value 12 :: base64Digit value 6 ::
        base64Digit value 0 :: base64 bytes

/-- What the table `values` holds of a character, where that is not negative. -/
def base64Index (c : Char) : Option ℕ :=
  if c ∈ base64Alphabet then some (base64Alphabet.idxOf c) else none

def base64Padding (encoded : Text) : ℕ :=
  if ['=', '='].isSuffixOf encoded then 2 else if ['='].isSuffixOf encoded then 1 else 0

def checkBase64Character (dataSize : ℕ) (c : Char) (index : ℕ) : Result Unit :=
  if dataSize ≤ index then
    if c ≠ '=' then err .invalidArgument "image_url contains invalid base64 padding" else .ok ()
  else if base64Index c = none then
    err .invalidArgument "image_url contains invalid base64 data"
  else .ok ()

def checkBase64Characters (dataSize : ℕ) : Text → ℕ → Result Unit
  | [], _ => .ok ()
  | c :: encoded, index => do
      checkBase64Character dataSize c index
      checkBase64Characters dataSize encoded (index + 1)

def decodeBase64Group (first second third fourth : Char) : Result (List UInt8) :=
  match base64Index first, base64Index second,
    if third = '=' then some 0 else base64Index third,
    if fourth = '=' then some 0 else base64Index fourth with
  | some i, some j, some k, some l =>
      let value := i <<< 18 ||| j <<< 12 ||| k <<< 6 ||| l
      .ok (UInt8.ofNat (value >>> 16 &&& 0xff) ::
        ((if third ≠ '=' then [UInt8.ofNat (value >>> 8 &&& 0xff)] else []) ++
          if fourth ≠ '=' then [UInt8.ofNat (value &&& 0xff)] else []))
  | _, _, _, _ => err .invalidArgument "image_url contains invalid base64 data"

def decodeBase64Groups : Text → Result (List UInt8)
  | first :: second :: third :: fourth :: encoded => do
      let bytes ← decodeBase64Group first second third fourth
      let rest ← decodeBase64Groups encoded
      .ok (bytes ++ rest)
  | _ => .ok []

/-- Whether the bits of the last character that no byte takes are zero. -/
def base64TailIsZero (encoded : Text) (padding dataSize : ℕ) : Bool :=
  match encoded[dataSize - 1]?.bind base64Index with
  | none => true
  | some i =>
      !(decide (padding = 1) && decide (i &&& 3 ≠ 0)) &&
        !(decide (padding = 2) && decide (i &&& 0xf ≠ 0))

def decodeBase64 (encoded : Text) : Result (List UInt8) :=
  if encoded.isEmpty || decide (encoded.length % 4 ≠ 0) then
    err .invalidArgument "image_url contains invalid base64 length"
  else do
    let padding := base64Padding encoded
    let dataSize := encoded.length - padding
    checkBase64Characters dataSize encoded 0
    let output ← decodeBase64Groups encoded
    if !base64TailIsZero encoded padding dataSize then
      err .invalidArgument "image_url contains non-canonical base64 padding"
    else if output.isEmpty then
      err .invalidArgument "image_url decoded to empty data"
    else .ok output

/-! ### One group -/

def base64Char (index : ℕ) : Char := base64Alphabet.getD index 'A'

theorem base64Index_char {i : ℕ} (h : i < 64) : base64Index (base64Char i) = some i := by
  interval_cases i <;> rfl

theorem base64Index_pad : base64Index '=' = none := by decide

theorem base64Index_eq_some {c : Char} {i : ℕ} (h : base64Index c = some i) :
    i < 64 ∧ c = base64Char i := by
  unfold base64Index at h
  split_ifs at h with hmem
  obtain rfl := Option.some.inj h
  have hlt := List.idxOf_lt_length_of_mem hmem
  refine ⟨hlt, ?_⟩
  rw [base64Char, List.getD_eq_getElem?_getD, List.getElem?_eq_getElem hlt, Option.getD_some]
  exact (List.getElem_idxOf hlt).symm

theorem ne_pad_of_base64Index {c : Char} {i : ℕ} (h : base64Index c = some i) : c ≠ '=' := by
  rintro rfl
  rw [base64Index_pad] at h
  cases h

theorem base64Digit_eq (value shift : ℕ) :
    base64Digit value shift = base64Char (value / 2 ^ shift % 64) := by
  rw [base64Digit, base64Char, Nat.shiftRight_eq_div_pow, Nat.and_two_pow_sub_one_eq_mod _ 6]

theorem base64Value_eq {a b c : ℕ} (hb : b < 2 ^ 8) (hc : c < 2 ^ 8) :
    base64Value a b c = a * 2 ^ 16 + b * 2 ^ 8 + c := by
  have hlow : b <<< 8 ||| c = b * 2 ^ 8 + c := by
    rw [← Nat.shiftLeft_add_eq_or_of_lt hc, Nat.shiftLeft_eq]
  have hbound : b * 2 ^ 8 + c < 2 ^ 16 := by omega
  rw [base64Value, Nat.or_assoc, hlow, ← Nat.shiftLeft_add_eq_or_of_lt hbound, Nat.shiftLeft_eq]
  omega

/-- The number of a group from its four indices. -/
theorem groupValue_eq {i j k l : ℕ} (hj : j < 64) (hk : k < 64) (hl : l < 64) :
    i <<< 18 ||| j <<< 12 ||| k <<< 6 ||| l = i * 2 ^ 18 + j * 2 ^ 12 + k * 2 ^ 6 + l := by
  have hlow : k <<< 6 ||| l = k * 2 ^ 6 + l := by
    rw [← Nat.shiftLeft_add_eq_or_of_lt (show l < 2 ^ 6 from hl), Nat.shiftLeft_eq]
  have hlowBound : k * 2 ^ 6 + l < 2 ^ 12 := by omega
  have hmiddle : j <<< 12 ||| (k * 2 ^ 6 + l) = j * 2 ^ 12 + (k * 2 ^ 6 + l) := by
    rw [← Nat.shiftLeft_add_eq_or_of_lt hlowBound, Nat.shiftLeft_eq]
  have hbound : j * 2 ^ 12 + (k * 2 ^ 6 + l) < 2 ^ 18 := by omega
  rw [Nat.or_assoc, Nat.or_assoc, hlow, hmiddle, ← Nat.shiftLeft_add_eq_or_of_lt hbound,
    Nat.shiftLeft_eq]
  omega

/-- The four characters of three bytes. -/
theorem base64_cons (a b c : UInt8) (bytes : List UInt8) :
    base64 (a :: b :: c :: bytes) =
      base64Char (a.toNat / 4) :: base64Char (a.toNat % 4 * 16 + b.toNat / 16) ::
        base64Char (b.toNat % 16 * 4 + c.toNat / 64) :: base64Char (c.toNat % 64) ::
          base64 bytes := by
  have ha := a.toNat_lt
  have hb := b.toNat_lt
  have hc := c.toNat_lt
  have hfirst : (a.toNat * 2 ^ 16 + b.toNat * 2 ^ 8 + c.toNat) / 2 ^ 18 % 64 = a.toNat / 4 := by
    omega
  have hsecond : (a.toNat * 2 ^ 16 + b.toNat * 2 ^ 8 + c.toNat) / 2 ^ 12 % 64 =
      a.toNat % 4 * 16 + b.toNat / 16 := by
    omega
  have hthird : (a.toNat * 2 ^ 16 + b.toNat * 2 ^ 8 + c.toNat) / 2 ^ 6 % 64 =
      b.toNat % 16 * 4 + c.toNat / 64 := by
    omega
  have hfourth : (a.toNat * 2 ^ 16 + b.toNat * 2 ^ 8 + c.toNat) / 2 ^ 0 % 64 = c.toNat % 64 := by
    rw [pow_zero, Nat.div_one]
    omega
  simp only [base64, base64Digit_eq, base64Value_eq hb hc, hfirst, hsecond, hthird, hfourth]

theorem base64_two (a b : UInt8) :
    base64 [a, b] =
      [base64Char (a.toNat / 4), base64Char (a.toNat % 4 * 16 + b.toNat / 16),
        base64Char (b.toNat % 16 * 4), '='] := by
  have ha := a.toNat_lt
  have hb := b.toNat_lt
  simp only [base64, base64Digit_eq, base64Value_eq hb (Nat.two_pow_pos 8)]
  congr 2
  · omega
  congr 2
  · omega
  congr 2
  omega

theorem base64_one (a : UInt8) :
    base64 [a] = [base64Char (a.toNat / 4), base64Char (a.toNat % 4 * 16), '=', '='] := by
  have ha := a.toNat_lt
  simp only [base64, base64Digit_eq, base64Value_eq (Nat.two_pow_pos 8) (Nat.two_pow_pos 8)]
  congr 2
  · omega
  congr 2
  omega

section Group

variable {i j k l : ℕ}

theorem decodeBase64Group_three (hi : i < 64) (hj : j < 64) (hk : k < 64) (hl : l < 64) :
    decodeBase64Group (base64Char i) (base64Char j) (base64Char k) (base64Char l) =
      .ok [UInt8.ofNat (i * 4 + j / 16), UInt8.ofNat (j % 16 * 16 + k / 4),
        UInt8.ofNat (k % 4 * 64 + l)] := by
  have hk' := ne_pad_of_base64Index (base64Index_char hk)
  have hl' := ne_pad_of_base64Index (base64Index_char hl)
  simp only [decodeBase64Group, base64Index_char hi, base64Index_char hj, base64Index_char hk,
    base64Index_char hl, ne_eq, hk', hl', not_false_eq_true, if_true, if_false,
    groupValue_eq hj hk hl, Nat.shiftRight_eq_div_pow, Nat.and_two_pow_sub_one_eq_mod _ 8,
    List.cons_append, List.nil_append]
  have hfirst : (i * 2 ^ 18 + j * 2 ^ 12 + k * 2 ^ 6 + l) / 2 ^ 16 % 2 ^ 8 = i * 4 + j / 16 := by
    omega
  have hsecond : (i * 2 ^ 18 + j * 2 ^ 12 + k * 2 ^ 6 + l) / 2 ^ 8 % 2 ^ 8 =
      j % 16 * 16 + k / 4 := by
    omega
  have hthird : (i * 2 ^ 18 + j * 2 ^ 12 + k * 2 ^ 6 + l) % 2 ^ 8 = k % 4 * 64 + l := by omega
  rw [hfirst, hsecond, hthird]

theorem decodeBase64Group_two (hi : i < 64) (hj : j < 64) (hk : k < 64) :
    decodeBase64Group (base64Char i) (base64Char j) (base64Char k) '=' =
      .ok [UInt8.ofNat (i * 4 + j / 16), UInt8.ofNat (j % 16 * 16 + k / 4)] := by
  have hk' := ne_pad_of_base64Index (base64Index_char hk)
  simp only [decodeBase64Group, base64Index_char hi, base64Index_char hj, base64Index_char hk,
    if_true, ne_eq, hk', not_false_eq_true, not_true_eq_false, if_false,
    groupValue_eq hj hk (Nat.two_pow_pos 6), Nat.shiftRight_eq_div_pow,
    Nat.and_two_pow_sub_one_eq_mod _ 8, List.append_nil]
  have hfirst : (i * 2 ^ 18 + j * 2 ^ 12 + k * 2 ^ 6 + 0) / 2 ^ 16 % 2 ^ 8 = i * 4 + j / 16 := by
    omega
  have hsecond : (i * 2 ^ 18 + j * 2 ^ 12 + k * 2 ^ 6 + 0) / 2 ^ 8 % 2 ^ 8 =
      j % 16 * 16 + k / 4 := by
    omega
  rw [hfirst, hsecond]

theorem decodeBase64Group_one (hi : i < 64) (hj : j < 64) :
    decodeBase64Group (base64Char i) (base64Char j) '=' '=' =
      .ok [UInt8.ofNat (i * 4 + j / 16)] := by
  simp only [decodeBase64Group, base64Index_char hi, base64Index_char hj, if_true, ne_eq,
    not_true_eq_false, if_false, groupValue_eq hj (Nat.two_pow_pos 6) (Nat.two_pow_pos 6),
    Nat.shiftRight_eq_div_pow, Nat.and_two_pow_sub_one_eq_mod _ 8, List.append_nil]
  have hfirst : (i * 2 ^ 18 + j * 2 ^ 12 + 0 * 2 ^ 6 + 0) / 2 ^ 16 % 2 ^ 8 = i * 4 + j / 16 := by
    omega
  rw [hfirst]

end Group

/-! ### The whole text -/

/-- A text of characters of the alphabet, padded to groups of four, whose last character holds no
bits that no byte takes. -/
structure Padded (digits : Text) (padding : ℕ) : Prop where
  le : padding ≤ 2
  groups : (digits.length + padding) % 4 = 0
  alphabet : ∀ c ∈ digits, base64Index c ≠ none
  tail : ∀ i, digits.getLast?.bind base64Index = some i →
    (padding = 1 → i % 4 = 0) ∧ (padding = 2 → i % 16 = 0)

variable {digits encoded : Text} {padding : ℕ} {bytes : List UInt8}

theorem Padded.ne_pad (h : Padded digits padding) {c : Char} (hc : c ∈ digits) : c ≠ '=' := by
  rintro rfl
  exact h.alphabet _ hc base64Index_pad

/-- The number of padding characters is zero where the digits come in groups of four. -/
theorem Padded.eq_zero (h : Padded [] padding) : padding = 0 := by
  have hle := h.le
  have hgroups := h.groups
  rw [List.length_nil] at hgroups
  omega

theorem Padded.cons {first second third fourth : Char} {i j k l : ℕ} (h : Padded digits padding)
    (hi : base64Index first = some i) (hj : base64Index second = some j)
    (hk : base64Index third = some k) (hl : base64Index fourth = some l) :
    Padded (first :: second :: third :: fourth :: digits) padding where
  le := h.le
  groups := by
    have := h.groups
    simp only [List.length_cons]
    omega
  alphabet := by simpa [hi, hj, hk, hl] using h.alphabet
  tail := by
    cases digits with
    | nil =>
        rw [h.eq_zero]
        simp
    | cons c digits => simpa [List.getLast?_cons_cons] using h.tail

theorem Padded.rest {first second third fourth : Char}
    (h : Padded (first :: second :: third :: fourth :: digits) padding) :
    Padded digits padding where
  le := h.le
  groups := by
    have := h.groups
    simp only [List.length_cons] at this
    omega
  alphabet c hc := h.alphabet c (by simp [hc])
  tail := by
    cases digits with
    | nil => simp
    | cons c digits => simpa [List.getLast?_cons_cons] using h.tail

theorem base64Padding_eq (hpad : '=' ∉ digits) (hle : padding ≤ 2) :
    base64Padding (digits ++ List.replicate padding '=') = padding := by
  have hlast : ¬ ['='] <:+ digits := fun h => hpad (h.subset List.mem_cons_self)
  have htwo : ¬ ['=', '='] <:+ digits := fun h => hpad (h.subset List.mem_cons_self)
  have hafter : ¬ ['=', '='] <:+ digits ++ ['='] := by
    intro h
    rw [show ['=', '='] = ['='] ++ ['='] from rfl, List.suffix_append_inj_of_length_eq rfl] at h
    exact hlast h.1
  unfold base64Padding
  simp only [List.isSuffixOf_iff_suffix]
  interval_cases padding
  · simp [hlast, htwo]
  · simp [hafter]
  · simp

theorem exists_padding (encoded : Text) :
    ∃ digits, encoded = digits ++ List.replicate (base64Padding encoded) '=' := by
  unfold base64Padding
  split_ifs with htwo hone
  · obtain ⟨digits, hdigits⟩ := List.isSuffixOf_iff_suffix.1 htwo
    exact ⟨digits, hdigits.symm⟩
  · obtain ⟨digits, hdigits⟩ := List.isSuffixOf_iff_suffix.1 hone
    exact ⟨digits, hdigits.symm⟩
  · exact ⟨encoded, (List.append_nil encoded).symm⟩

theorem base64Padding_le (encoded : Text) : base64Padding encoded ≤ 2 := by
  unfold base64Padding
  split_ifs <;> decide

theorem checkBase64Characters_pads (dataSize index n : ℕ) (h : dataSize ≤ index) :
    checkBase64Characters dataSize (List.replicate n '=') index = .ok () := by
  induction n generalizing index with
  | zero => rfl
  | succ n ih =>
      rw [List.replicate_succ, checkBase64Characters, checkBase64Character, if_pos h]
      exact ih (index + 1) (by omega)

theorem checkBase64Characters_eq_ok_iff (digits : Text) (index n : ℕ) :
    checkBase64Characters (index + digits.length) (digits ++ List.replicate n '=') index = .ok () ↔
      ∀ c ∈ digits, base64Index c ≠ none := by
  induction digits generalizing index with
  | nil => simpa using checkBase64Characters_pads index index n le_rfl
  | cons c digits ih =>
      have hlength : index + (c :: digits).length = index + 1 + digits.length := by
        rw [List.length_cons]
        omega
      rw [List.cons_append, checkBase64Characters, hlength, List.forall_mem_cons,
        ← ih (index + 1), checkBase64Character, if_neg (by omega)]
      by_cases hc : base64Index c = none
      · rw [if_pos hc]
        simp [hc, err, bind, Except.bind]
      · rw [if_neg hc]
        simp [hc, bind, Except.bind]

theorem base64TailIsZero_eq_true_iff (hle : padding ≤ 2) :
    base64TailIsZero (digits ++ List.replicate padding '=') padding digits.length = true ↔
      ∀ i, digits.getLast?.bind base64Index = some i →
        (padding = 1 → i % 4 = 0) ∧ (padding = 2 → i % 16 = 0) := by
  have hlast : (digits ++ List.replicate padding '=')[digits.length - 1]?.bind base64Index =
      digits.getLast?.bind base64Index := by
    rcases List.eq_nil_or_concat digits with rfl | ⟨init, c, rfl⟩
    · cases padding with
      | zero => rfl
      | succ n => exact base64Index_pad
    · rw [List.getElem?_append_left (by simp), List.getLast?_eq_getElem?]
  unfold base64TailIsZero
  rw [hlast]
  cases digits.getLast?.bind base64Index with
  | none => simp
  | some i =>
      have hthree : i &&& 3 = i % 4 := Nat.and_two_pow_sub_one_eq_mod i 2
      have hfifteen : i &&& 0xf = i % 16 := Nat.and_two_pow_sub_one_eq_mod i 4
      simp only [hthree, hfifteen, Option.some.injEq, forall_eq', Bool.and_eq_true,
        Bool.not_eq_true', Bool.and_eq_false_iff, decide_eq_false_iff_not, ne_eq, not_not]
      tauto

/-- The decoder takes the padded texts, and gives the bytes of their groups. -/
theorem decodeBase64_eq_ok_iff :
    decodeBase64 encoded = .ok bytes ↔
      bytes ≠ [] ∧ ∃ digits padding, encoded = digits ++ List.replicate padding '=' ∧
        Padded digits padding ∧ decodeBase64Groups encoded = .ok bytes := by
  unfold decodeBase64
  constructor
  · intro h
    split_ifs at h with hlength
    · exact absurd h err_ne_ok
    · obtain ⟨_, hcheck, h⟩ := bind_eq_ok.1 h
      obtain ⟨output, hdecode, h⟩ := bind_eq_ok.1 h
      split_ifs at h with htail hempty
      · exact absurd h err_ne_ok
      · exact absurd h err_ne_ok
      · obtain rfl := Except.ok.inj h
        obtain ⟨digits, hdigits⟩ := exists_padding encoded
        have hle := base64Padding_le encoded
        generalize base64Padding encoded = padding at *
        subst hdigits
        rw [Bool.or_eq_true, not_or, decide_eq_true_eq, not_not, List.length_append,
          List.length_replicate] at hlength
        rw [List.length_append, List.length_replicate, Nat.add_sub_cancel] at hcheck htail
        have halphabet := (checkBase64Characters_eq_ok_iff digits 0 padding).1
          (by rwa [Nat.zero_add])
        rw [Bool.not_eq_true', Bool.not_eq_false] at htail
        rw [List.isEmpty_iff] at hempty
        exact ⟨hempty, digits, padding, rfl,
          ⟨hle, hlength.2, halphabet, (base64TailIsZero_eq_true_iff hle).1 htail⟩, hdecode⟩
  · rintro ⟨hne, digits, padding, rfl, hpadded, hdecode⟩
    have hpadding : base64Padding (digits ++ List.replicate padding '=') = padding :=
      base64Padding_eq (fun h => hpadded.ne_pad h rfl) hpadded.le
    have hlength : ¬ ((digits ++ List.replicate padding '=').isEmpty || decide
        ((digits ++ List.replicate padding '=').length % 4 ≠ 0)) = true := by
      rw [Bool.or_eq_true, not_or, decide_eq_true_eq, not_not, List.length_append,
        List.length_replicate]
      refine ⟨?_, hpadded.groups⟩
      intro hempty
      rw [List.isEmpty_iff] at hempty
      rw [hempty] at hdecode
      exact hne (Except.ok.inj hdecode).symm
    have hsize : (digits ++ List.replicate padding '=').length - padding = digits.length := by
      rw [List.length_append, List.length_replicate, Nat.add_sub_cancel]
    have hcheck := (checkBase64Characters_eq_ok_iff digits 0 padding).2 hpadded.alphabet
    rw [Nat.zero_add] at hcheck
    have htail := (base64TailIsZero_eq_true_iff hpadded.le).2 hpadded.tail
    have hempty : bytes.isEmpty = false := List.isEmpty_eq_false_iff.2 hne
    rw [if_neg hlength]
    simp only [hpadding, hsize, hcheck, hdecode, htail, hempty, bind, Except.bind, Bool.not_true,
      Bool.false_eq_true, if_false]

theorem base64_padded (bytes : List UInt8) :
    ∃ digits padding, base64 bytes = digits ++ List.replicate padding '=' ∧
      Padded digits padding ∧ decodeBase64Groups (base64 bytes) = .ok bytes := by
  induction bytes using base64.induct with
  | case1 => exact ⟨[], 0, rfl, ⟨by decide, rfl, by simp, by simp⟩, rfl⟩
  | case2 a =>
      have ha := a.toNat_lt
      rw [base64_one]
      refine ⟨[_, _], 2, rfl, ⟨le_rfl, by simp, ?_, ?_⟩, ?_⟩
      · simp [base64Index_char (show a.toNat / 4 < 64 by omega),
          base64Index_char (show a.toNat % 4 * 16 < 64 by omega)]
      · simp only [List.getLast?_cons_cons, List.getLast?_singleton, Option.bind_some,
          base64Index_char (show a.toNat % 4 * 16 < 64 by omega), Option.some.injEq]
        omega
      · rw [decodeBase64Groups, decodeBase64Group_one (by omega) (by omega)]
        have hbyte : a.toNat / 4 * 4 + a.toNat % 4 * 16 / 16 = a.toNat := by omega
        rw [hbyte, UInt8.ofNat_toNat]
        rfl
  | case3 a b =>
      have ha := a.toNat_lt
      have hb := b.toNat_lt
      rw [base64_two]
      refine ⟨[_, _, _], 1, rfl, ⟨by decide, by simp, ?_, ?_⟩, ?_⟩
      · simp [base64Index_char (show a.toNat / 4 < 64 by omega),
          base64Index_char (show a.toNat % 4 * 16 + b.toNat / 16 < 64 by omega),
          base64Index_char (show b.toNat % 16 * 4 < 64 by omega)]
      · simp only [List.getLast?_cons_cons, List.getLast?_singleton, Option.bind_some,
          base64Index_char (show b.toNat % 16 * 4 < 64 by omega), Option.some.injEq]
        omega
      · rw [decodeBase64Groups, decodeBase64Group_two (by omega) (by omega) (by omega)]
        have hfirst : a.toNat / 4 * 4 + (a.toNat % 4 * 16 + b.toNat / 16) / 16 = a.toNat := by omega
        have hsecond : (a.toNat % 4 * 16 + b.toNat / 16) % 16 * 16 + b.toNat % 16 * 4 / 4 =
            b.toNat := by
          omega
        rw [hfirst, hsecond, UInt8.ofNat_toNat, UInt8.ofNat_toNat]
        rfl
  | case4 a b c bytes ih =>
      have ha := a.toNat_lt
      have hb := b.toNat_lt
      have hc := c.toNat_lt
      obtain ⟨digits, padding, hbytes, hpadded, hdecode⟩ := ih
      rw [base64_cons]
      refine ⟨base64Char (a.toNat / 4) :: base64Char (a.toNat % 4 * 16 + b.toNat / 16) ::
        base64Char (b.toNat % 16 * 4 + c.toNat / 64) :: base64Char (c.toNat % 64) :: digits,
        padding, ?_, hpadded.cons (base64Index_char (by omega)) (base64Index_char (by omega))
          (base64Index_char (by omega)) (base64Index_char (by omega)), ?_⟩
      · rw [hbytes]
        rfl
      · rw [decodeBase64Groups, hdecode,
          decodeBase64Group_three (by omega) (by omega) (by omega) (by omega)]
        have hfirst : a.toNat / 4 * 4 + (a.toNat % 4 * 16 + b.toNat / 16) / 16 = a.toNat := by omega
        have hsecond : (a.toNat % 4 * 16 + b.toNat / 16) % 16 * 16 +
            (b.toNat % 16 * 4 + c.toNat / 64) / 4 = b.toNat := by
          omega
        have hthird : (b.toNat % 16 * 4 + c.toNat / 64) % 4 * 64 + c.toNat % 64 = c.toNat := by omega
        rw [hfirst, hsecond, hthird, UInt8.ofNat_toNat, UInt8.ofNat_toNat, UInt8.ofNat_toNat]
        rfl

theorem eq_base64_of_padded (h : Padded digits padding)
    (hdecode : decodeBase64Groups (digits ++ List.replicate padding '=') = .ok bytes) :
    digits ++ List.replicate padding '=' = base64 bytes := by
  induction digits using decodeBase64Groups.induct generalizing bytes with
  | case1 first second third fourth digits ih =>
      obtain ⟨i, hi⟩ := Option.ne_none_iff_exists'.1 (h.alphabet first (by simp))
      obtain ⟨j, hj⟩ := Option.ne_none_iff_exists'.1 (h.alphabet second (by simp))
      obtain ⟨k, hk⟩ := Option.ne_none_iff_exists'.1 (h.alphabet third (by simp))
      obtain ⟨l, hl⟩ := Option.ne_none_iff_exists'.1 (h.alphabet fourth (by simp))
      obtain ⟨hi64, rfl⟩ := base64Index_eq_some hi
      obtain ⟨hj64, rfl⟩ := base64Index_eq_some hj
      obtain ⟨hk64, rfl⟩ := base64Index_eq_some hk
      obtain ⟨hl64, rfl⟩ := base64Index_eq_some hl
      rw [List.cons_append, List.cons_append, List.cons_append, List.cons_append,
        decodeBase64Groups, decodeBase64Group_three hi64 hj64 hk64 hl64] at hdecode
      obtain ⟨_, hgroup, hdecode⟩ := bind_eq_ok.1 hdecode
      obtain ⟨rest, hrest, hdecode⟩ := bind_eq_ok.1 hdecode
      obtain rfl := Except.ok.inj hgroup
      obtain rfl := Except.ok.inj hdecode
      have hfirst : i * 4 + j / 16 < 2 ^ 8 := by omega
      have hsecond : j % 16 * 16 + k / 4 < 2 ^ 8 := by omega
      have hthird : k % 4 * 64 + l < 2 ^ 8 := by omega
      simp only [List.cons_append, List.nil_append]
      rw [ih h.rest hrest, base64_cons, UInt8.toNat_ofNat_of_lt' hfirst,
        UInt8.toNat_ofNat_of_lt' hsecond, UInt8.toNat_ofNat_of_lt' hthird]
      congr 2
      · omega
      congr 2
      · omega
      congr 2
      · omega
      congr 2
      omega
  | case2 digits hshort =>
      have hle := h.le
      have hgroups := h.groups
      match digits, hshort with
      | [], _ =>
          obtain rfl := h.eq_zero
          obtain rfl := Except.ok.inj hdecode
          rfl
      | [first], _ =>
          rw [List.length_singleton] at hgroups
          omega
      | [first, second], _ =>
          obtain rfl : padding = 2 := by
            simp only [List.length_cons, List.length_nil] at hgroups
            omega
          obtain ⟨i, hi⟩ := Option.ne_none_iff_exists'.1 (h.alphabet first (by simp))
          obtain ⟨j, hj⟩ := Option.ne_none_iff_exists'.1 (h.alphabet second (by simp))
          obtain ⟨hi64, rfl⟩ := base64Index_eq_some hi
          obtain ⟨hj64, rfl⟩ := base64Index_eq_some hj
          have htail := (h.tail j (by simpa using hj)).2 rfl
          have hgroup := decodeBase64Group_one hi64 hj64
          change (decodeBase64Group _ _ '=' '=' >>= fun bytes => .ok (bytes ++ [])) = _ at hdecode
          rw [hgroup] at hdecode
          obtain rfl := Except.ok.inj hdecode
          have hbyte : i * 4 + j / 16 < 2 ^ 8 := by omega
          rw [List.append_nil, base64_one, UInt8.toNat_ofNat_of_lt' hbyte]
          have hfirst : (i * 4 + j / 16) / 4 = i := by omega
          have hsecond : (i * 4 + j / 16) % 4 * 16 = j := by omega
          rw [hfirst, hsecond]
          rfl
      | [first, second, third], _ =>
          obtain rfl : padding = 1 := by
            simp only [List.length_cons, List.length_nil] at hgroups
            omega
          obtain ⟨i, hi⟩ := Option.ne_none_iff_exists'.1 (h.alphabet first (by simp))
          obtain ⟨j, hj⟩ := Option.ne_none_iff_exists'.1 (h.alphabet second (by simp))
          obtain ⟨k, hk⟩ := Option.ne_none_iff_exists'.1 (h.alphabet third (by simp))
          obtain ⟨hi64, rfl⟩ := base64Index_eq_some hi
          obtain ⟨hj64, rfl⟩ := base64Index_eq_some hj
          obtain ⟨hk64, rfl⟩ := base64Index_eq_some hk
          have htail := (h.tail k (by simpa using hk)).1 rfl
          have hgroup := decodeBase64Group_two hi64 hj64 hk64
          change (decodeBase64Group _ _ _ '=' >>= fun bytes => .ok (bytes ++ [])) = _ at hdecode
          rw [hgroup] at hdecode
          obtain rfl := Except.ok.inj hdecode
          have hfirstByte : i * 4 + j / 16 < 2 ^ 8 := by omega
          have hsecondByte : j % 16 * 16 + k / 4 < 2 ^ 8 := by omega
          rw [List.append_nil, base64_two, UInt8.toNat_ofNat_of_lt' hfirstByte,
            UInt8.toNat_ofNat_of_lt' hsecondByte]
          have hfirst : (i * 4 + j / 16) / 4 = i := by omega
          have hsecond : (i * 4 + j / 16) % 4 * 16 + (j % 16 * 16 + k / 4) / 16 = j := by omega
          have hthird : (j % 16 * 16 + k / 4) % 16 * 4 = k := by omega
          rw [hfirst, hsecond, hthird]
          rfl
      | first :: second :: third :: fourth :: digits, hshort =>
          exact absurd rfl (hshort first second third fourth digits)

/-- The decoder takes the encodings of the data that are not empty, and nothing else. -/
theorem decodeBase64_exact (encoded : Text) (bytes : List UInt8) :
    decodeBase64 encoded = .ok bytes ↔ bytes ≠ [] ∧ encoded = base64 bytes := by
  rw [decodeBase64_eq_ok_iff]
  constructor
  · rintro ⟨hne, digits, padding, rfl, hpadded, hdecode⟩
    exact ⟨hne, eq_base64_of_padded hpadded hdecode⟩
  · rintro ⟨hne, rfl⟩
    exact ⟨hne, base64_padded bytes⟩

end InferDeck.Gateway
