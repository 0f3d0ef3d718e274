import InferDeck.StreamingSanitizer
import Mathlib.Data.List.TakeWhile

/-!
# The loopback authority

The parser of `Host` values that `RouteAuthorizer` has, and the grammar it accepts. A character
stands for a byte.
-/

namespace InferDeck.Gateway

/-! ## Reading texts -/

/-- What stands before the first occurrence of a character, and what after it, as `find` gives it. -/
def splitFirst (c : Char) : Text → Text × Option Text
  | [] => ([], none)
  | x :: xs => if x = c then ([], some xs) else (x :: (splitFirst c xs).1, (splitFirst c xs).2)

def digitsValue (digits : Text) : ℕ := digits.foldl (fun value c => 10 * value + (c.toNat - 48)) 0

/-- `std::from_chars` into an unsigned number: the value of the leading digits and the rest. -/
def fromChars (bits : ℕ) (text : Text) : Option (ℕ × Text) :=
  let digits := text.takeWhile Char.isDigit
  if digits = [] ∨ 2 ^ bits ≤ digitsValue digits then none
  else some (digitsValue digits, text.dropWhile Char.isDigit)

structure Decimal (text : Text) (value : ℕ) : Prop where
  nonempty : text ≠ []
  digits : ∀ c ∈ text, c.isDigit = true
  value_eq : digitsValue text = value

def lower (text : Text) : Text := text.map Char.toLower

theorem splitFirst_append {c : Char} {before after : Text} (h : c ∉ before) :
    splitFirst c (before ++ c :: after) = (before, some after) := by
  induction before with
  | nil => simp [splitFirst]
  | cons x before ih =>
      have hx : x ≠ c := fun hx => h (hx ▸ List.mem_cons_self)
      have hrest := ih fun hmem => h (List.mem_cons_of_mem x hmem)
      rw [List.cons_append, splitFirst, if_neg hx, hrest]

theorem splitFirst_of_notMem {c : Char} {text : Text} (h : c ∉ text) :
    splitFirst c text = (text, none) := by
  induction text with
  | nil => rfl
  | cons x text ih =>
      have hx : x ≠ c := fun hx => h (hx ▸ List.mem_cons_self)
      rw [splitFirst, if_neg hx, ih fun hmem => h (List.mem_cons_of_mem x hmem)]

theorem splitFirst_eq_some {c : Char} {text before after : Text}
    (h : splitFirst c text = (before, some after)) : text = before ++ c :: after := by
  by_cases hmem : c ∈ text
  · obtain ⟨before', after', rfl, hbefore⟩ := List.eq_append_cons_of_mem hmem
    rw [splitFirst_append hbefore, Prod.mk.injEq, Option.some.injEq] at h
    rw [h.1, h.2]
  · rw [splitFirst_of_notMem hmem] at h
    cases h

theorem splitFirst_eq_none {c : Char} {text before : Text}
    (h : splitFirst c text = (before, none)) : text = before ∧ c ∉ text := by
  by_cases hmem : c ∈ text
  · obtain ⟨before', after', rfl, hbefore⟩ := List.eq_append_cons_of_mem hmem
    rw [splitFirst_append hbefore] at h
    cases h
  · rw [splitFirst_of_notMem hmem, Prod.mk.injEq] at h
    exact ⟨h.1, hmem⟩

theorem fromChars_eq_some_nil {bits value : ℕ} {text : Text} :
    fromChars bits text = some (value, []) ↔ Decimal text value ∧ value < 2 ^ bits := by
  constructor
  · intro h
    rw [fromChars] at h
    by_cases hfail : text.takeWhile Char.isDigit = [] ∨
        2 ^ bits ≤ digitsValue (text.takeWhile Char.isDigit)
    · rw [if_pos hfail] at h
      cases h
    · rw [if_neg hfail, Option.some.injEq, Prod.mk.injEq] at h
      obtain ⟨hnonempty, hbound⟩ := not_or.1 hfail
      have hall : ∀ c ∈ text, c.isDigit = true := List.dropWhile_eq_nil_iff.1 h.2
      rw [List.takeWhile_eq_self_iff.2 hall] at hnonempty h hbound
      exact ⟨⟨hnonempty, hall, h.1⟩, h.1 ▸ not_le.1 hbound⟩
  · rintro ⟨⟨hnonempty, hall, rfl⟩, hbound⟩
    rw [fromChars, List.takeWhile_eq_self_iff.2 hall, List.dropWhile_eq_nil_iff.2 hall,
      if_neg (not_or.2 ⟨hnonempty, not_le.2 hbound⟩)]

theorem Decimal.notMem {text : Text} {value : ℕ} (h : Decimal text value) {c : Char}
    (hc : c.isDigit = false) : c ∉ text := by
  intro hmem
  rw [h.digits c hmem] at hc
  cases hc

/-! ## The parser -/

def validPort (value : Text) : Bool :=
  !value.isEmpty &&
    match fromChars 32 value with
    | some (port, []) => decide (0 < port) && decide (port ≤ 65535)
    | _ => false

def octet (field : Text) : Option ℕ :=
  if field = [] then none
  else
    match fromChars 32 field with
    | some (value, []) => if 255 < value then none else some value
    | _ => none

/-- The fields of the rest of an address, of which the last is what remains. -/
def octets : ℕ → Text → Option (List ℕ)
  | 0, rest => (octet rest).map fun value => [value]
  | index + 1, rest =>
      match splitFirst '.' rest with
      | (field, some rest) =>
          (octet field).bind fun value => (octets index rest).map fun values => value :: values
      | (_, none) => none

def localhost : Text := "localhost".toList

def ipv6Loopback : Text := "[::1]".toList

/-- The numeric addresses, with the port that may follow. -/
def isLoopbackQuad (lowered : Text) : Bool :=
  let (address, port) := splitFirst ':' lowered
  if (port.any fun port => !validPort port) = true then false
  else
    match octets 3 address with
    | some (first :: _) => decide (first = 127)
    | _ => false

def isLoopbackAuthority (authority : Text) : Bool :=
  let lowered := lower authority
  if lowered = localhost ∨ (localhost ++ [':']).isPrefixOf lowered = true then
    let port := lowered.drop localhost.length
    port.isEmpty || validPort (port.drop 1)
  else if lowered = ipv6Loopback then true
  else if (ipv6Loopback ++ [':']).isPrefixOf lowered = true then
    validPort (lowered.drop (ipv6Loopback.length + 1))
  else isLoopbackQuad lowered

/-! ## The grammar -/

inductive LoopbackHost : Text → Prop
  | localhost : LoopbackHost Gateway.localhost
  | ipv6 : LoopbackHost ipv6Loopback
  | ipv4 {a b c d : Text} {second third fourth : ℕ} (ha : Decimal a 127) (hb : Decimal b second)
      (hc : Decimal c third) (hd : Decimal d fourth) (hsecond : second ≤ 255)
      (hthird : third ≤ 255) (hfourth : fourth ≤ 255) :
      LoopbackHost (a ++ '.' :: (b ++ '.' :: (c ++ '.' :: d)))

inductive LoopbackAuthority : Text → Prop
  | bare {host : Text} (h : LoopbackHost host) : LoopbackAuthority host
  | withPort {host digits : Text} {port : ℕ} (h : LoopbackHost host) (hport : Decimal digits port)
      (hpos : 0 < port) (hbound : port ≤ 65535) : LoopbackAuthority (host ++ ':' :: digits)

theorem validPort_iff {value : Text} :
    validPort value = true ↔ ∃ port, Decimal value port ∧ 0 < port ∧ port ≤ 65535 := by
  rw [validPort, Bool.and_eq_true]
  constructor
  · rintro ⟨-, h⟩
    split at h
    · rename_i port hport
      rw [Bool.and_eq_true, decide_eq_true_eq, decide_eq_true_eq] at h
      exact ⟨port, (fromChars_eq_some_nil.1 hport).1, h⟩
    · cases h
  · rintro ⟨port, hport, hpos, hbound⟩
    rw [fromChars_eq_some_nil.2 ⟨hport, by omega⟩]
    simp [hport.nonempty, hpos, hbound]

theorem octet_eq_some_iff {field : Text} {value : ℕ} :
    octet field = some value ↔ Decimal field value ∧ value ≤ 255 := by
  rw [octet]
  constructor
  · intro h
    by_cases hempty : field = []
    · rw [if_pos hempty] at h
      cases h
    · rw [if_neg hempty] at h
      split at h
      · rename_i value' hvalue
        by_cases hbound : 255 < value'
        · rw [if_pos hbound] at h
          cases h
        · rw [if_neg hbound, Option.some.injEq] at h
          exact h ▸ ⟨(fromChars_eq_some_nil.1 hvalue).1, not_lt.1 hbound⟩
      · cases h
  · rintro ⟨hvalue, hbound⟩
    rw [if_neg hvalue.nonempty, fromChars_eq_some_nil.2 ⟨hvalue, by omega⟩]
    exact if_neg (not_lt.2 hbound)

theorem octets_zero_eq_some_iff {rest : Text} {values : List ℕ} :
    octets 0 rest = some values ↔ ∃ value, Decimal rest value ∧ value ≤ 255 ∧ values = [value] := by
  rw [octets, Option.map_eq_some_iff]
  simp only [octet_eq_some_iff, and_assoc, eq_comm (b := values)]

/-- The fields are split at the first point, which no digit is. -/
theorem octets_succ_eq_some_iff {index : ℕ} {text : Text} {values : List ℕ} :
    octets (index + 1) text = some values ↔ ∃ field rest value others,
      text = field ++ '.' :: rest ∧ Decimal field value ∧ value ≤ 255 ∧
        octets index rest = some others ∧ values = value :: others := by
  rw [octets]
  constructor
  · intro h
    split at h
    · rename_i field rest hsplit
      rw [Option.bind_eq_some_iff] at h
      obtain ⟨value, hvalue, h⟩ := h
      obtain ⟨others, hrest, rfl⟩ := Option.map_eq_some_iff.1 h
      obtain ⟨hdecimal, hbound⟩ := octet_eq_some_iff.1 hvalue
      exact ⟨field, rest, value, others, splitFirst_eq_some hsplit, hdecimal, hbound, hrest,
        rfl⟩
    · cases h
  · rintro ⟨field, rest, value, others, rfl, hdecimal, hbound, hrest, rfl⟩
    rw [splitFirst_append (hdecimal.notMem rfl)]
    simp only [octet_eq_some_iff.2 ⟨hdecimal, hbound⟩, hrest, Option.bind_some, Option.map_some]

/-- An address of four fields. -/
theorem octets_three_eq_some_iff {text : Text} {first : ℕ} {others : List ℕ} :
    octets 3 text = some (first :: others) ↔ ∃ a b c d second third fourth,
      text = a ++ '.' :: (b ++ '.' :: (c ++ '.' :: d)) ∧
        (Decimal a first ∧ Decimal b second ∧ Decimal c third ∧ Decimal d fourth) ∧
          (first ≤ 255 ∧ second ≤ 255 ∧ third ≤ 255 ∧ fourth ≤ 255) ∧
            others = [second, third, fourth] := by
  constructor
  · intro h
    obtain ⟨a, rest, _, _, rfl, ha, hfirst, h, heq⟩ := octets_succ_eq_some_iff.1 h
    obtain ⟨rfl, rfl⟩ := List.cons.inj heq
    obtain ⟨b, rest, second, _, rfl, hb, hsecond, hrest, rfl⟩ := octets_succ_eq_some_iff.1 h
    obtain ⟨c, d, third, _, rfl, hc, hthird, hlast, rfl⟩ := octets_succ_eq_some_iff.1 hrest
    obtain ⟨fourth, hd, hfourth, rfl⟩ := octets_zero_eq_some_iff.1 hlast
    exact ⟨a, b, c, d, second, third, fourth, rfl, ⟨ha, hb, hc, hd⟩,
      ⟨hfirst, hsecond, hthird, hfourth⟩, rfl⟩
  · rintro ⟨a, b, c, d, second, third, fourth, rfl, ⟨ha, hb, hc, hd⟩,
      ⟨hfirst, hsecond, hthird, hfourth⟩, rfl⟩
    have h₀ := octets_zero_eq_some_iff.2 ⟨fourth, hd, hfourth, rfl⟩
    have h₁ := octets_succ_eq_some_iff.2 ⟨c, d, third, _, rfl, hc, hthird, h₀, rfl⟩
    have h₂ := octets_succ_eq_some_iff.2 ⟨b, _, second, _, rfl, hb, hsecond, h₁, rfl⟩
    exact octets_succ_eq_some_iff.2 ⟨a, _, first, _, rfl, ha, hfirst, h₂, rfl⟩

/-- The names begin with no digit. -/
theorem not_prefix_of_digit {name rest : Text} {c : Char} (hc : c.isDigit = true)
    (hname : name.head?.any Char.isDigit = false) (hnonempty : name ≠ []) :
    ¬(name.isPrefixOf (c :: rest) = true) := by
  intro h
  cases name with
  | nil => exact hnonempty rfl
  | cons x name =>
      obtain ⟨rfl, -⟩ := List.cons_prefix_cons.1 (List.isPrefixOf_iff_prefix.1 h)
      rw [List.head?_cons, Option.any_some, hc] at hname
      cases hname

theorem isLoopbackAuthority_of_digit {authority rest : Text} {c : Char}
    (hauthority : lower authority = c :: rest) (hc : c.isDigit = true) :
    isLoopbackAuthority authority = isLoopbackQuad (c :: rest) := by
  have hne {name : Text} (hname : name.head?.any Char.isDigit = false) (hnonempty : name ≠ []) :
      c :: rest ≠ name := by
    rintro rfl
    exact not_prefix_of_digit hc hname hnonempty (List.isPrefixOf_iff_prefix.2 List.prefix_rfl)
  rw [isLoopbackAuthority, hauthority]
  dsimp only
  rw [if_neg (not_or.2 ⟨hne (by decide) (by decide),
    not_prefix_of_digit hc (by decide) (by decide)⟩), if_neg (hne (by decide) (by decide)),
    if_neg (not_prefix_of_digit hc (by decide) (by decide))]

theorem isLoopbackQuad_iff {text address : Text} {port : Option Text}
    (hsplit : splitFirst ':' text = (address, port)) :
    isLoopbackQuad text = true ↔
      (∀ digits, port = some digits → validPort digits = true) ∧
        ∃ others, octets 3 address = some (127 :: others) := by
  rw [isLoopbackQuad, hsplit]
  dsimp only
  have hport : (port.any fun port => !validPort port) = true ↔
      ¬∀ digits, port = some digits → validPort digits = true := by
    cases port <;> simp
  by_cases hvalid : ∀ digits, port = some digits → validPort digits = true
  · rw [if_neg (fun h => hport.1 h hvalid)]
    cases hoctets : octets 3 address with
    | none => simp
    | some values =>
        cases values with
        | nil => simp
        | cons first others => simpa using fun _ => hvalid
  · rw [if_pos (hport.2 hvalid)]
    simp [hvalid]

/-- The authorities with a numeric address. -/
theorem isLoopbackAuthority_quad {authority a b c d tail : Text} {port : Option Text}
    {second third fourth : ℕ} (ha : Decimal a 127) (hb : Decimal b second) (hc : Decimal c third)
    (hd : Decimal d fourth) (hsecond : second ≤ 255) (hthird : third ≤ 255) (hfourth : fourth ≤ 255)
    (hauthority : lower authority = a ++ '.' :: (b ++ '.' :: (c ++ '.' :: d)) ++ tail)
    (hsplit : splitFirst ':' (lower authority) = (a ++ '.' :: (b ++ '.' :: (c ++ '.' :: d)), port))
    (hport : ∀ digits, port = some digits → validPort digits = true) :
    isLoopbackAuthority authority = true := by
  obtain ⟨x, rest, hx⟩ := List.exists_cons_of_ne_nil ha.nonempty
  have hdigit : x.isDigit = true := ha.digits x (hx ▸ List.mem_cons_self)
  have hlower : lower authority = x :: (rest ++ '.' :: (b ++ '.' :: (c ++ '.' :: d)) ++ tail) := by
    rw [hauthority, hx]
    rfl
  rw [isLoopbackAuthority_of_digit hlower hdigit, ← hlower]
  refine (isLoopbackQuad_iff hsplit).2 ⟨hport, [second, third, fourth], ?_⟩
  exact octets_three_eq_some_iff.2 ⟨a, b, c, d, second, third, fourth, rfl, ⟨ha, hb, hc, hd⟩,
    ⟨by omega, hsecond, hthird, hfourth⟩, rfl⟩

theorem quad_notMem_colon {a b c d : Text} {first second third fourth : ℕ} (ha : Decimal a first)
    (hb : Decimal b second) (hc : Decimal c third) (hd : Decimal d fourth) :
    ':' ∉ a ++ '.' :: (b ++ '.' :: (c ++ '.' :: d)) := by
  have hcolon : ':'.isDigit = false := rfl
  simp [ha.notMem hcolon, hb.notMem hcolon, hc.notMem hcolon, hd.notMem hcolon]

theorem isPrefixOf_port (name digits : Text) :
    (name ++ [':']).isPrefixOf (name ++ ':' :: digits) = true :=
  List.isPrefixOf_iff_prefix.2 ⟨digits, by rw [List.append_assoc]; rfl⟩

theorem localhost_head : localhost.head? = some 'l' := by decide

theorem ipv6Loopback_head : ipv6Loopback.head? = some '[' := by decide

theorem ne_localhost (digits : Text) : ipv6Loopback ++ ':' :: digits ≠ localhost := by
  intro h
  have hhead := congrArg List.head? h
  rw [List.head?_append, ipv6Loopback_head, localhost_head] at hhead
  cases hhead

theorem not_localhost_prefix (digits : Text) :
    ¬((localhost ++ [':']).isPrefixOf (ipv6Loopback ++ ':' :: digits) = true) := by
  intro h
  obtain ⟨rest, h⟩ := List.isPrefixOf_iff_prefix.1 h
  have hhead := congrArg List.head? h
  rw [List.head?_append, List.head?_append, List.head?_append, ipv6Loopback_head,
    localhost_head] at hhead
  cases hhead

theorem isLoopbackAuthority_iff (authority : Text) :
    isLoopbackAuthority authority = true ↔ LoopbackAuthority (lower authority) := by
  constructor
  · intro h
    rw [isLoopbackAuthority] at h
    generalize lower authority = lowered at h ⊢
    dsimp only at h
    by_cases hlocal : lowered = localhost ∨ (localhost ++ [':']).isPrefixOf lowered = true
    · rw [if_pos hlocal] at h
      rcases hlocal with rfl | hprefix
      · exact .bare .localhost
      · obtain ⟨digits, rfl⟩ := List.isPrefixOf_iff_prefix.1 hprefix
        obtain ⟨port, hport, hpos, hbound⟩ := validPort_iff.1 h
        rw [List.append_assoc]
        exact .withPort .localhost hport hpos hbound
    rw [if_neg hlocal] at h
    by_cases hipv6 : lowered = ipv6Loopback
    · exact hipv6 ▸ .bare .ipv6
    rw [if_neg hipv6] at h
    by_cases hprefix : (ipv6Loopback ++ [':']).isPrefixOf lowered = true
    · rw [if_pos hprefix] at h
      obtain ⟨digits, rfl⟩ := List.isPrefixOf_iff_prefix.1 hprefix
      obtain ⟨port, hport, hpos, hbound⟩ := validPort_iff.1 h
      rw [List.append_assoc]
      exact .withPort .ipv6 hport hpos hbound
    rw [if_neg hprefix] at h
    rcases hsplit : splitFirst ':' lowered with ⟨address, port⟩
    obtain ⟨hport, others, hoctets⟩ := (isLoopbackQuad_iff hsplit).1 h
    obtain ⟨a, b, c, d, second, third, fourth, rfl, ⟨ha, hb, hc, hd⟩,
      ⟨-, hsecond, hthird, hfourth⟩, -⟩ := octets_three_eq_some_iff.1 hoctets
    have hhost : LoopbackHost (a ++ '.' :: (b ++ '.' :: (c ++ '.' :: d))) :=
      .ipv4 ha hb hc hd hsecond hthird hfourth
    cases port with
    | none => exact (splitFirst_eq_none hsplit).1 ▸ .bare hhost
    | some digits =>
        obtain ⟨port, hdigits, hpos, hbound⟩ := validPort_iff.1 (hport digits rfl)
        exact splitFirst_eq_some hsplit ▸ .withPort hhost hdigits hpos hbound
  · intro h
    generalize hlowered : lower authority = lowered at h
    cases h with
    | bare hhost =>
        cases hhost with
        | localhost =>
            rw [isLoopbackAuthority, hlowered]
            decide
        | ipv6 =>
            rw [isLoopbackAuthority, hlowered]
            decide
        | ipv4 ha hb hc hd hsecond hthird hfourth =>
            have hsplit := splitFirst_of_notMem (quad_notMem_colon ha hb hc hd)
            have hnone (digits : Text) (h : none = some digits) : validPort digits = true := by
              cases h
            rw [← hlowered] at hsplit
            exact isLoopbackAuthority_quad ha hb hc hd hsecond hthird hfourth
              (hlowered.trans (List.append_nil _).symm) (hsplit.trans (Prod.ext hlowered rfl)) hnone
    | @withPort host digits port hhost hport hpos hbound =>
        have hvalid := validPort_iff.2 ⟨_, hport, hpos, hbound⟩
        cases hhost with
        | localhost =>
            rw [isLoopbackAuthority, hlowered]
            dsimp only
            rw [if_pos (.inr (isPrefixOf_port localhost _)), List.drop_left]
            exact hvalid
        | ipv6 =>
            rw [isLoopbackAuthority, hlowered]
            dsimp only
            rw [if_neg (not_or.2 ⟨ne_localhost _, not_localhost_prefix _⟩),
              if_neg (by simp), if_pos (isPrefixOf_port ipv6Loopback _), ← List.drop_drop,
              List.drop_left]
            exact hvalid
        | ipv4 ha hb hc hd hsecond hthird hfourth =>
            have hcolon := quad_notMem_colon ha hb hc hd
            have hsplit : splitFirst ':' (_ ++ ':' :: digits) = _ := splitFirst_append hcolon
            rw [← hlowered] at hsplit
            exact isLoopbackAuthority_quad ha hb hc hd hsecond hthird hfourth hlowered hsplit
              (fun digits h => Option.some.inj h ▸ hvalid)

end InferDeck.Gateway
