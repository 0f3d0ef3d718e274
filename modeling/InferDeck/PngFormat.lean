import Mathlib.Tactic

/-!
# Reading of uncompressed PNG files

The checksums, and a reader of the part of the format that needs no decompression: chunks with their
lengths and checksums, a zlib stream of stored blocks, and rows without a filter. What the reader
returns has passed every check of these parts.
-/

namespace InferDeck.Png

/-- Numbers with the first byte as the highest one. -/
def bigEndian (bytes : List UInt8) : ℕ := bytes.foldl (fun n b => 256 * n + b.toNat) 0

/-! ### Checksums -/

/-- One step of the division by the polynomial, whose lowest bit is the highest power. -/
def crcShift (crc : UInt32) : UInt32 :=
  if crc &&& 1 = 1 then (crc >>> 1) ^^^ 0xedb88320 else crc >>> 1

def crc32 (data : List UInt8) : UInt32 :=
  ~~~data.foldl (fun crc b => crcShift^[8] (crc ^^^ b.toUInt32)) 0xffffffff

/-- The sums of the bytes and of their sums. -/
def adlerSums (data : List UInt8) : ℕ × ℕ :=
  data.foldl (fun sums b => ((sums.1 + b.toNat) % 65521,
    (sums.2 + (sums.1 + b.toNat) % 65521) % 65521)) (1, 0)

def adler32 (data : List UInt8) : ℕ := (adlerSums data).2 * 65536 + (adlerSums data).1

example : crc32 [0x31, 0x32, 0x33, 0x34, 0x35, 0x36, 0x37, 0x38, 0x39] = 0xcbf43926 := by
  decide +kernel

example : adler32 [0x57, 0x69, 0x6b, 0x69, 0x70, 0x65, 0x64, 0x69, 0x61] = 0x11e60398 := by
  decide +kernel

/-! ### Chunks -/

def takeBytes (n : ℕ) (bytes : List UInt8) : Option (List UInt8 × List UInt8) :=
  if n ≤ bytes.length then some (bytes.take n, bytes.drop n) else none

def readChunk (type bytes : List UInt8) : Option (List UInt8 × List UInt8) := do
  let (size, bytes) ← takeBytes 4 bytes
  let (name, bytes) ← takeBytes 4 bytes
  if name ≠ type ∨ 2 ^ 31 - 1 < bigEndian size then none
  else
    let (data, bytes) ← takeBytes (bigEndian size) bytes
    let (check, bytes) ← takeBytes 4 bytes
    if bigEndian check = (crc32 (type ++ data)).toNat then some (data, bytes) else none

/-! ### Stored blocks -/

/-- Two bytes with the first one as the lower one. -/
def word (low high : UInt8) : ℕ := low.toNat + 256 * high.toNat

/-- The data of a stream of stored blocks and what follows it. A length stands before its complement,
and the last block is marked. -/
def inflate (bytes : List UInt8) : Option (List UInt8 × List UInt8) :=
  match bytes with
  | header :: l₀ :: l₁ :: n₀ :: n₁ :: rest =>
      if header.toNat / 2 % 4 = 0 ∧ word l₀ l₁ + word n₀ n₁ = 65535 ∧ word l₀ l₁ ≤ rest.length then
        if header.toNat % 2 = 1 then some (rest.take (word l₀ l₁), rest.drop (word l₀ l₁))
        else (inflate (rest.drop (word l₀ l₁))).map fun (data, tail) =>
          (rest.take (word l₀ l₁) ++ data, tail)
      else none
  | _ => none
termination_by bytes.length
decreasing_by
  simp only [List.length_drop, List.length_cons]
  omega

/-- A zlib stream without a dictionary, with nothing after its checksum. -/
def readZlib (bytes : List UInt8) : Option (List UInt8) := do
  let (header, bytes) ← takeBytes 2 bytes
  if bigEndian header % 31 ≠ 0 ∨ bigEndian header / 256 % 16 ≠ 8 ∨ 7 < bigEndian header / 4096 ∨
      bigEndian header / 32 % 2 = 1 then none
  else
    let (data, check) ← inflate bytes
    if check.length = 4 ∧ bigEndian check = adler32 data then some data else none

/-! ### Rows -/

/-- The pixels of rows that each have the filter type 0. -/
def unfilter (stride : ℕ) : ℕ → List UInt8 → Option (List UInt8)
  | 0, [] => some []
  | rows + 1, 0 :: bytes => do
      let (row, bytes) ← takeBytes stride bytes
      let rest ← unfilter stride rows bytes
      return row ++ rest
  | _, _ => none

structure Picture where
  width : ℕ
  height : ℕ
  channels : ℕ
  pixels : List UInt8
  deriving DecidableEq

def signature : List UInt8 := [0x89, 0x50, 0x4e, 0x47, 0x0d, 0x0a, 0x1a, 0x0a]

def ihdr : List UInt8 := [0x49, 0x48, 0x44, 0x52]

def idat : List UInt8 := [0x49, 0x44, 0x41, 0x54]

def iend : List UInt8 := [0x49, 0x45, 0x4e, 0x44]

/-- The width, the height and the channels of a header: eight bits a channel, and no interlacing. -/
def readHeader (data : List UInt8) : Option (ℕ × ℕ × ℕ) := do
  let (width, data) ← takeBytes 4 data
  let (height, data) ← takeBytes 4 data
  if bigEndian width = 0 ∨ 2 ^ 31 - 1 < bigEndian width ∨ bigEndian height = 0 ∨
      2 ^ 31 - 1 < bigEndian height then none
  else if data = [8, 2, 0, 0, 0] then some (bigEndian width, bigEndian height, 3)
  else if data = [8, 6, 0, 0, 0] then some (bigEndian width, bigEndian height, 4)
  else none

def readBody (width height channels : ℕ) (bytes : List UInt8) : Option Picture := do
  let (data, bytes) ← readChunk idat bytes
  let (trailer, bytes) ← readChunk iend bytes
  if trailer ≠ [] ∨ bytes ≠ [] then none
  else
    let filtered ← readZlib data
    let pixels ← unfilter (width * channels) height filtered
    return { width, height, channels, pixels }

def readPng (bytes : List UInt8) : Option Picture := do
  let (start, bytes) ← takeBytes 8 bytes
  if start ≠ signature then none
  else
    let (header, bytes) ← readChunk ihdr bytes
    let (width, height, channels) ← readHeader header
    readBody width height channels bytes

/-! ### Parts that were read -/

theorem takeBytes_append {a b : List UInt8} {n : ℕ} (h : a.length = n) :
    takeBytes n (a ++ b) = some (a, b) := by
  subst h
  simp [takeBytes]

/-- What the reader of blocks leaves is the end of what it was given. -/
theorem inflate_append : ∀ {p data tail : List UInt8}, inflate p = some (data, tail) →
    ∀ q, inflate (p ++ q) = some (data, tail ++ q) := by
  intro p
  induction p using inflate.induct with
  | case1 header l₀ l₁ n₀ n₁ rest hok hlast =>
      intro data tail h q
      have hlength : word l₀ l₁ ≤ (rest ++ q).length := hok.2.2.trans (by simp)
      rw [inflate] at h
      simp only [if_pos hok, if_pos hlast, Option.some.injEq, Prod.mk.injEq] at h
      obtain ⟨rfl, rfl⟩ := h
      simp only [List.cons_append]
      rw [inflate]
      simp only [if_pos (show _ ∧ _ ∧ _ from ⟨hok.1, hok.2.1, hlength⟩), if_pos hlast,
        List.take_append_of_le_length hok.2.2, List.drop_append_of_le_length hok.2.2]
  | case2 header l₀ l₁ n₀ n₁ rest hok hmore ih =>
      intro data tail h q
      have hlength : word l₀ l₁ ≤ (rest ++ q).length := hok.2.2.trans (by simp)
      rw [inflate] at h
      simp only [if_pos hok, if_neg hmore, Option.map_eq_some_iff] at h
      obtain ⟨⟨block, left⟩, hrest, h⟩ := h
      simp only [Prod.mk.injEq] at h
      obtain ⟨rfl, rfl⟩ := h
      simp only [List.cons_append]
      rw [inflate]
      simp only [if_pos (show _ ∧ _ ∧ _ from ⟨hok.1, hok.2.1, hlength⟩), if_neg hmore,
        List.take_append_of_le_length hok.2.2, List.drop_append_of_le_length hok.2.2, ih hrest q,
        Option.map_some]
  | case3 header l₀ l₁ n₀ n₁ rest hbad =>
      intro data tail h
      rw [inflate] at h
      simp only [if_neg hbad, reduceCtorEq] at h
  | case4 bytes hshort =>
      intro data tail h
      rw [inflate.eq_def] at h
      split at h
      · exact absurd rfl (hshort _ _ _ _ _ _)
      · cases h

end InferDeck.Png
