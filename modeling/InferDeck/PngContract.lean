import Mathlib
import InferDeck.PngEncoder

/-!
# The encoder against the reader

What the encoder writes is read back as the picture it was given, unless the data chunk is longer
than a chunk may be: the guard bounds the pixels, and the filter types and the headers of the blocks
come on top of them.
-/

namespace InferDeck.NativeRuntimes

open InferDeck.Foundation InferDeck.Png

/-! ### Numbers -/

theorem bigEndian_appendU32 (value : UInt32) : bigEndian (appendU32 [] value) = value.toNat := by
  have hlt := value.toNat_lt
  have hmask (n : ℕ) : n &&& 255 = n % 256 := Nat.and_two_pow_sub_one_eq_mod n 8
  simp only [appendU32, bigEndian, List.nil_append, List.foldl_cons, List.foldl_nil,
    UInt32.toNat_toUInt8, UInt32.toNat_and, UInt32.toNat_shiftRight, Nat.shiftRight_eq_div_pow,
    UInt32.reduceToNat, Nat.reduceMod, Nat.reducePow, hmask]
  omega

theorem appendU32_eq (output : List UInt8) (value : UInt32) :
    appendU32 output value = output ++ appendU32 [] value := rfl

theorem length_appendU32 (value : UInt32) : (appendU32 [] value).length = 4 := rfl

/-- The header of a block is as the reader takes it. -/
theorem word_blockHeader {size : ℕ} (h : size ≤ 65535) :
    word (UInt16.ofNat size &&& 0xff).toUInt8 ((UInt16.ofNat size >>> 8) &&& 0xff).toUInt8 = size ∧
      word (~~~UInt16.ofNat size &&& 0xff).toUInt8 ((~~~UInt16.ofNat size >>> 8) &&& 0xff).toUInt8 =
        65535 - size := by
  have hsize : (UInt16.ofNat size).toNat = size := 
    UInt16.toNat_ofNat_of_lt' (show size < 65536 by omega)
  have hmask (n : ℕ) : n &&& 255 = n % 256 := Nat.and_two_pow_sub_one_eq_mod n 8
  have hmax : UInt16.size = 65536 := rfl
  simp only [word, UInt16.toNat_toUInt8, UInt16.toNat_and, UInt16.toNat_shiftRight,
    UInt16.toNat_not, Nat.shiftRight_eq_div_pow, UInt16.reduceToNat, Nat.reduceMod, Nat.reducePow, hmask,
    hsize, hmax]
  omega

/-! ### Checksums -/

/-- The mask takes the polynomial where the lowest bit is set. -/
theorem crcStep_eq (crc : UInt32) :
    (crc >>> 1) ^^^ (0xedb88320 &&& (0 - (crc &&& 1))) = crcShift crc := by
  have hbit : (crc &&& 1).toNat = crc.toNat % 2 := by
    rw [UInt32.toNat_and]
    exact Nat.and_one_is_mod _
  rw [crcShift]
  obtain hzero | hone : crc &&& 1 = 0 ∨ crc &&& 1 = 1 := by
    rw [← UInt32.toNat_inj, ← UInt32.toNat_inj, hbit]
    exact Nat.mod_two_eq_zero_or_one _
  · have hmask : (0xedb88320 : UInt32) &&& (0 - 0) = 0 := by decide
    rw [hzero, hmask, UInt32.xor_zero, if_neg (by decide)]
  · have hmask : (0xedb88320 : UInt32) &&& (0 - 1) = 0xedb88320 := by decide
    rw [hone, hmask, if_pos rfl]

theorem crc32_eq (data : List UInt8) : crc32 data = Png.crc32 data := by
  simp only [crc32, Png.crc32, crcStep_eq, List.foldl_const, List.length_range]

/-- The sums stay below the modulus, so that those of 32 bits are exact. -/
theorem adlerSums_eq (data : List UInt8) : ∀ {a b : UInt32} {m n : ℕ}, a.toNat = m → b.toNat = n →
    m < 65521 → n < 65521 →
    ∃ a' b' : UInt32, data.foldl (fun (sums : UInt32 × UInt32) b =>
        let a := (sums.1 + b.toUInt32) % 65521
        (a, (sums.2 + a) % 65521)) (a, b) = (a', b') ∧
      data.foldl (fun sums b => ((sums.1 + b.toNat) % 65521,
        (sums.2 + (sums.1 + b.toNat) % 65521) % 65521)) (m, n) = (a'.toNat, b'.toNat) ∧
      a'.toNat < 65521 ∧ b'.toNat < 65521 := by
  induction data with
  | nil =>
      rintro a b m n rfl rfl hm hn
      exact ⟨a, b, rfl, rfl, hm, hn⟩
  | cons v data ih =>
      rintro a b m n rfl rfl hm hn
      have hv := v.toNat_lt
      have ha : ((a + v.toUInt32) % 65521).toNat = (a.toNat + v.toNat) % 65521 := by
        simp only [UInt32.toNat_mod, UInt32.toNat_add, UInt8.toNat_toUInt32, UInt32.reduceToNat]
        omega
      have hb : ((b + (a + v.toUInt32) % 65521) % 65521).toNat =
          (b.toNat + (a.toNat + v.toNat) % 65521) % 65521 := by
        simp only [UInt32.toNat_mod, UInt32.toNat_add, UInt8.toNat_toUInt32, UInt32.reduceToNat]
        omega
      exact ih ha hb (Nat.mod_lt _ (by norm_num)) (Nat.mod_lt _ (by norm_num))

theorem adler32_eq (data : List UInt8) : (adler32 data).toNat = Png.adler32 data := by
  have hone : (1 : UInt32).toNat = 1 := rfl
  have hzero : (0 : UInt32).toNat = 0 := rfl
  obtain ⟨a, b, hcode, hsums, ha, hb⟩ := adlerSums_eq data hone hzero (by norm_num) (by norm_num)
  have hshift : b.toNat <<< 16 % 2 ^ 32 = b.toNat <<< 16 := by
    rw [Nat.shiftLeft_eq]
    omega
  have hlow : a.toNat < 2 ^ 16 := by omega
  rw [adler32, Png.adler32, adlerSums, hcode, hsums]
  simp only [UInt32.toNat_or, UInt32.toNat_shiftLeft, UInt32.reduceToNat, Nat.reduceMod]
  rw [hshift, ← Nat.shiftLeft_add_eq_or_of_lt hlow, Nat.shiftLeft_eq]

/-! ### Chunks -/

theorem chunk_eq (output type data : List UInt8) :
    chunk output type data = output ++ chunk [] type data := by
  simp only [chunk, appendU32, List.nil_append, List.append_assoc]

theorem length_chunk (type data : List UInt8) :
    (chunk [] type data).length = type.length + data.length + 8 := by
  simp only [chunk, appendU32, List.nil_append, List.length_append, List.length_cons,
    List.length_nil]
  omega

/-- The parts of a chunk, with what follows it. -/
theorem chunk_append (type data rest : List UInt8) :
    chunk [] type data ++ rest = appendU32 [] (UInt32.ofNat data.length) ++ (type ++ (data ++
      (appendU32 [] (Png.crc32 (type ++ data)) ++ rest))) := by
  simp only [chunk, crc32_eq, appendU32_eq (appendU32 [] _ ++ _), List.append_assoc]

/-- A chunk of a length that chunks may have is read back. -/
theorem readChunk_chunk {type data : List UInt8} (htype : type.length = 4)
    (hdata : data.length ≤ 2 ^ 31 - 1) (rest : List UInt8) :
    readChunk type (chunk [] type data ++ rest) = some (data, rest) := by
  have hsize : bigEndian (appendU32 [] (UInt32.ofNat data.length)) = data.length := by
    rw [bigEndian_appendU32]
    exact UInt32.toNat_ofNat_of_lt' (show data.length < 4294967296 by omega)
  have hbound : ¬(type ≠ type ∨ 2 ^ 31 - 1 < data.length) := by
    rw [not_or, not_lt]
    exact ⟨fun h => h rfl, hdata⟩
  rw [chunk_append, readChunk, takeBytes_append (length_appendU32 _)]
  simp only [bind, Option.bind, takeBytes_append htype, hsize, if_neg hbound,
    takeBytes_append rfl, takeBytes_append (length_appendU32 _), bigEndian_appendU32, if_true]

/-- Of a longer chunk at most a part is read. -/
theorem readChunk_long {type data rest read left : List UInt8} (htype : type.length = 4)
    (hdata : 2 ^ 31 - 1 < data.length)
    (h : readChunk type (chunk [] type data ++ rest) = some (read, left)) :
    ∃ count < data.length, read = data.take count := by
  have hsize : bigEndian (appendU32 [] (UInt32.ofNat data.length)) = data.length % 2 ^ 32 := by
    rw [bigEndian_appendU32]
    exact UInt32.toNat_ofNat'
  rw [chunk_append, readChunk, takeBytes_append (length_appendU32 _)] at h
  simp only [bind, Option.bind, takeBytes_append htype, hsize] at h
  split_ifs at h with hbound
  have hcount : data.length % 2 ^ 32 < data.length := by
    simp only [ne_eq, not_true_eq_false, false_or, not_lt] at hbound
    omega
  rw [takeBytes, if_pos (by rw [List.length_append]; omega),
    List.take_append_of_le_length hcount.le] at h
  dsimp only at h
  refine ⟨data.length % 2 ^ 32, hcount, ?_⟩
  split at h
  · cases h
  · dsimp only at h
    split_ifs at h
    simp only [Option.some.injEq, Prod.mk.injEq] at h
    exact h.1.symm

/-! ### Stored blocks -/

theorem inflate_block {final : Bool} {data rest : List UInt8} (h : data.length ≤ 65535) :
    inflate (blockHeader final data.length ++ (data ++ rest)) =
      if final then some (data, rest)
      else (inflate rest).map fun (later, tail) => (data ++ later, tail) := by
  obtain ⟨hlength, hinverse⟩ := word_blockHeader h
  have htaken : (data ++ rest).take data.length = data := List.take_left
  have hleft : (data ++ rest).drop data.length = rest := List.drop_left
  have hok : (if final then 1 else 0 : UInt8).toNat / 2 % 4 = 0 ∧
      data.length + (65535 - data.length) = 65535 ∧ data.length ≤ (data ++ rest).length := by
    refine ⟨by cases final <;> rfl, by omega, by simp⟩
  simp only [blockHeader, List.cons_append, List.nil_append]
  rw [inflate]
  simp only [hlength, hinverse, if_pos hok, htaken, hleft]
  cases final <;> rfl

/-- The blocks are read back up to the last one. -/
theorem inflate_storedBlocks (tail : List UInt8) : ∀ {data : List UInt8}, data ≠ [] →
    inflate (storedBlocks data ++ tail) = some (data, tail) := by
  intro data
  induction data using storedBlocks.induct with
  | case1 => exact fun h => absurd rfl h
  | case2 data hdata size ih =>
      intro _
      have hsize : (data.take size).length = size := by simp [size]
      have hle : size ≤ 65535 := Nat.min_le_left _ _
      rw [storedBlocks, if_neg hdata]
      change inflate ((blockHeader (size == data.length) size ++ data.take size ++
        storedBlocks (data.drop size)) ++ tail) = _
      have hparts : (blockHeader (size == data.length) size ++ data.take size ++
          storedBlocks (data.drop size)) ++ tail =
            blockHeader (size == data.length) (data.take size).length ++ (data.take size ++
              (storedBlocks (data.drop size) ++ tail)) := by
        rw [hsize]
        simp only [List.append_assoc]
      rw [hparts, inflate_block (by rw [hsize]; exact hle)]
      cases hfinal : size == data.length with
      | true =>
          have hwhole : size = data.length := by simpa using hfinal
          simp [hwhole, storedBlocks]
      | false =>
          have hmore : data.drop size ≠ [] := by
            have hne : size ≠ data.length := by simpa using hfinal
            have hlt : size ≤ data.length := Nat.min_le_right _ _
            rw [← List.length_pos_iff, List.length_drop]
            omega
          rw [if_neg (by decide), ih hmore, Option.map_some]
          dsimp only
          rw [List.take_append_drop]

theorem length_storedBlocks : ∀ data : List UInt8,
    (storedBlocks data).length = data.length + 5 * ((data.length + 65534) / 65535) := by
  intro data
  induction data using storedBlocks.induct with
  | case1 => simp [storedBlocks]
  | case2 data hdata size ih =>
      have hpos := List.length_pos_iff.2 hdata
      have hsize : size = min 65535 data.length := rfl
      rw [storedBlocks, if_neg hdata]
      change (blockHeader (size == data.length) size ++ data.take size ++
        storedBlocks (data.drop size)).length = _
      have hheader : (blockHeader (size == data.length) size).length = 5 := rfl
      simp only [List.length_append, ih, hheader, List.length_take, List.length_drop]
      omega

/-! ### The zlib stream -/

theorem readZlib_zlib {filtered : List UInt8} (h : filtered ≠ []) :
    readZlib (zlib filtered) = some filtered := by
  have hparts : zlib filtered =
      [0x78, 0x01] ++ (storedBlocks filtered ++ appendU32 [] (adler32 filtered)) := rfl
  have hheader : ¬(bigEndian [0x78, 0x01] % 31 ≠ 0 ∨ bigEndian [0x78, 0x01] / 256 % 16 ≠ 8 ∨
      7 < bigEndian [0x78, 0x01] / 4096 ∨ bigEndian [0x78, 0x01] / 32 % 2 = 1) := by decide
  have htwo : ([0x78, 0x01] : List UInt8).length = 2 := rfl
  rw [hparts, readZlib, takeBytes_append htwo]
  simp only [bind, Option.bind, if_neg hheader, inflate_storedBlocks _ h, length_appendU32,
    bigEndian_appendU32, adler32_eq, and_self, if_true]

/-- A stream that is cut off is not read. -/
theorem readZlib_cut {filtered : List UInt8} (h : filtered ≠ []) {count : ℕ}
    (hcount : count < (zlib filtered).length) : readZlib ((zlib filtered).take count) = none := by
  rw [Option.eq_none_iff_forall_ne_some]
  intro data hread
  simp only [readZlib, bind, Option.bind_eq_some_iff, Prod.exists] at hread
  obtain ⟨start, bytes, hstart, hread⟩ := hread
  split_ifs at hread
  obtain ⟨⟨later, check⟩, hinflate, hread⟩ := Option.bind_eq_some_iff.1 hread
  dsimp only at hread
  split_ifs at hread with hcheck
  rw [takeBytes] at hstart
  split_ifs at hstart with htwo
  simp only [Option.some.injEq, Prod.mk.injEq] at hstart
  obtain ⟨-, rfl⟩ := hstart
  -- With the bytes that were cut off the blocks end earlier than before.
  have hwhole : ((zlib filtered).take count).drop 2 ++ (zlib filtered).drop count =
      storedBlocks filtered ++ appendU32 [] (adler32 filtered) := by
    have hlong : 2 ≤ ((zlib filtered).take count).length := htwo
    rw [← List.drop_append_of_le_length hlong, List.take_append_drop]
    rfl
  have hfull := inflate_append hinflate ((zlib filtered).drop count)
  rw [hwhole, inflate_storedBlocks _ h] at hfull
  have hlength := congrArg (fun r => (r.2 : List UInt8).length) (Option.some.inj hfull)
  simp only [length_appendU32, List.length_append, List.length_drop, hcheck.1] at hlength
  omega

theorem length_zlib (filtered : List UInt8) :
    (zlib filtered).length = filtered.length + 5 * ((filtered.length + 65534) / 65535) + 6 := by
  have hparts : zlib filtered =
      [0x78, 0x01] ++ (storedBlocks filtered ++ appendU32 [] (adler32 filtered)) := rfl
  rw [hparts]
  simp only [List.length_append, length_storedBlocks, length_appendU32, List.length_cons,
    List.length_nil]
  omega

/-! ### Rows -/

theorem filterRows_succ (pixels : List UInt8) (stride height : ℕ) :
    filterRows pixels stride (height + 1) =
      0 :: (pixels.take stride ++ filterRows (pixels.drop stride) stride height) := by
  have hrow (row : ℕ) : pixels.drop ((row + 1) * stride) =
      (pixels.drop stride).drop (row * stride) := by
    rw [List.drop_drop]
    congr 1
    ring
  rw [filterRows, filterRows, List.range_succ_eq_map, List.flatMap_cons, List.flatMap_map]
  simp only [Nat.zero_mul, List.drop_zero, List.cons_append, hrow]

theorem unfilter_filterRows (stride : ℕ) : ∀ {height : ℕ} {pixels : List UInt8},
    pixels.length = height * stride →
    unfilter stride height (filterRows pixels stride height) = some pixels
  | 0, pixels, h => by
      have h : pixels = [] := List.eq_nil_of_length_eq_zero (by simpa using h)
      rw [h]
      rfl
  | height + 1, pixels, h => by
      have hrest : pixels.length = height * stride + stride := by
        rw [h]
        ring
      have hrow : (pixels.take stride).length = stride := by
        rw [List.length_take]
        omega
      have hlater : (pixels.drop stride).length = height * stride := by
        rw [List.length_drop]
        omega
      rw [filterRows_succ, unfilter, takeBytes_append hrow]
      simp only [bind, Option.bind, unfilter_filterRows stride hlater, pure,
        List.take_append_drop]

theorem length_filterRows (stride : ℕ) : ∀ {height : ℕ} {pixels : List UInt8},
    pixels.length = height * stride →
    (filterRows pixels stride height).length = (stride + 1) * height
  | 0, _, _ => rfl
  | height + 1, pixels, h => by
      have hrest : pixels.length = height * stride + stride := by
        rw [h]
        ring
      have hlater : (pixels.drop stride).length = height * stride := by
        rw [List.length_drop]
        omega
      rw [filterRows_succ, List.length_cons, List.length_append, length_filterRows stride hlater,
        List.length_take, Nat.min_eq_left (by omega)]
      ring

/-! ### The file -/

/-- A picture that a caller has: its pixels are as many as its dimensions say. -/
structure Image where
  width : ℕ
  height : ℕ
  channels : ℕ
  pixels : List UInt8
  width_ok : 1 ≤ width ∧ width < 2 ^ 31
  height_ok : 1 ≤ height ∧ height < 2 ^ 31
  channels_ok : channels = 3 ∨ channels = 4
  pixels_ok : pixels.length = width * height * channels

namespace Image

variable (image : Image)

def picture : Picture := ⟨image.width, image.height, image.channels, image.pixels⟩

def encoded : Result (List UInt8) :=
  encodePng (some image.pixels) image.width image.height image.channels

/-- The pixels and the filter types. -/
def filteredSize : ℕ := (image.width * image.channels + 1) * image.height

/-- The length of the data chunk: stored blocks of 65535 bytes, with 5 bytes for each. -/
def dataSize : ℕ := image.filteredSize + 5 * ((image.filteredSize + 65534) / 65535) + 6

def Accepted : Prop := image.width * image.height * image.channels ≤ 2 ^ 32 - 1

def Lossless : Prop :=
  ∀ output, image.encoded = .ok output → readPng output = some image.picture

def data : List UInt8 :=
  zlib (filterRows image.pixels (image.width * image.channels) image.height)

theorem pixels_rows : image.pixels.length = image.height * (image.width * image.channels) := by
  rw [image.pixels_ok]
  ring

theorem filterRows_ne_nil :
    filterRows image.pixels (image.width * image.channels) image.height ≠ [] := by
  have hheight := image.height_ok.1
  rw [← List.length_pos_iff, length_filterRows _ image.pixels_rows]
  positivity

theorem length_data : image.data.length = image.dataSize := by
  rw [data, length_zlib, length_filterRows _ image.pixels_rows]
  rfl

theorem portable_eq : portable image.pixels image.width image.height image.channels =
    signature ++ (chunk [] ihdr (header image.width image.height image.channels) ++
      (chunk [] idat image.data ++ (chunk [] iend [] ++ []))) := by
  rw [portable, chunk_eq _ iend, chunk_eq _ idat, chunk_eq _ ihdr]
  simp only [List.append_assoc, List.append_nil]
  rfl

theorem encoded_eq_ok_iff {output : List UInt8} : image.encoded = .ok output ↔
    image.Accepted ∧ output = portable image.pixels image.width image.height image.channels := by
  obtain ⟨hwidth, hwidth'⟩ := image.width_ok
  obtain ⟨hheight, hheight'⟩ := image.height_ok
  have hproduct : image.width * image.height * image.channels < 2 ^ 64 := by
    have harea : image.width * image.height ≤ (2 ^ 31 - 1) * (2 ^ 31 - 1) :=
      Nat.mul_le_mul (by omega) (by omega)
    obtain h | h := image.channels_ok <;> rw [h] <;> omega
  have hwrap : (image.width * image.height * image.channels : ℤ) % 2 ^ 64 =
      (image.width * image.height * image.channels : ℕ) := by
    push_cast
    exact Int.emod_eq_of_lt (by positivity) (by exact_mod_cast hproduct)
  have hchannels : ¬((image.channels : ℤ) ≠ 3 ∧ (image.channels : ℤ) ≠ 4) := by
    have := image.channels_ok
    omega
  rw [encoded, encodePng, hwrap]
  by_cases haccepted : image.Accepted
  · have hguard : ¬((image.width : ℤ) < 1 ∨ (image.height : ℤ) < 1 ∨
        ((image.channels : ℤ) ≠ 3 ∧ (image.channels : ℤ) ≠ 4) ∨
        2 ^ 32 - 1 < ((image.width * image.height * image.channels : ℕ) : ℤ)) := by
      rw [Accepted] at haccepted
      omega
    rw [if_neg hguard]
    simp [haccepted, eq_comm]
  · have hguard : (image.width : ℤ) < 1 ∨ (image.height : ℤ) < 1 ∨
        ((image.channels : ℤ) ≠ 3 ∧ (image.channels : ℤ) ≠ 4) ∨
        2 ^ 32 - 1 < ((image.width * image.height * image.channels : ℕ) : ℤ) := by
      rw [Accepted] at haccepted
      omega
    rw [if_pos hguard]
    simp [haccepted, err]

theorem readHeader_header :
    readHeader (header image.width image.height image.channels) =
      some (image.width, image.height, image.channels) := by
  obtain ⟨hwidth, hwidth'⟩ := image.width_ok
  obtain ⟨hheight, hheight'⟩ := image.height_ok
  have hread {n : ℕ} (hn : n < 2 ^ 31) : bigEndian (appendU32 [] (UInt32.ofNat n)) = n := by
    rw [bigEndian_appendU32]
    exact UInt32.toNat_ofNat_of_lt' (show n < 4294967296 by omega)
  have hbounds : ¬(image.width = 0 ∨ 2 ^ 31 - 1 < image.width ∨ image.height = 0 ∨
      2 ^ 31 - 1 < image.height) := by omega
  have hparts : header image.width image.height image.channels =
      appendU32 [] (UInt32.ofNat image.width) ++ (appendU32 [] (UInt32.ofNat image.height) ++
        [8, if image.channels = 3 then 2 else 6, 0, 0, 0]) := by
    rw [header, appendU32_eq (appendU32 [] _), List.append_assoc]
  rw [hparts, readHeader, takeBytes_append (length_appendU32 _)]
  simp only [bind, Option.bind, takeBytes_append (length_appendU32 _), hread hwidth',
    hread hheight', if_neg hbounds]
  obtain h | h := image.channels_ok <;> rw [h] <;> rfl

/-- The reader up to the data chunk. -/
theorem readPng_portable : readPng (portable image.pixels image.width image.height image.channels) =
    readBody image.width image.height image.channels
      (chunk [] idat image.data ++ (chunk [] iend [] ++ [])) := by
  have hsignature : signature.length = 8 := rfl
  have htype : ihdr.length = 4 := rfl
  have hsize : (header image.width image.height image.channels).length ≤ 2 ^ 31 - 1 := by
    simp [header, appendU32]
  rw [portable_eq, readPng, takeBytes_append hsignature]
  simp only [bind, Option.bind, ne_eq, not_true_eq_false, if_false, readChunk_chunk htype hsize,
    readHeader_header]

/-- A data chunk of a length that chunks may have is read. -/
theorem readBody_data (h : image.dataSize ≤ 2 ^ 31 - 1) :
    readBody image.width image.height image.channels
      (chunk [] idat image.data ++ (chunk [] iend [] ++ [])) = some image.picture := by
  have hdata : idat.length = 4 := rfl
  have hend : iend.length = 4 := rfl
  have hempty : ([] : List UInt8).length ≤ 2 ^ 31 - 1 := Nat.zero_le _
  rw [← image.length_data] at h
  rw [readBody, readChunk_chunk hdata h]
  simp only [bind, Option.bind, readChunk_chunk hend hempty, ne_eq, not_true_eq_false,
    or_self, if_false, data, readZlib_zlib image.filterRows_ne_nil,
    unfilter_filterRows _ image.pixels_rows]
  rfl

/-- A longer one is not. -/
theorem readBody_long (h : 2 ^ 31 - 1 < image.dataSize) :
    readBody image.width image.height image.channels
      (chunk [] idat image.data ++ (chunk [] iend [] ++ [])) = none := by
  have hdata : idat.length = 4 := rfl
  rw [← image.length_data] at h
  rw [readBody]
  cases hread : readChunk idat (chunk [] idat image.data ++ (chunk [] iend [] ++ [])) with
  | none => rfl
  | some parts =>
      obtain ⟨read, left⟩ := parts
      obtain ⟨count, hcount, rfl⟩ := readChunk_long hdata h hread
      simp only [bind, Option.bind]
      cases readChunk iend left with
      | none => rfl
      | some parts =>
          obtain ⟨trailer, bytes⟩ := parts
          dsimp only
          rw [data, readZlib_cut image.filterRows_ne_nil hcount]
          split_ifs <;> rfl

end Image

/-- The encoder is lossless exactly on the pictures that it rejects, and on those whose data chunk is
no longer than a chunk may be. -/
theorem encodePng_lossless_iff (image : Image) :
    image.Lossless ↔ image.Accepted → image.dataSize ≤ 2 ^ 31 - 1 := by
  constructor
  · intro h haccepted
    by_contra hlong
    have hread := h _ (image.encoded_eq_ok_iff.2 ⟨haccepted, rfl⟩)
    rw [image.readPng_portable, image.readBody_long (not_le.1 hlong)] at hread
    cases hread
  · intro h output houtput
    obtain ⟨haccepted, rfl⟩ := image.encoded_eq_ok_iff.1 houtput
    rw [image.readPng_portable, image.readBody_data (h haccepted)]

/-! ### A picture that is too large -/

def black (width height : ℕ) (hwidth : 1 ≤ width ∧ width < 2 ^ 31)
    (hheight : 1 ≤ height ∧ height < 2 ^ 31) : Image where
  width
  height
  channels := 3
  pixels := List.replicate (width * height * 3) 0
  width_ok := hwidth
  height_ok := hheight
  channels_ok := Or.inl rfl
  pixels_ok := List.length_replicate

/-- Its pixels take three gigabytes. -/
theorem black_not_lossless :
    ¬(black 32768 32768 (by norm_num) (by norm_num)).Lossless := by
  intro h
  have hlong : 2 ^ 31 - 1 < (black 32768 32768 (by norm_num) (by norm_num)).dataSize := by
    norm_num [Image.dataSize, Image.filteredSize, black]
  have haccepted : (black 32768 32768 (by norm_num) (by norm_num)).Accepted := by
    norm_num [Image.Accepted, black]
  have hread := h _ (Image.encoded_eq_ok_iff _ |>.2 ⟨haccepted, rfl⟩)
  rw [Image.readPng_portable, Image.readBody_long _ hlong] at hread
  cases hread

end InferDeck.NativeRuntimes
