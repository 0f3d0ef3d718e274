import InferDeck.Foundation
import InferDeck.PngFormat

/-!
# The portable PNG encoder

`encode_png` where no encoder of the system is used: rows without a filter in stored blocks. The
pixels are the bytes that the pointer leads to, `none` for the null pointer.
-/

namespace InferDeck.NativeRuntimes

open InferDeck.Foundation InferDeck.Png

def appendU32 (output : List UInt8) (value : UInt32) : List UInt8 :=
  output ++ [((value >>> 24) &&& 0xff).toUInt8, ((value >>> 16) &&& 0xff).toUInt8,
    ((value >>> 8) &&& 0xff).toUInt8, (value &&& 0xff).toUInt8]

/-- The two loops over the bytes and their bits. -/
def crc32 (data : List UInt8) : UInt32 :=
  ~~~data.foldl (fun crc b =>
    (List.range 8).foldl (fun crc _ => (crc >>> 1) ^^^ (0xedb88320 &&& (0 - (crc &&& 1))))
      (crc ^^^ b.toUInt32)) 0xffffffff

def chunk (output type data : List UInt8) : List UInt8 :=
  let written := type ++ data
  appendU32 (appendU32 output (UInt32.ofNat data.length) ++ written) (crc32 written)

def adler32 (data : List UInt8) : UInt32 :=
  let sums := data.foldl (fun (sums : UInt32 × UInt32) b =>
    let a := (sums.1 + b.toUInt32) % 65521
    (a, (sums.2 + a) % 65521)) (1, 0)
  (sums.2 <<< 16) ||| sums.1

def filterRows (pixels : List UInt8) (stride height : ℕ) : List UInt8 :=
  (List.range height).flatMap fun row => 0 :: (pixels.drop (row * stride)).take stride

def blockHeader (final : Bool) (size : ℕ) : List UInt8 :=
  let length := UInt16.ofNat size
  let inverse := ~~~length
  [if final then 1 else 0, (length &&& 0xff).toUInt8, ((length >>> 8) &&& 0xff).toUInt8,
    (inverse &&& 0xff).toUInt8, ((inverse >>> 8) &&& 0xff).toUInt8]

/-- The loop over the blocks, with the bytes from its position on. -/
def storedBlocks (rest : List UInt8) : List UInt8 :=
  if rest = [] then []
  else
    let size := min 65535 rest.length
    blockHeader (size == rest.length) size ++ rest.take size ++ storedBlocks (rest.drop size)
termination_by rest.length
decreasing_by
  rename_i hrest
  have := List.length_pos_iff.2 hrest
  simp only [List.length_drop]
  omega

def zlib (filtered : List UInt8) : List UInt8 :=
  appendU32 ([0x78, 0x01] ++ storedBlocks filtered) (adler32 filtered)

def header (width height channels : ℕ) : List UInt8 :=
  appendU32 (appendU32 [] (UInt32.ofNat width)) (UInt32.ofNat height) ++
    [8, if channels = 3 then 2 else 6, 0, 0, 0]

def portable (pixels : List UInt8) (width height channels : ℕ) : List UInt8 :=
  let deflate := zlib (filterRows pixels (width * channels) height)
  chunk (chunk (chunk signature ihdr (header width height channels)) idat deflate) iend []

def encodePng (pixels : Option (List UInt8)) (width height channels : ℤ) : Result (List UInt8) :=
  match pixels with
  | none => err .invalidArgument "invalid image buffer"
  | some pixels =>
      if width < 1 ∨ height < 1 ∨ (channels ≠ 3 ∧ channels ≠ 4) ∨
          2 ^ 32 - 1 < width * height * channels % 2 ^ 64 then
        err .invalidArgument "invalid image buffer"
      else .ok (portable pixels width.toNat height.toNat channels.toNat)

end InferDeck.NativeRuntimes
