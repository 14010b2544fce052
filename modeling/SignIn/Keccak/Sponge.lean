import SignIn.Keccak.Permutation
/-!
# Keccak-256 of bytes and of text

The sponge takes bytes one at a time into the first 136 bytes of the state (the *rate*), permutes
whenever that block is full, and pads with the byte `0x01` after the message and the top bit of the
last byte of the rate.  The digest is the first 32 bytes of the state, each lane with its low byte
first.

Text is hashed one byte to a character, so it has to be ASCII; the first character that is not is
reported with its place.
-/
namespace SignIn
namespace Keccak

/-- The bytes taken in between two permutations. -/
def rate : Nat := 136

/-- The bytes of a digest. -/
def digestLength : Nat := 32

/-- **A sponge is its lanes and the number of bytes in the block begun.** -/
structure Sponge where
  lanes : Lanes
  count : Nat

/-- The sponge before any byte. -/
def Sponge.empty : Sponge := ⟨Vector.replicate 25 0, 0⟩

/-- A byte added at its place among the lanes; a place past the lanes changes nothing. -/
def addByte (a : Lanes) (i : Nat) (b : UInt8) : Lanes :=
  if h : i / 8 < 25 then
    a.set (i / 8) (a[i / 8] ^^^ (b.toUInt64 <<< UInt64.ofNat (8 * (i % 8))))
  else a

/-- **A byte that fills the block starts the next one with a permutation.** -/
def Sponge.absorb (s : Sponge) (b : UInt8) : Sponge :=
  let lanes := addByte s.lanes s.count b
  if s.count + 1 = rate then ⟨permute lanes, 0⟩ else ⟨lanes, s.count + 1⟩

/-- The byte at a place of the lanes. -/
def byteAt (a : Lanes) (i : Fin digestLength) : UInt8 :=
  have : i.val / 8 < 25 := by have := i.isLt; simp only [digestLength] at this; omega
  (a[i.val / 8] >>> UInt64.ofNat (8 * (i.val % 8))).toUInt8

/-- **The padding closes the block,** in one byte if only one is left. -/
def Sponge.finish (s : Sponge) : Vector UInt8 digestLength :=
  let last := permute (addByte (addByte s.lanes s.count 0x01) (rate - 1) 0x80)
  Vector.ofFn (byteAt last)

/-- **The digest of a byte string.** -/
def digest (message : List UInt8) : Vector UInt8 digestLength :=
  (message.foldl Sponge.absorb Sponge.empty).finish

end Keccak

/-- The two lowercase hexadecimal digits of a byte. -/
def hexByte (b : UInt8) : Text :=
  [Nat.digitChar (b.toNat / 16), Nat.digitChar (b.toNat % 16)]

/-- Bytes in hexadecimal, two digits to a byte. -/
def hexBytes (bs : List UInt8) : Text := bs.flatMap hexByte

/-- **Only ASCII text has a hash.** -/
inductive HashError where
  | nonAscii (codePoint offset : Nat)
  deriving DecidableEq

/-- The sentence that tells of the error. -/
def HashError.message : HashError → Text
  | .nonAscii codePoint offset =>
    "keccak256: input must be string of ASCII-only characters: found character code " ++
      decimal codePoint ++ " at offset " ++ decimal offset

/-- The first character that fails a test, with its offset. -/
def firstFailing (ok : Char → Bool) (t : Text) : Option (Char × Nat) :=
  t.zipIdx.find? (fun p => !ok p.1)

/-- **The hash of an ASCII text,** 64 hexadecimal digits. -/
def hashText (t : Text) : Except HashError Text :=
  match firstFailing (fun c => decide (c.toNat < 128)) t with
  | some (c, i) => .error (.nonAscii c.toNat i)
  | none => .ok (hexBytes (Keccak.digest (t.map fun c => c.toNat.toUInt8)).toList)

end SignIn
