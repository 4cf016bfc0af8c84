/-!
# SHA-1

The secure hash of FIPS 180-4 with a 160-bit digest, in two forms: of a whole message, by
padding it and folding over its blocks, and of a message that arrives in pieces, by a state
that carries the bytes of the block not yet complete.

* `ofMessage` is the definition by padding; `length_padding` says that the padding leaves no
  block incomplete.
* `Hasher.push_append`: pushing two pieces is pushing their concatenation, so the way a message
  is cut does not reach the digest.
-/

namespace ImagePipeline.Sha1

/-- The five words of the running digest. -/
structure Digest where
  /-- The first word. -/
  a : UInt32
  /-- The second word. -/
  b : UInt32
  /-- The third word. -/
  c : UInt32
  /-- The fourth word. -/
  d : UInt32
  /-- The fifth word. -/
  e : UInt32
deriving DecidableEq, Repr

/-- The digest before the first block. -/
def Digest.start : Digest :=
  ⟨0x67452301, 0xEFCDAB89, 0x98BADCFE, 0x10325476, 0xC3D2E1F0⟩

/-- Rotation of a word to the left. -/
def rotate (n : UInt32) (w : UInt32) : UInt32 :=
  (w <<< n) ||| (w >>> (32 - n))

/-- The words of a list of bytes, four bytes to a word, the most significant byte first. -/
def wordsOf : List UInt8 → List UInt32
  | a :: b :: c :: d :: rest =>
    (a.toUInt32 <<< 24 ||| b.toUInt32 <<< 16 ||| c.toUInt32 <<< 8 ||| d.toUInt32) :: wordsOf rest
  | _ => []

/-- Adds `n` words of the message schedule to the words so far, which are newest first. -/
def extend : Nat → List UInt32 → List UInt32
  | 0, ws => ws
  | n + 1, ws =>
    extend n (rotate 1 (ws.getD 2 0 ^^^ ws.getD 7 0 ^^^ ws.getD 13 0 ^^^ ws.getD 15 0) :: ws)

/-- The eighty words of the message schedule of a block. -/
def schedule (block : List UInt8) : List UInt32 :=
  (extend 64 (wordsOf block).reverse).reverse

/-- The function and the constant of a round. -/
def mix (t : Nat) (b c d : UInt32) : UInt32 :=
  if t < 20 then ((b &&& c) ||| (~~~b &&& d)) + 0x5A827999
  else if t < 40 then (b ^^^ c ^^^ d) + 0x6ED9EBA1
  else if t < 60 then ((b &&& c) ||| (b &&& d) ||| (c &&& d)) + 0x8F1BBCDC
  else (b ^^^ c ^^^ d) + 0xCA62C1D6

/-- The rounds from number `t` on, one for each word. -/
def rounds : Nat → List UInt32 → Digest → Digest
  | _, [], h => h
  | t, w :: ws, h =>
    rounds (t + 1) ws ⟨rotate 5 h.a + mix t h.b h.c h.d + h.e + w, h.a, rotate 30 h.b, h.c, h.d⟩

/-- The digest after one more block of 64 bytes. -/
def Digest.absorb (h : Digest) (block : List UInt8) : Digest :=
  let r := rounds 0 (schedule block) h
  ⟨h.a + r.a, h.b + r.b, h.c + r.c, h.d + r.d, h.e + r.e⟩

/-- The bytes of a number, the most significant first. -/
def bigEndian : Nat → Nat → List UInt8
  | 0, _ => []
  | width + 1, n => UInt8.ofNat (n / Nat.pow 256 width % 256) :: bigEndian width n

/-- What follows a message of `length` bytes: a one bit, zero bits up to eight bytes before the
end of a block, and the length in bits. -/
def padding (length : Nat) : List UInt8 :=
  0x80 :: List.replicate ((119 - length % 64) % 64) 0 ++ bigEndian 8 (length * 8)

@[simp] theorem length_bigEndian (width n : Nat) : (bigEndian width n).length = width := by
  induction width with
  | zero => rfl
  | succ width ih => simp [bigEndian, ih]

/-- The padding completes a block. -/
theorem length_padding (length : Nat) : (length + (padding length).length) % 64 = 0 := by
  simp only [padding, List.length_append, List.length_cons, List.length_replicate,
    length_bigEndian]
  omega

/-- The consecutive blocks of 64 bytes; a shorter rest is dropped. -/
def blocks : Nat → List UInt8 → List (List UInt8)
  | 0, _ => []
  | n + 1, bytes => bytes.take 64 :: blocks n (bytes.drop 64)

/-- The digest of a whole message. -/
def ofMessage (message : List UInt8) : Digest :=
  let padded := message ++ padding message.length
  (blocks (padded.length / 64) padded).foldl Digest.absorb Digest.start

/-- The forty hexadecimal digits of a digest, in lower case. -/
def Digest.toHex (h : Digest) : String :=
  String.ofList ([h.a, h.b, h.c, h.d, h.e].flatMap fun w =>
    (bigEndian 4 w.toNat).flatMap fun byte =>
      [(byte.toNat / 16).digitChar, (byte.toNat % 16).digitChar])

/-- A message on its way in. -/
structure Hasher where
  /-- The digest of the complete blocks. -/
  digest : Digest
  /-- The bytes of the block not yet complete, newest first. -/
  pending : List UInt8
  /-- The number of bytes so far. -/
  length : Nat

/-- The state before the first byte. -/
def Hasher.empty : Hasher := ⟨.start, [], 0⟩

/-- One more byte; the sixty-fourth completes a block. -/
def Hasher.pushByte (h : Hasher) (byte : UInt8) : Hasher :=
  if (h.length + 1) % 64 = 0 then
    ⟨h.digest.absorb (byte :: h.pending).reverse, [], h.length + 1⟩
  else
    ⟨h.digest, byte :: h.pending, h.length + 1⟩

/-- One more piece of the message. -/
def Hasher.push (h : Hasher) (piece : List UInt8) : Hasher :=
  piece.foldl pushByte h

/-- The digest of the message so far. -/
def Hasher.finish (h : Hasher) : Digest :=
  (h.push (padding h.length)).digest

@[simp] theorem Hasher.push_nil (h : Hasher) : h.push [] = h := rfl

theorem Hasher.push_append (h : Hasher) (xs ys : List UInt8) :
    h.push (xs ++ ys) = (h.push xs).push ys := by
  simp [push]

end ImagePipeline.Sha1
