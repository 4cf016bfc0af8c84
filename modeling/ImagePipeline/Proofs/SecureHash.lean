import ImagePipeline.Sha1
import Mathlib.Data.List.GetD
import Mathlib.Order.Bounds.Defs
import Mathlib.Tactic.Ring

/-!
# The secure hash of the standard

FIPS 180-4 defines SHA-1 on strings of bits: a message is padded, its blocks are words of 32 bits,
and each block takes a value of five words to the next one.  `Standard` is that definition, word by
word and by the numbers of the rounds; nothing in it is made for running.

* `Standard.isLeast_zeros`: the zeros of the padding are as few as complete a block.
* `map_schedule`, `value_rounds`, `value_absorb`: a block does to the running digest what it does to
  the hash value of the standard.
* `bitsOf_append_padding`, `bits_value_ofMessage`: the digest of bytes is the standard's digest of
  their bits.
* `toHex_ofMessage`: its text has a hexadecimal digit for every four bits of that digest.
-/

namespace ImagePipeline.Sha1

/-! ## The definition of the standard -/

namespace Standard

/-- Words of 32 bits. -/
abbrev Word := BitVec 32

/-- `Ch(x, y, z)`: the bits of `x` choose between those of `y` and `z`. -/
def choose (x y z : Word) : Word := (x &&& y) ^^^ (~~~x &&& z)

/-- `Parity(x, y, z)`. -/
def parity (x y z : Word) : Word := x ^^^ y ^^^ z

/-- `Maj(x, y, z)`: in each place the bit that most of the words have. -/
def majority (x y z : Word) : Word := (x &&& y) ^^^ (x &&& z) ^^^ (y &&& z)

/-- The function of round `t`. -/
def roundFunction (t : Nat) : Word → Word → Word → Word :=
  if t < 20 then choose else if t < 40 then parity else if t < 60 then majority else parity

/-- The constant of round `t`. -/
def roundConstant (t : Nat) : Word :=
  if t < 20 then 0x5a827999
  else if t < 40 then 0x6ed9eba1
  else if t < 60 then 0x8f1bbcdc
  else 0xca62c1d6

/-- Word `t` of the message schedule of a block: its own words, and then each from four before. -/
def scheduled (block : Fin 16 → Word) (t : Nat) : Word :=
  if h : t < 16 then block ⟨t, h⟩
  else (scheduled block (t - 3) ^^^ scheduled block (t - 8) ^^^ scheduled block (t - 14) ^^^
    scheduled block (t - 16)).rotateLeft 1

/-- Five words: a hash value, and the working variables of a round. -/
structure Value where
  /-- The first word. -/
  a : Word
  /-- The second word. -/
  b : Word
  /-- The third word. -/
  c : Word
  /-- The fourth word. -/
  d : Word
  /-- The fifth word. -/
  e : Word

/-- The initial hash value. -/
def initial : Value := ⟨0x67452301, 0xefcdab89, 0x98badcfe, 0x10325476, 0xc3d2e1f0⟩

/-- The working variables after round `t`, with its word of the schedule. -/
def Value.round (v : Value) (t : Nat) (w : Word) : Value :=
  ⟨v.a.rotateLeft 5 + roundFunction t v.b v.c v.d + v.e + roundConstant t + w,
    v.a, v.b.rotateLeft 30, v.c, v.d⟩

/-- The working variables after the rounds with a number less than `t`. -/
def Value.working (v : Value) (block : Fin 16 → Word) : Nat → Value
  | 0 => v
  | t + 1 => (v.working block t).round t (scheduled block t)

/-- The hash value after one more block. -/
def Value.next (v : Value) (block : Fin 16 → Word) : Value :=
  let r := v.working block 80
  ⟨r.a + v.a, r.b + v.b, r.c + v.c, r.d + v.d, r.e + v.e⟩

/-- A number in binary notation with a given number of bits, the most significant one first. -/
def bits : Nat → Nat → List Bool
  | 0, _ => []
  | width + 1, n => n.testBit width :: bits width n

/-- The number in binary notation. -/
def number (bits : List Bool) : Nat := bits.foldl (fun n bit => 2 * n + bit.toNat) 0

/-- The number of zeros in the padding of a message of `length` bits. -/
def zeros (length : Nat) : Nat := (959 - length % 512) % 512

/-- The padded message: a one, the zeros, and the length in 64 bits. -/
def pad (message : List Bool) : List Bool :=
  message ++ (true :: List.replicate (zeros message.length) false ++ bits 64 message.length)

/-- Word `k` of some bits. -/
def wordAt (bits : List Bool) (k : Nat) : Word :=
  BitVec.ofNat 32 (number ((bits.drop (32 * k)).take 32))

/-- The sixteen words of block `i` of a padded message. -/
def blockAt (padded : List Bool) (i : Nat) (t : Fin 16) : Word := wordAt padded (16 * i + t)

/-- The hash value after the first blocks of sixteen words. -/
def valueAfter (padded : List Bool) : Nat → Value
  | 0 => initial
  | i + 1 => (valueAfter padded i).next (blockAt padded i)

/-- The bits of a hash value. -/
def Value.bits (v : Value) : List Bool :=
  [v.a, v.b, v.c, v.d, v.e].flatMap fun w => Standard.bits 32 w.toNat

/-- The message digest: the 160 bits of the last hash value. -/
def digest (message : List Bool) : List Bool :=
  (valueAfter (pad message) ((pad message).length / 512)).bits

/-- Hexadecimal notation: a digit, in lower case, for every four bits. -/
def hexDigits : List Bool → List Char
  | a :: b :: c :: d :: rest => (number [a, b, c, d]).digitChar :: hexDigits rest
  | _ => []

/-- The zeros of the padding are the fewest that leave room for the length in the last block. -/
theorem isLeast_zeros (length : Nat) :
    IsLeast {k | (length + 1 + k) % 512 = 448} (zeros length) := by
  refine ⟨?_, fun k hk => ?_⟩
  · show (length + 1 + zeros length) % 512 = 448
    rw [zeros]
    omega
  · have hk : (length + 1 + k) % 512 = 448 := hk
    rw [zeros]
    omega

/-! ### Binary notation -/

@[simp] theorem length_bits (width n : Nat) : (bits width n).length = width := by
  induction width with
  | zero => rfl
  | succ width ih => rw [bits, List.length_cons, ih]

theorem bits_add (v w n : Nat) : bits (v + w) n = bits v (n / 2 ^ w) ++ bits w n := by
  induction v with
  | zero => rw [Nat.zero_add, bits, List.nil_append]
  | succ v ih =>
    rw [Nat.add_right_comm, bits, bits, ih, Nat.testBit_div_two_pow, Nat.add_comm v w,
      List.cons_append]

theorem bits_mod_two_pow {v w : Nat} (h : v ≤ w) (n : Nat) : bits v (n % 2 ^ w) = bits v n := by
  induction v with
  | zero => rfl
  | succ v ih =>
    rw [bits, bits, ih (Nat.le_of_succ_le h), Nat.testBit_mod_two_pow,
      decide_eq_true (Nat.lt_of_succ_le h), Bool.true_and]

theorem bits_zero (width : Nat) : bits width 0 = List.replicate width false := by
  induction width with
  | zero => rfl
  | succ width ih => rw [bits, ih, Nat.zero_testBit, List.replicate_succ]

theorem number_append (xs ys : List Bool) :
    number (xs ++ ys) = number xs * 2 ^ ys.length + number ys := by
  have hfold : ∀ (ys : List Bool) (n : Nat),
      ys.foldl (fun n bit => 2 * n + bit.toNat) n = n * 2 ^ ys.length + number ys := by
    intro ys
    induction ys with
    | nil => intro n; simp [number]
    | cons y ys ih =>
      intro n
      rw [number, List.foldl_cons, List.foldl_cons, ih, ih (2 * 0 + _), List.length_cons,
        Nat.pow_succ]
      ring
  rw [number, List.foldl_append, hfold]
  rfl

theorem number_bits (width n : Nat) : number (bits width n) = n % 2 ^ width := by
  induction width with
  | zero => rw [Nat.pow_zero, Nat.mod_one]; rfl
  | succ width ih =>
    have hbit : number [n.testBit width] = n / 2 ^ width % 2 := by
      rw [← Nat.toNat_testBit, number, List.foldl_cons, List.foldl_nil, Nat.mul_zero, Nat.zero_add]
    rw [bits, ← List.singleton_append, number_append, hbit, ih, length_bits, Nat.mod_pow_succ,
      Nat.add_comm, Nat.mul_comm]

end Standard

open Standard (Word Value bits number wordAt blockAt scheduled)

variable {bytes block : List UInt8} {h : Digest} {t n : Nat}

/-! ## Bytes as bits -/

/-- The bits of bytes, of each byte the most significant one first. -/
def bitsOf (bytes : List UInt8) : List Bool := bytes.flatMap fun byte => bits 8 byte.toNat

theorem bitsOf_cons (byte : UInt8) (bytes : List UInt8) :
    bitsOf (byte :: bytes) = bits 8 byte.toNat ++ bitsOf bytes := List.flatMap_cons

@[simp] theorem bitsOf_append (xs ys : List UInt8) : bitsOf (xs ++ ys) = bitsOf xs ++ bitsOf ys :=
  List.flatMap_append

@[simp] theorem length_bitsOf (bytes : List UInt8) : (bitsOf bytes).length = 8 * bytes.length := by
  induction bytes with
  | nil => rfl
  | cons byte bytes ih =>
    rw [bitsOf_cons, List.length_append, Standard.length_bits, ih, List.length_cons]
    omega

theorem drop_bitsOf (n : Nat) (bytes : List UInt8) :
    (bitsOf bytes).drop (8 * n) = bitsOf (bytes.drop n) := by
  rcases Nat.le_total n bytes.length with hn | hn
  · conv_lhs => rw [← List.take_append_drop n bytes, bitsOf_append]
    rw [List.drop_left' (by rw [length_bitsOf, List.length_take_of_le hn])]
  · rw [List.drop_eq_nil_of_le (by rw [length_bitsOf]; omega), List.drop_eq_nil_of_le hn]
    rfl

theorem take_bitsOf (n : Nat) (bytes : List UInt8) :
    (bitsOf bytes).take (8 * n) = bitsOf (bytes.take n) := by
  rcases Nat.le_total n bytes.length with hn | hn
  · conv_lhs => rw [← List.take_append_drop n bytes, bitsOf_append]
    rw [List.take_left' (by rw [length_bitsOf, List.length_take_of_le hn])]
  · rw [List.take_of_length_le (by rw [length_bitsOf]; omega), List.take_of_length_le hn]

theorem bitsOf_replicate_zero (n : Nat) :
    bitsOf (List.replicate n 0) = List.replicate (8 * n) false := by
  induction n with
  | zero => rfl
  | succ n ih =>
    rw [List.replicate_succ, bitsOf_cons, ih, UInt8.toNat_zero, Standard.bits_zero,
      List.replicate_append_replicate, Nat.mul_succ, Nat.add_comm]

/-- A number has the same bits in bytes as it has alone. -/
theorem bitsOf_bigEndian (width n : Nat) : bitsOf (bigEndian width n) = bits (8 * width) n := by
  induction width with
  | zero => rfl
  | succ width ih =>
    have hbyte : (UInt8.ofNat (n / Nat.pow 256 width % 256)).toNat =
        n / 2 ^ (8 * width) % 2 ^ 8 := by
      rw [UInt8.toNat_ofNat', Nat.mod_mod, Nat.pow_mul]
      rfl
    rw [bigEndian, bitsOf_cons, ih, hbyte, Standard.bits_mod_two_pow (Nat.le_refl 8), Nat.mul_succ,
      Nat.add_comm, Standard.bits_add]

/-! ## Words -/

/-- A byte is moved within a word without loss. -/
theorem toNat_shiftLeft (byte : UInt8) {i : UInt32} (hi : i.toNat ≤ 24) :
    (byte.toUInt32 <<< i).toNat = byte.toNat * 2 ^ i.toNat := by
  have hlt : byte.toNat * 2 ^ i.toNat < 2 ^ 32 :=
    calc byte.toNat * 2 ^ i.toNat
      _ < 2 ^ 8 * 2 ^ i.toNat := Nat.mul_lt_mul_of_pos_right byte.toNat_lt (Nat.two_pow_pos _)
      _ ≤ 2 ^ 8 * 2 ^ 24 := Nat.mul_le_mul_left _ (Nat.pow_le_pow_right (by decide) hi)
  rw [UInt32.toNat_shiftLeft, UInt8.toNat_toUInt32,
    Nat.mod_eq_of_lt (Nat.lt_of_le_of_lt hi (by decide)), Nat.shiftLeft_eq, Nat.mod_eq_of_lt hlt]

/-- Four bytes make the word of their bits. -/
theorem toBitVec_join (a b c d : UInt8) :
    (a.toUInt32 <<< 24 ||| b.toUInt32 <<< 16 ||| c.toUInt32 <<< 8 ||| d.toUInt32).toBitVec =
      BitVec.ofNat 32 (number (bitsOf [a, b, c, d])) := by
  have hor : ∀ (x : Nat) {y i : Nat}, y < 2 ^ i → x * 2 ^ i ||| y = x * 2 ^ i + y :=
    fun x y i hy => by rw [← Nat.shiftLeft_eq, Nat.shiftLeft_add_eq_or_of_lt hy]
  have ha := a.toNat_lt
  have hb := b.toNat_lt
  have hc := c.toNat_lt
  have hd := d.toNat_lt
  have hnumber : number (bitsOf [a, b, c, d]) =
      a.toNat * 2 ^ 24 + (b.toNat * 2 ^ 16 + (c.toNat * 2 ^ 8 + d.toNat)) := by
    simp only [bitsOf, List.flatMap_cons, List.flatMap_nil, List.append_nil, Standard.number_append,
      Standard.number_bits, List.length_append, Standard.length_bits]
    omega
  have hjoin : (a.toUInt32 <<< 24 ||| b.toUInt32 <<< 16 ||| c.toUInt32 <<< 8 ||| d.toUInt32).toNat =
      a.toNat * 2 ^ 24 + (b.toNat * 2 ^ 16 + (c.toNat * 2 ^ 8 + d.toNat)) := by
    rw [UInt32.toNat_or, UInt32.toNat_or, UInt32.toNat_or, UInt8.toNat_toUInt32,
      toNat_shiftLeft a (by decide), toNat_shiftLeft b (by decide), toNat_shiftLeft c (by decide),
      Nat.or_assoc, Nat.or_assoc]
    show a.toNat * 2 ^ 24 ||| (b.toNat * 2 ^ 16 ||| (c.toNat * 2 ^ 8 ||| d.toNat)) = _
    rw [hor c.toNat (by omega), hor b.toNat (by omega), hor a.toNat (by omega)]
  apply BitVec.eq_of_toNat_eq
  rw [UInt32.toNat_toBitVec, hjoin, BitVec.toNat_ofNat, hnumber, Nat.mod_eq_of_lt (by omega)]

theorem wordAt_bitsOf (bytes : List UInt8) (k : Nat) :
    wordAt (bitsOf bytes) k =
      BitVec.ofNat 32 (number (bitsOf ((bytes.drop (4 * k)).take 4))) := by
  rw [wordAt, show 32 * k = 8 * (4 * k) by omega, drop_bitsOf, ← take_bitsOf]

/-- The words of bytes are those of their bits. -/
theorem map_wordsOf (hlength : block.length = 4 * n) :
    (wordsOf block).map UInt32.toBitVec = (List.range n).map (wordAt (bitsOf block)) := by
  induction n generalizing block with
  | zero =>
    rw [List.length_eq_zero_iff.1 hlength]
    rfl
  | succ n ih =>
    obtain ⟨a, b, c, d, rest, rfl⟩ : ∃ a b c d rest, block = a :: b :: c :: d :: rest := by
      match block, hlength with
      | a :: b :: c :: d :: rest, _ => exact ⟨a, b, c, d, rest, rfl⟩
    have hrest : rest.length = 4 * n := by
      simp only [List.length_cons] at hlength
      omega
    rw [wordsOf, List.map_cons, ih hrest, toBitVec_join, List.range_succ_eq_map, List.map_cons,
      List.map_map, wordAt_bitsOf]
    refine congrArg₂ List.cons rfl (List.map_congr_left fun k _ => ?_)
    rw [Function.comp_apply, wordAt_bitsOf, wordAt_bitsOf, Nat.mul_succ]
    rfl

/-! ## Rounds -/

/-- The words of a digest as a hash value of the standard. -/
def Digest.value (h : Digest) : Value :=
  ⟨h.a.toBitVec, h.b.toBitVec, h.c.toBitVec, h.d.toBitVec, h.e.toBitVec⟩

/-- A bit chosen by `x` comes from one word only, and a bit that most words have is one in two of
them at least: the sums of the standard are disjunctions. -/
theorem toBitVec_mix (t : Nat) (b c d : UInt32) :
    (mix t b c d).toBitVec =
      Standard.roundFunction t b.toBitVec c.toBitVec d.toBitVec + Standard.roundConstant t := by
  have hchoose : ∀ x y z : Word, (x &&& y) ||| (~~~x &&& z) = Standard.choose x y z := by
    intro x y z
    ext i
    simp only [Standard.choose, BitVec.getElem_or, BitVec.getElem_xor, BitVec.getElem_and,
      BitVec.getElem_not]
    cases x[i] <;> simp
  have hmajority : ∀ x y z : Word,
      (x &&& y) ||| (x &&& z) ||| (y &&& z) = Standard.majority x y z := by
    intro x y z
    ext i
    simp only [Standard.majority, BitVec.getElem_or, BitVec.getElem_xor, BitVec.getElem_and]
    cases x[i] <;> cases y[i] <;> simp
  rw [mix, Standard.roundFunction, Standard.roundConstant]
  split
  · rw [← hchoose]
    rfl
  split
  · rfl
  split
  · rw [← hmajority]
    rfl
  · rfl

variable {words : Fin 16 → Word}

/-- The schedule goes on as the standard says; its newest word is in front. -/
theorem map_extend {ws : List UInt32} (hlong : 16 ≤ t)
    (hws : ws.map UInt32.toBitVec = ((List.range t).map (scheduled words)).reverse) (n : Nat) :
    (extend n ws).map UInt32.toBitVec =
      ((List.range (t + n)).map (scheduled words)).reverse := by
  induction n generalizing t ws with
  | zero => exact hws
  | succ n ih =>
    have hget : ∀ i < 16, (ws.getD i 0).toBitVec = scheduled words (t - (i + 1)) := by
      intro i hi
      rw [← List.getD_map ws 0 UInt32.toBitVec, hws, List.getD_reverse _ (by simp; omega),
        List.length_map, List.length_range, List.getD_eq_getElem _ _ (by simp; omega),
        List.getElem_map, List.getElem_range, Nat.sub_sub, Nat.add_comm 1 i]
    have hnext : (rotate 1 (ws.getD 2 0 ^^^ ws.getD 7 0 ^^^ ws.getD 13 0 ^^^
        ws.getD 15 0)).toBitVec = scheduled words t := by
      rw [scheduled, dif_neg (by omega), ← hget 2 (by decide), ← hget 7 (by decide),
        ← hget 13 (by decide), ← hget 15 (by decide)]
      rfl
    rw [extend, ih (by omega : 16 ≤ t + 1), Nat.add_right_comm, Nat.add_assoc]
    rw [List.map_cons, hnext, hws, List.range_succ, List.map_append, List.reverse_append]
    rfl

/-- The words of a block of 64 bytes are scheduled as the standard says. -/
theorem map_schedule (hlength : block.length = 64) :
    (schedule block).map UInt32.toBitVec =
      (List.range 80).map (scheduled (blockAt (bitsOf block) 0)) := by
  have hwords : (wordsOf block).reverse.map UInt32.toBitVec =
      ((List.range 16).map (scheduled (blockAt (bitsOf block) 0))).reverse := by
    rw [List.map_reverse, map_wordsOf (n := 16) hlength]
    refine congrArg List.reverse (List.map_congr_left fun t ht => ?_)
    rw [scheduled, dif_pos (List.mem_range.1 ht), blockAt, Nat.mul_zero, Nat.zero_add]
  rw [schedule, List.map_reverse, map_extend (Nat.le_refl 16) hwords 64, List.reverse_reverse]

/-- One round. -/
theorem value_round (t : Nat) (w : UInt32) (h : Digest) :
    Digest.value ⟨rotate 5 h.a + mix t h.b h.c h.d + h.e + w, h.a, rotate 30 h.b, h.c, h.d⟩ =
      h.value.round t w.toBitVec := by
  rw [Digest.value, Value.round, Value.mk.injEq]
  refine ⟨?_, rfl, rfl, rfl, rfl⟩
  rw [UInt32.toBitVec_add, UInt32.toBitVec_add, UInt32.toBitVec_add, toBitVec_mix]
  show h.a.toBitVec.rotateLeft 5 + _ + h.e.toBitVec + w.toBitVec = h.a.toBitVec.rotateLeft 5 + _ +
    h.e.toBitVec + _ + w.toBitVec
  ac_rfl

/-- The rounds from number `t` on lead from the working variables after those before. -/
theorem value_rounds {ws : List UInt32} {v : Value} (hlength : ws.length = n)
    (hws : ws.map UInt32.toBitVec = (List.range' t n).map (scheduled words))
    (hvalue : h.value = v.working words t) : (rounds t ws h).value = v.working words (t + n) := by
  induction ws generalizing t n h with
  | nil =>
    subst hlength
    exact hvalue
  | cons w ws ih =>
    subst hlength
    rw [List.length_cons, List.range'_succ, List.map_cons, List.map_cons] at hws
    obtain ⟨hw, hws⟩ := List.cons.inj hws
    rw [rounds, ih rfl hws, List.length_cons, Nat.add_assoc, Nat.add_comm 1]
    rw [value_round, hvalue, hw]
    rfl

/-- A block leads to the next hash value. -/
theorem value_absorb (hlength : block.length = 64) (h : Digest) :
    (h.absorb block).value = h.value.next (blockAt (bitsOf block) 0) := by
  have hschedule := map_schedule hlength
  have hrounds : (rounds 0 (schedule block) h).value =
      h.value.working (blockAt (bitsOf block) 0) 80 := by
    refine value_rounds (n := 80) ?_ ?_ rfl
    · rw [← List.length_map UInt32.toBitVec, hschedule, List.length_map, List.length_range]
    · rw [hschedule, List.range_eq_range']
  rw [Value.next, ← hrounds]
  show Value.mk _ _ _ _ _ = Value.mk _ _ _ _ _
  simp only [BitVec.add_comm]
  rfl

/-! ## Messages -/

theorem blocks_succ (n : Nat) (bytes : List UInt8) :
    blocks (n + 1) bytes = blocks n bytes ++ [(bytes.drop (64 * n)).take 64] := by
  induction n generalizing bytes with
  | zero => rfl
  | succ n ih =>
    rw [blocks, ih, blocks, List.drop_drop, List.cons_append, Nat.mul_succ, Nat.add_comm 64]

/-- A block has the same words alone as in its place. -/
theorem blockAt_bitsOf (bytes : List UInt8) (i : Nat) :
    blockAt (bitsOf ((bytes.drop (64 * i)).take 64)) 0 = blockAt (bitsOf bytes) i := by
  funext t
  rw [blockAt, blockAt, wordAt_bitsOf, wordAt_bitsOf, List.drop_take, List.drop_drop,
    List.take_take]
  congr 5 <;> omega

/-- The hash value after the first blocks of a padded message. -/
theorem value_foldl_blocks (hlong : 64 * n ≤ bytes.length) :
    ((blocks n bytes).foldl Digest.absorb .start).value =
      Standard.valueAfter (bitsOf bytes) n := by
  induction n with
  | zero => rfl
  | succ n ih =>
    have hlength : ((bytes.drop (64 * n)).take 64).length = 64 := by
      rw [List.length_take, List.length_drop]
      omega
    rw [blocks_succ, List.foldl_append, List.foldl_cons, List.foldl_nil, value_absorb hlength,
      ih (by omega), Standard.valueAfter, blockAt_bitsOf]

/-- The padding has the bits that the standard says. -/
theorem bitsOf_append_padding (message : List UInt8) :
    bitsOf (message ++ padding message.length) = Standard.pad (bitsOf message) := by
  have hone : bits 8 (0x80 : UInt8).toNat = true :: List.replicate 7 false := by decide
  have hzeros : 7 + 8 * ((119 - message.length % 64) % 64) =
      Standard.zeros (8 * message.length) := by
    rw [Standard.zeros]
    omega
  rw [padding, bitsOf_append, bitsOf_append, bitsOf_cons, bitsOf_replicate_zero, bitsOf_bigEndian,
    hone, List.cons_append, List.replicate_append_replicate, hzeros, Standard.pad, length_bitsOf,
    Nat.mul_comm message.length]

/-- **The digest of the standard.** -/
theorem bits_value_ofMessage (message : List UInt8) :
    (ofMessage message).value.bits = Standard.digest (bitsOf message) := by
  have hblocks : 8 * (message ++ padding message.length).length / 512 =
      (message ++ padding message.length).length / 64 := by omega
  rw [Standard.digest, ← bitsOf_append_padding, length_bitsOf, hblocks,
    ← value_foldl_blocks (Nat.mul_div_le _ 64)]
  rfl

/-! ## Hexadecimal digits -/

theorem hexDigits_append {xs : List Bool} (hxs : xs.length = 4 * n) (ys : List Bool) :
    Standard.hexDigits (xs ++ ys) = Standard.hexDigits xs ++ Standard.hexDigits ys := by
  induction n generalizing xs with
  | zero =>
    rw [List.length_eq_zero_iff.1 hxs]
    rfl
  | succ n ih =>
    match xs, hxs with
    | a :: b :: c :: d :: rest, hxs =>
      have hrest : rest.length = 4 * n := by
        simp only [List.length_cons] at hxs
        omega
      exact congrArg ((number [a, b, c, d]).digitChar :: ·) (ih hrest)

/-- A byte has two hexadecimal digits. -/
theorem hexDigits_bitsOf (bytes : List UInt8) :
    Standard.hexDigits (bitsOf bytes) =
      bytes.flatMap fun byte => [(byte.toNat / 16).digitChar, (byte.toNat % 16).digitChar] := by
  induction bytes with
  | nil => rfl
  | cons byte bytes ih =>
    have hdigits : ∀ n < 256, Standard.hexDigits (bits 8 n) =
        [(n / 16).digitChar, (n % 16).digitChar] := by decide +kernel
    rw [bitsOf_cons, hexDigits_append (n := 2) (Standard.length_bits 8 _),
      hdigits _ byte.toNat_lt, ih, List.flatMap_cons]

/-- The text of a digest has a digit for every four bits of it. -/
theorem toHex_eq (h : Digest) : h.toHex = String.ofList (Standard.hexDigits h.value.bits) := by
  have hbits : h.value.bits =
      bitsOf ([h.a, h.b, h.c, h.d, h.e].flatMap fun w => bigEndian 4 w.toNat) := by
    simp only [List.flatMap_cons, List.flatMap_nil, List.append_nil, bitsOf_append,
      bitsOf_bigEndian]
    rfl
  rw [hbits, hexDigits_bitsOf, List.flatMap_assoc]
  rfl

/-- **The text of the digest of the standard.** -/
theorem toHex_ofMessage (message : List UInt8) :
    (ofMessage message).toHex =
      String.ofList (Standard.hexDigits (Standard.digest (bitsOf message))) := by
  rw [toHex_eq, bits_value_ofMessage]

example : (ofMessage [0x61, 0x62, 0x63]).toHex = "a9993e364706816aba3e25717850c26c9cd0d89d" := by
  decide +kernel

end ImagePipeline.Sha1
