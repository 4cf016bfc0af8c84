import ImagePipeline.Base64
import ImagePipeline.Text.Blank
import Mathlib.Data.Nat.Digits.Defs

/-!
# The written form of bytes

Some bytes in a row are the digits of one number to the base 256, and so are some letters to the
base 64.  The written form of the bytes has the letters of the same number, after as many zero bits
as fill the last letter, and then as much padding as fills the last group of four.

* `Spelling`: letters and padding that write some bytes, by that rule and apart from any way to
  compute them; `Spelling.chars` is the text.
* `Spelling.chars_eq`: all spellings of some bytes are one text, the one that `encode` gives.
* `decode_eq_some_iff`: no text is read but a spelling of what is read.
* `mem_encode`, `isBlank_of_mem_encode`: the characters of written forms.
-/

namespace ImagePipeline.Base64

open Nat (ofDigits)

/-- The letters in the order of their values. -/
def alphabet : String := "ABCDEFGHIJKLMNOPQRSTUVWXYZabcdefghijklmnopqrstuvwxyz0123456789+/"

/-- The letter with a value. -/
def letterAt (n : Nat) : Char := alphabet.toList.getD n '='

/-- The number with the given digits to a base, the most significant one in front. -/
def number (base : Nat) (digits : List Nat) : Nat := ofDigits base digits.reverse

/-- The number that bytes in a row make. -/
def bytesNumber (bytes : List UInt8) : Nat := number 256 (bytes.map UInt8.toNat)

/-- How some bytes are written: the letters make the number of the bytes with some zero bits after
it, fewer than a letter has, and the padding leads to the next multiple of four characters. -/
structure Spelling (bytes : List UInt8) where
  /-- The values of the letters. -/
  values : List Nat
  /-- The number of zero bits after the bytes. -/
  zeros : Nat
  /-- The number of characters after the letters. -/
  padding : Nat
  values_lt : ∀ v ∈ values, v < 64
  bits : 6 * values.length = 8 * bytes.length + zeros
  zeros_lt : zeros < 6
  number_eq : number 64 values = bytesNumber bytes * 2 ^ zeros
  whole : 4 ∣ values.length + padding
  padding_lt : padding < 4

/-- The text of a spelling. -/
def Spelling.chars {bytes : List UInt8} (s : Spelling bytes) : List Char :=
  s.values.map letterAt ++ List.replicate s.padding '='

variable {bytes : List UInt8} {c : Char} {cs : List Char} {n : Nat}

/-! ## Letters -/

theorem letterAt_eq : ∀ n < 64, letterAt n = letter n := by decide

theorem map_letterAt {values : List Nat} (h : ∀ v ∈ values, v < 64) :
    values.map letterAt = values.map letter :=
  List.map_congr_left fun v hv => letterAt_eq v (h v hv)

/-- Letters and values correspond. -/
theorem value?_eq_some_iff : value? c = some n ↔ n < 64 ∧ c = letter n := by
  constructor
  · intro h
    have hc : c = Char.ofNat c.toNat := (Char.ofNat_toNat c).symm
    unfold value? at h
    dsimp only at h
    split at h
    next hupper =>
      cases h
      refine ⟨by omega, ?_⟩
      rw [letter, if_pos (by omega), Nat.add_sub_cancel' hupper.1, ← hc]
    split at h
    next hlower =>
      cases h
      refine ⟨by omega, ?_⟩
      rw [letter, if_neg (by omega), if_pos (by omega),
        show 71 + (c.toNat - 71) = c.toNat by omega, ← hc]
    split at h
    next hdigit =>
      cases h
      refine ⟨by omega, ?_⟩
      rw [letter, if_neg (by omega), if_neg (by omega), if_pos (by omega), Nat.add_sub_cancel,
        ← hc]
    split at h
    next hplus =>
      cases h
      exact ⟨by decide, hplus⟩
    split at h
    next hslash =>
      cases h
      exact ⟨by decide, hslash⟩
    next => cases h
  · rintro ⟨hn, rfl⟩
    exact value?_letter n hn

/-! ## Numbers -/

theorem number_append (base : Nat) (a b : List Nat) :
    number base (a ++ b) = number base a * base ^ b.length + number base b := by
  rw [number, List.reverse_append, Nat.ofDigits_append, List.length_reverse, Nat.add_comm,
    Nat.mul_comm]
  rfl

theorem bytesNumber_append (a b : List UInt8) :
    bytesNumber (a ++ b) = bytesNumber a * 256 ^ b.length + bytesNumber b := by
  rw [bytesNumber, List.map_append, number_append, List.length_map]
  rfl

/-- A number is moved by letters as it is moved by the bytes and zero bits that they stand for. -/
theorem Spelling.pow_length (s : Spelling bytes) :
    64 ^ s.values.length = 256 ^ bytes.length * 2 ^ s.zeros := by
  rw [show 64 = 2 ^ 6 from rfl, show 256 = 2 ^ 8 from rfl, ← Nat.pow_mul, ← Nat.pow_mul,
    ← Nat.pow_add, s.bits]

/-- Four letters make the number that they are cut from. -/
theorem number_quantum (n : Nat) :
    number 64 [n / 262144, n / 4096 % 64, n / 64 % 64, n % 64] = n := by
  simp only [number, List.reverse_cons, List.reverse_nil, List.nil_append, List.cons_append,
    Nat.ofDigits_cons, Nat.ofDigits_nil]
  omega

/-! ## Spellings of bytes -/

namespace Spelling

/-- The spelling of no bytes. -/
def nil : Spelling [] where
  values := []
  zeros := 0
  padding := 0
  values_lt := List.forall_mem_nil _
  bits := rfl
  zeros_lt := by decide
  number_eq := rfl
  whole := by decide
  padding_lt := by decide

/-- The spelling of one byte. -/
def single (a : UInt8) : Spelling [a] where
  values := [a.toNat * 16 / 64, a.toNat * 16 % 64]
  zeros := 4
  padding := 2
  values_lt := by
    have ha := a.toNat_lt
    rw [List.forall_mem_cons, List.forall_mem_singleton]
    omega
  bits := rfl
  zeros_lt := by decide
  number_eq := by
    simp only [bytesNumber, number, List.map_cons, List.map_nil, List.reverse_cons,
      List.reverse_nil, List.nil_append, List.cons_append, Nat.ofDigits_cons, Nat.ofDigits_nil]
    omega
  whole := ⟨1, rfl⟩
  padding_lt := by decide

/-- The spelling of two bytes. -/
def pair (a b : UInt8) : Spelling [a, b] where
  values :=
    let n := (a.toNat * 256 + b.toNat) * 4
    [n / 4096, n / 64 % 64, n % 64]
  zeros := 2
  padding := 1
  values_lt := by
    have ha := a.toNat_lt
    have hb := b.toNat_lt
    rw [List.forall_mem_cons, List.forall_mem_cons, List.forall_mem_singleton]
    omega
  bits := rfl
  zeros_lt := by decide
  number_eq := by
    simp only [bytesNumber, number, List.map_cons, List.map_nil, List.reverse_cons,
      List.reverse_nil, List.nil_append, List.cons_append, Nat.ofDigits_cons, Nat.ofDigits_nil]
    omega
  whole := ⟨1, rfl⟩
  padding_lt := by decide

/-- The spelling of three bytes in front of others. -/
def cons (a b c : UInt8) (s : Spelling bytes) : Spelling (a :: b :: c :: bytes) :=
  let n := (a.toNat * 256 + b.toNat) * 256 + c.toNat
  { values := [n / 262144, n / 4096 % 64, n / 64 % 64, n % 64] ++ s.values
    zeros := s.zeros
    padding := s.padding
    values_lt := by
      have ha := a.toNat_lt
      have hb := b.toNat_lt
      have hc := c.toNat_lt
      refine List.forall_mem_append.2 ⟨?_, s.values_lt⟩
      rw [List.forall_mem_cons, List.forall_mem_cons, List.forall_mem_cons,
        List.forall_mem_singleton]
      omega
    bits := by
      have hbits := s.bits
      simp only [List.length_append, List.length_cons, List.length_nil]
      omega
    zeros_lt := s.zeros_lt
    number_eq := by
      have hfront : bytesNumber [a, b, c] = n := by
        simp only [bytesNumber, number, List.map_cons, List.map_nil, List.reverse_cons,
          List.reverse_nil, List.nil_append, List.cons_append, Nat.ofDigits_cons, Nat.ofDigits_nil]
        omega
      have hbytes : bytesNumber (a :: b :: c :: bytes) =
          n * 256 ^ bytes.length + bytesNumber bytes := by
        rw [← hfront, ← bytesNumber_append]
        rfl
      rw [number_append, number_quantum, s.pow_length, s.number_eq, hbytes,
        Nat.add_mul (n * 256 ^ bytes.length), Nat.mul_assoc n]
    whole := by
      have hwhole := s.whole
      simp only [List.length_append, List.length_cons, List.length_nil]
      omega
    padding_lt := s.padding_lt }

/-- Bytes are spelled as they are encoded. -/
theorem exists_chars_eq_encode (bytes : List UInt8) :
    ∃ s : Spelling bytes, s.chars = encode bytes := by
  induction bytes using encode.induct with
  | case1 => exact ⟨nil, rfl⟩
  | case2 a =>
    refine ⟨single a, ?_⟩
    rw [chars, map_letterAt (single a).values_lt]
    rfl
  | case3 a b =>
    refine ⟨pair a b, ?_⟩
    rw [chars, map_letterAt (pair a b).values_lt]
    rfl
  | case4 a b c rest ih =>
    obtain ⟨s, hs⟩ := ih
    refine ⟨s.cons a b c, ?_⟩
    rw [chars, map_letterAt (s.cons a b c).values_lt]
    rw [chars, map_letterAt s.values_lt] at hs
    rw [encode, ← hs]
    rfl

/-- Some bytes have no two spellings: the lengths are settled by the number of bytes, and letters
equally many by the number they make. -/
theorem chars_unique (s s' : Spelling bytes) : s.chars = s'.chars := by
  have hbits := s.bits
  have hbits' := s'.bits
  have hlt := s.zeros_lt
  have hlt' := s'.zeros_lt
  have hlength : s.values.length = s'.values.length := by omega
  have hzeros : s.zeros = s'.zeros := by omega
  have hvalues : s.values = s'.values := by
    refine List.reverse_inj.1 (Nat.ofDigits_inj_of_len_eq (by decide : 1 < 64) ?_ ?_ ?_ ?_)
    · rw [List.length_reverse, List.length_reverse, hlength]
    · exact fun v hv => s.values_lt v (List.mem_reverse.1 hv)
    · exact fun v hv => s'.values_lt v (List.mem_reverse.1 hv)
    · exact s.number_eq.trans (hzeros ▸ s'.number_eq.symm)
  have hpadding : s.padding = s'.padding := by
    have hwhole := s.whole
    have hwhole' := s'.whole
    have hpad := s.padding_lt
    have hpad' := s'.padding_lt
    omega
  rw [chars, chars, hvalues, hpadding]

/-- All spellings of some bytes are one text. -/
theorem chars_eq (s : Spelling bytes) : s.chars = encode bytes := by
  obtain ⟨s', hs'⟩ := exists_chars_eq_encode bytes
  rw [s.chars_unique s', hs']

end Spelling

/-! ## Reading -/

/-- Two letters whose last four bits are zero write one byte. -/
theorem encode_single {x y : Nat} (hx : x < 64) (hy : y < 64) (hzero : (x * 64 + y) % 16 = 0) :
    encode [UInt8.ofNat ((x * 64 + y) / 16)] = [letter x, letter y, '=', '='] := by
  have hbyte : (UInt8.ofNat ((x * 64 + y) / 16)).toNat * 16 = x * 64 + y := by
    rw [UInt8.toNat_ofNat']
    omega
  have hfirst : (x * 64 + y) / 64 = x := by omega
  have hsecond : (x * 64 + y) % 64 = y := by omega
  simp only [encode, hbyte, hfirst, hsecond]

/-- Three letters whose last two bits are zero write two bytes. -/
theorem encode_pair {x y z : Nat} (hx : x < 64) (hy : y < 64) (hz : z < 64)
    (hzero : ((x * 64 + y) * 64 + z) % 4 = 0) :
    encode [UInt8.ofNat (((x * 64 + y) * 64 + z) / 1024),
      UInt8.ofNat (((x * 64 + y) * 64 + z) / 4 % 256)] = [letter x, letter y, letter z, '='] := by
  generalize hn : (x * 64 + y) * 64 + z = n at hzero
  have hbytes : ((UInt8.ofNat (n / 1024)).toNat * 256 + (UInt8.ofNat (n / 4 % 256)).toNat) * 4 =
      n := by
    rw [UInt8.toNat_ofNat', UInt8.toNat_ofNat']
    omega
  have hfirst : n / 4096 = x := by omega
  have hsecond : n / 64 % 64 = y := by omega
  have hthird : n % 64 = z := by omega
  simp only [encode, hbytes, hfirst, hsecond, hthird]

/-- Four letters write three bytes. -/
theorem encode_cons {x y z w : Nat} (hx : x < 64) (hy : y < 64) (hz : z < 64) (hw : w < 64)
    (bytes : List UInt8) :
    encode (UInt8.ofNat ((((x * 64 + y) * 64 + z) * 64 + w) / 65536) ::
      UInt8.ofNat ((((x * 64 + y) * 64 + z) * 64 + w) / 256 % 256) ::
        UInt8.ofNat ((((x * 64 + y) * 64 + z) * 64 + w) % 256) :: bytes) =
      letter x :: letter y :: letter z :: letter w :: encode bytes := by
  generalize hn : ((x * 64 + y) * 64 + z) * 64 + w = n
  have hbytes : ((UInt8.ofNat (n / 65536)).toNat * 256 + (UInt8.ofNat (n / 256 % 256)).toNat) * 256
      + (UInt8.ofNat (n % 256)).toNat = n := by
    rw [UInt8.toNat_ofNat', UInt8.toNat_ofNat', UInt8.toNat_ofNat']
    omega
  have hfirst : n / 262144 = x := by omega
  have hsecond : n / 4096 % 64 = y := by omega
  have hthird : n / 64 % 64 = z := by omega
  have hfourth : n % 64 = w := by omega
  simp only [encode, hbytes, hfirst, hsecond, hthird, hfourth]

/-- Only the written form of bytes is read as these bytes. -/
theorem encode_of_decode (h : decode cs = some bytes) : encode bytes = cs := by
  fun_induction decode cs generalizing bytes with
  | case1 =>
    cases h
    rfl
  | case2 a b =>
    simp only [Option.bind_eq_bind, Option.bind_eq_some_iff, value?_eq_some_iff] at h
    obtain ⟨x, ⟨hx, rfl⟩, y, ⟨hy, rfl⟩, h⟩ := h
    split at h
    next hzero =>
      cases h
      exact encode_single hx hy hzero
    next => cases h
  | case3 a b c =>
    simp only [Option.bind_eq_bind, Option.bind_eq_some_iff, value?_eq_some_iff] at h
    obtain ⟨x, ⟨hx, rfl⟩, y, ⟨hy, rfl⟩, z, ⟨hz, rfl⟩, h⟩ := h
    split at h
    next hzero =>
      cases h
      exact encode_pair hx hy hz hzero
    next => cases h
  | case4 a b c d rest _ _ ih =>
    simp only [Option.bind_eq_bind, Option.bind_eq_some_iff, value?_eq_some_iff] at h
    obtain ⟨x, ⟨hx, rfl⟩, y, ⟨hy, rfl⟩, z, ⟨hz, rfl⟩, w, ⟨hw, rfl⟩, bytes, hrest, h⟩ := h
    cases h
    rw [encode_cons hx hy hz hw, ih hrest]
  | case5 => cases h

/-- A text is read as some bytes exactly if it is a spelling of them. -/
theorem decode_eq_some_iff : decode cs = some bytes ↔ ∃ s : Spelling bytes, cs = s.chars := by
  constructor
  · intro h
    obtain ⟨s, hs⟩ := Spelling.exists_chars_eq_encode bytes
    exact ⟨s, (encode_of_decode h).symm.trans hs.symm⟩
  · rintro ⟨s, rfl⟩
    rw [s.chars_eq, decode_encode]

/-! ## The characters of written forms -/

/-- What is written of bytes are letters and padding. -/
theorem mem_encode (h : c ∈ encode bytes) : c = '=' ∨ ∃ n < 64, c = letter n := by
  obtain ⟨s, hs⟩ := Spelling.exists_chars_eq_encode bytes
  rw [← hs, Spelling.chars, map_letterAt s.values_lt] at h
  rcases List.mem_append.1 h with h | h
  · obtain ⟨v, hv, rfl⟩ := List.mem_map.1 h
    exact .inr ⟨v, s.values_lt v hv, rfl⟩
  · exact .inl (List.mem_replicate.1 h).2

theorem isBlank_of_mem_encode (h : c ∈ encode bytes) : Text.isBlank c = false := by
  have hletters : ∀ n < 64, Text.isBlank (letter n) = false := by decide
  rcases mem_encode h with rfl | ⟨n, hn, rfl⟩
  · decide
  · exact hletters n hn

end ImagePipeline.Base64
