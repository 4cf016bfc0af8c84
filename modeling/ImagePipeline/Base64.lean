/-!
# Base64

The standard alphabet with padding. Reading is strict: every quantum has four characters,
padding stands only at the end, and the bits that the padding leaves over are zero. So a byte
sequence has one written form.

* `decode_encode`: the written form of a byte sequence reads back.
-/

namespace ImagePipeline.Base64

/-- The character for a value below 64. -/
def letter (n : Nat) : Char :=
  if n < 26 then Char.ofNat (65 + n)
  else if n < 52 then Char.ofNat (71 + n)
  else if n < 62 then Char.ofNat (n - 4)
  else if n = 62 then '+'
  else '/'

/-- The value of a character of the alphabet. -/
def value? (c : Char) : Option Nat :=
  let n := c.toNat
  if 65 ≤ n ∧ n ≤ 90 then some (n - 65)
  else if 97 ≤ n ∧ n ≤ 122 then some (n - 71)
  else if 48 ≤ n ∧ n ≤ 57 then some (n + 4)
  else if c = '+' then some 62
  else if c = '/' then some 63
  else none

/-- Three bytes become four characters; a shorter rest is padded. -/
def encode : List UInt8 → List Char
  | [] => []
  | [a] =>
    let n := a.toNat * 16
    [letter (n / 64), letter (n % 64), '=', '=']
  | [a, b] =>
    let n := (a.toNat * 256 + b.toNat) * 4
    [letter (n / 4096), letter (n / 64 % 64), letter (n % 64), '=']
  | a :: b :: c :: rest =>
    let n := (a.toNat * 256 + b.toNat) * 256 + c.toNat
    letter (n / 262144) :: letter (n / 4096 % 64) :: letter (n / 64 % 64) :: letter (n % 64)
      :: encode rest

/-- The bytes that a padded text denotes. -/
def decode : List Char → Option (List UInt8)
  | [] => some []
  | [a, b, '=', '='] => do
    let n := (← value? a) * 64 + (← value? b)
    if n % 16 = 0 then some [UInt8.ofNat (n / 16)] else none
  | [a, b, c, '='] => do
    let n := ((← value? a) * 64 + (← value? b)) * 64 + (← value? c)
    if n % 4 = 0 then some [UInt8.ofNat (n / 1024), UInt8.ofNat (n / 4 % 256)] else none
  | a :: b :: c :: d :: rest => do
    let n := (((← value? a) * 64 + (← value? b)) * 64 + (← value? c)) * 64 + (← value? d)
    let bytes ← decode rest
    some (UInt8.ofNat (n / 65536) :: UInt8.ofNat (n / 256 % 256) :: UInt8.ofNat (n % 256)
      :: bytes)
  | _ => none

theorem value?_letter : ∀ n < 64, value? (letter n) = some n := by decide

theorem letter_ne_pad : ∀ n < 64, letter n ≠ '=' := by decide

theorem value?_pad : value? '=' = none := by decide

/-- The written form of bytes reads back. -/
theorem decode_encode (bytes : List UInt8) : decode (encode bytes) = some bytes := by
  induction bytes using encode.induct with
  | case1 => rfl
  | case2 a =>
    have ha := a.toNat_lt
    have h1 := value?_letter (a.toNat * 16 / 64) (by omega)
    have h2 := value?_letter (a.toNat * 16 % 64) (by omega)
    simp only [encode, decode, h1, h2, Option.bind_eq_bind, Option.bind_some]
    rw [if_pos (by omega)]
    have : (a.toNat * 16 / 64 * 64 + a.toNat * 16 % 64) / 16 = a.toNat := by omega
    simp [this]
  | case3 a b =>
    have ha := a.toNat_lt
    have hb := b.toNat_lt
    have hn : (a.toNat * 256 + b.toNat) * 4 < 262144 := by omega
    have hv : a.toNat * 256 + b.toNat < 65536 := by omega
    generalize hm : (a.toNat * 256 + b.toNat) * 4 = m at hn
    have h1 := value?_letter (m / 4096) (by omega)
    have h2 := value?_letter (m / 64 % 64) (by omega)
    have h3 := value?_letter (m % 64) (by omega)
    have hp := letter_ne_pad (m % 64) (by omega)
    simp only [encode, hm]
    rw [decode.eq_3 _ _ _ (by intro h; exact absurd h hp)]
    simp only [h1, h2, h3, Option.bind_eq_bind, Option.bind_some]
    have hr : (m / 4096 * 64 + m / 64 % 64) * 64 + m % 64 = m := by omega
    rw [hr, if_pos (by omega)]
    have e1 : m / 1024 = a.toNat := by omega
    have e2 : m / 4 % 256 = b.toNat := by omega
    simp [e1, e2]
  | case4 a b c rest ih =>
    have ha := a.toNat_lt
    have hb := b.toNat_lt
    have hc := c.toNat_lt
    rw [encode]
    generalize hm : (a.toNat * 256 + b.toNat) * 256 + c.toNat = n
    have e1 : n / 65536 = a.toNat := by omega
    have e2 : n / 256 % 256 = b.toNat := by omega
    have e3 : n % 256 = c.toNat := by omega
    have h1 := value?_letter (n / 262144) (by omega)
    have h2 := value?_letter (n / 4096 % 64) (by omega)
    have h3 := value?_letter (n / 64 % 64) (by omega)
    have h4 := value?_letter (n % 64) (by omega)
    have hp := letter_ne_pad (n % 64) (by omega)
    have hr : ((n / 262144 * 64 + n / 4096 % 64) * 64 + n / 64 % 64) * 64 + n % 64 = n := by
      omega
    rw [decode.eq_4 _ _ _ _ _ (by intro _ h; exact absurd h hp)
      (by intro h; exact absurd h hp)]
    simp only [h1, h2, h3, h4, ih, Option.bind_eq_bind, Option.bind_some, hr, e1, e2, e3]
    simp

end ImagePipeline.Base64
