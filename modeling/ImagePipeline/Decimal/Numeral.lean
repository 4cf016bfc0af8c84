/-!
# Decimal numerals

A numeral as it is written: a sign, the digits before and after the point, and an exponent.
`000`, `1.50` and `1e3` are different numerals, whatever numbers they denote.

* `value` and `digits` go between a number and its decimal digits; `value_digits` says that
  the digits of a number denote it.
* `natural?` is the number of a numeral without point and exponent, below a limit.
-/

namespace ImagePipeline.Decimal

/-- The number that decimal digits denote, the most significant first. -/
def value (ds : List Nat) : Nat :=
  ds.foldl (fun n d => n * 10 + d) 0

@[simp] theorem value_nil : value [] = 0 := rfl

theorem value_append_singleton (ds : List Nat) (d : Nat) :
    value (ds ++ [d]) = value ds * 10 + d := by
  simp [value]

/-- The decimal digits of a number, the most significant first. -/
def digits (n : Nat) : List Nat :=
  if n < 10 then [n] else digits (n / 10) ++ [n % 10]

theorem value_digits (n : Nat) : value (digits n) = n := by
  induction n using digits.induct with
  | case1 n h => rw [digits, if_pos h]; simp [value]
  | case2 n h ih => rw [digits, if_neg h, value_append_singleton, ih]; omega

/-- The value of an ASCII digit. -/
def digit? (c : Char) : Option Nat :=
  if 48 ≤ c.toNat ∧ c.toNat ≤ 57 then some (c.toNat - 48) else none

/-- The ASCII digit of a value below ten. -/
def digitChar (d : Nat) : Char :=
  Char.ofNat (48 + d)

theorem digit?_digitChar : ∀ d < 10, digit? (digitChar d) = some d := by decide

/-- The run of ASCII digits that begins a text, as values, and what follows it. -/
def readDigits : List Char → List Nat × List Char
  | [] => ([], [])
  | c :: cs =>
    match digit? c with
    | some d => ((d :: (readDigits cs).1), (readDigits cs).2)
    | none => ([], c :: cs)

/-- The digits of a number as characters. -/
def natChars (n : Nat) : List Char :=
  (digits n).map digitChar

/-- The digits of a number as a text. -/
def natText (n : Nat) : String :=
  String.ofList (natChars n)

/-- A numeral as it is written. -/
structure Numeral where
  /-- Whether a minus sign stands in front. -/
  negative : Bool
  /-- The digits before the point. -/
  whole : List Nat
  /-- The digits after the point; without a point there are none. -/
  fraction : List Nat
  /-- The exponent, if one is written. -/
  exponent : Option Int
deriving DecidableEq, Repr

/-- The numeral of a natural number. -/
def Numeral.ofNat (n : Nat) : Numeral :=
  ⟨false, digits n, [], none⟩

/-- Whether a numeral has neither point nor exponent. -/
def Numeral.isWhole (n : Numeral) : Bool :=
  n.fraction.isEmpty && n.exponent.isNone

/-- The number of an unsigned whole numeral below a limit. -/
def Numeral.natural? (limit : Nat) (n : Numeral) : Option Nat :=
  if n.isWhole && !n.negative && value n.whole < limit then some (value n.whole) else none

theorem Numeral.natural?_ofNat {n limit : Nat} (h : n < limit) :
    (Numeral.ofNat n).natural? limit = some n := by
  simp [natural?, ofNat, isWhole, value_digits, h]

/-- The numeral as it is written, with `e` before the exponent. -/
def Numeral.chars (n : Numeral) : List Char :=
  (if n.negative then ['-'] else []) ++ n.whole.map digitChar
    ++ (if n.fraction.isEmpty then [] else '.' :: n.fraction.map digitChar)
    ++ match n.exponent with
      | none => []
      | some e => 'e' :: (if e < 0 then ['-'] else []) ++ natChars e.natAbs

end ImagePipeline.Decimal
