import ImagePipeline.Decimal.Numeral

/-!
# Numerals as doubles, and doubles as numerals

Reading keeps as many leading digits as fit in 64 bits and scales them by one power of ten, so
the last bit may differ from the nearest double. Writing uses the fewest digits that read back
as the same double and, among those, the nearest.

* `Numeral.toDouble?` reads; a numeral beyond the doubles has no value.
* `shortest` yields the digits and the decimal exponent of a positive double.
* `doubleText` lays them out: positional from `1e-5` below `1e16`, always with a point; with a
  signed exponent elsewhere.
-/

namespace ImagePipeline.Decimal

/-- The longest run of leading digits that fits in 64 bits, as a number, and the number of
digits left over. -/
def leading (acc : Nat) : List Nat → Nat × Nat
  | [] => (acc, 0)
  | d :: ds =>
    if acc * 10 + d < UInt64.size then leading (acc * 10 + d) ds else (acc, ds.length + 1)

/-- The double nearest to a power of ten. -/
def power (k : Nat) : Float :=
  Float.ofScientific 1 false k

/-- Scales a double by a power of ten in steps of at most `1e308`; none when it leaves the
doubles. The first argument bounds the number of steps. -/
def scale : Nat → Float → Int → Option Float
  | 0, f, _ => some f
  | steps + 1, f, k =>
    if k.natAbs ≤ 308 then
      if 0 ≤ k then
        let scaled := f * power k.natAbs
        if scaled.isInf then none else some scaled
      else some (f / power k.natAbs)
    else if f == 0 then some f
    else if 0 ≤ k then none
    else scale steps (f / power 308) (k + 308)

/-- The double of a numeral. -/
def Numeral.toDouble? (n : Numeral) : Option Float := do
  let exponent := n.exponent.getD 0
  let (whole, wholeLeft) := leading 0 n.whole
  let (significand, fractionLeft) := leading whole n.fraction
  let places : Int := (wholeLeft : Int) - (n.fraction.length - fractionLeft : Nat)
  if exponent.natAbs ≥ 0x80000000 then
    if significand ≠ 0 && 0 ≤ exponent then none
    else some (if n.negative then -0.0 else 0.0)
  else
    let magnitude ← scale 4 (Float.ofNat significand) (places + exponent)
    some (if n.negative then -magnitude else magnitude)

/-- A positive rational number. -/
structure Ratio where
  /-- The numerator. -/
  num : Nat
  /-- The denominator. -/
  den : Nat

/-- The rational `n * base ^ k`. -/
def Ratio.scaled (n base : Nat) (k : Int) : Ratio :=
  if 0 ≤ k then ⟨n * Nat.pow base k.natAbs, 1⟩ else ⟨n, Nat.pow base k.natAbs⟩

/-- Comparison by cross multiplication. -/
def Ratio.le (a b : Ratio) : Bool :=
  a.num * b.den ≤ b.num * a.den

/-- Strict comparison by cross multiplication. -/
def Ratio.lt (a b : Ratio) : Bool :=
  a.num * b.den < b.num * a.den

/-- The distance of two rationals. -/
def Ratio.dist (a b : Ratio) : Ratio :=
  ⟨(a.num * b.den - b.num * a.den) + (b.num * a.den - a.num * b.den), a.den * b.den⟩

/-- The interval of the rationals that round to a positive finite double. -/
structure Rounding where
  /-- The double itself. -/
  centre : Ratio
  /-- The lower end. -/
  low : Ratio
  /-- The upper end. -/
  high : Ratio
  /-- Whether the ends round to the double too. -/
  closed : Bool

/-- The interval around the double `m * 2 ^ q`; below a power of two the gap is half as wide. -/
def Rounding.around (m : Nat) (q : Int) (narrow : Bool) : Rounding :=
  ⟨.scaled (4 * m) 2 (q - 2), .scaled (if narrow then 4 * m - 1 else 4 * m - 2) 2 (q - 2),
    .scaled (4 * m + 2) 2 (q - 2), m % 2 == 0⟩

/-- The interval of a positive finite double given by its bits. -/
def Rounding.ofBits (bits : Nat) : Rounding :=
  let unit := Nat.pow 2 52
  let biased : Nat := bits / unit % 2048
  let rest : Nat := bits % unit
  if biased = 0 then .around rest (-1074) false
  else .around (unit + rest) ((biased : Int) - 1075) (rest == 0 && 1 < biased)

/-- Whether a rational rounds to the double. -/
def Rounding.contains (r : Rounding) (x : Ratio) : Bool :=
  if r.closed then r.low.le x && x.le r.high else r.low.lt x && x.lt r.high

/-- The least `k` with `x < 10 ^ k`, found by counting up from the given start. -/
def decimalExponent (x : Ratio) : Nat → Int → Int
  | 0, k => k
  | n + 1, k => if x.lt (.scaled 1 10 k) then k else decimalExponent x n (k + 1)

/-- The nearer of the two neighbours of the centre on the grid of multiples of `10 ^ k`, if it
rounds to the double. -/
def Rounding.onGrid (r : Rounding) (k : Int) : Option Nat :=
  let grid (c : Nat) : Ratio := .scaled c 10 k
  let unit := grid 1
  let below := r.centre.num * unit.den / (r.centre.den * unit.num)
  let above := below + 1
  match r.contains (grid below) && 0 < below, r.contains (grid above) with
  | true, true =>
    let down := r.centre.dist (grid below)
    let up := (grid above).dist r.centre
    if down.lt up then some below
    else if up.lt down then some above
    else some (if below % 2 = 0 then below else above)
  | true, false => some below
  | false, true => some above
  | false, false => none

/-- Tries the grids for one digit, two digits and so on. -/
def Rounding.search (r : Rounding) (top : Int) : Nat → Nat → Nat × Int
  | 0, count => (r.centre.num / r.centre.den, top - count)
  | tries + 1, count =>
    match r.onGrid (top - count) with
    | some c => (c, top - count)
    | none => r.search top tries (count + 1)

/-- Drops the zeros that end a list of digits. -/
def stripZeros (ds : List Nat) : List Nat :=
  (ds.reverse.dropWhile (· == 0)).reverse

/-- The shortest digits of a positive finite double and the decimal exponent of the first. -/
def shortest (bits : Nat) : List Nat × Int :=
  let r := Rounding.ofBits bits
  let top := decimalExponent r.centre 700 (-330)
  let (c, k) := r.search top 17 1
  let ds := digits c
  (stripZeros ds, k + ds.length - 1)

/-- The digits with a point or an exponent in its place. -/
def layOut (ds : List Nat) (x : Int) : List Char :=
  let cs := ds.map digitChar
  if x < -5 || 15 < x then
    let tail := if cs.length ≤ 1 then [] else '.' :: cs.drop 1
    cs.take 1 ++ tail ++ 'e' :: (if x < 0 then '-' else '+') :: natChars x.natAbs
  else if x < 0 then
    '0' :: '.' :: List.replicate (x.natAbs - 1) '0' ++ cs
  else
    let before := x.natAbs + 1
    if cs.length ≤ before then
      cs ++ List.replicate (before - cs.length) '0' ++ ['.', '0']
    else cs.take before ++ '.' :: cs.drop before

/-- The text of a finite double. -/
def doubleText (f : Float) : String :=
  let bits := f.toBits.toNat
  let signBit := Nat.pow 2 63
  let sign := if bits / signBit = 1 then ['-'] else []
  let magnitude := bits % signBit
  let body :=
    if magnitude = 0 then ['0', '.', '0']
    else
      let (ds, x) := shortest magnitude
      layOut ds x
  String.ofList (sign ++ body)

end ImagePipeline.Decimal
