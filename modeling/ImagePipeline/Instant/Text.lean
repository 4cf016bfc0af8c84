import ImagePipeline.Decimal.Numeral
import ImagePipeline.Instant.Basic
import ImagePipeline.Text.Blank

/-!
# Instants as text

The date and time format of RFC 3339. Reading takes any offset, either letter case, a space
between date and time, fractions of any length (what is beyond nanoseconds is dropped) and a
leap second at the end of any minute. Writing has one form for each instant: UTC with the offset
`+00:00`, and 0, 3, 6 or 9 digits of fraction, as few as are exact.

* `Instant.read?` reads, without blanks around the text.
* `Instant.text` writes.
-/

namespace ImagePipeline.Instant

open Decimal (digit? readDigits value natChars)

/-- A run of exactly `n` digits as a number, and what follows it. -/
def fixed? : Nat → List Char → Option (Nat × List Char)
  | n, cs => go n 0 cs
where
  /-- Reads `n` more digits behind a number. -/
  go : Nat → Nat → List Char → Option (Nat × List Char)
    | 0, acc, cs => some (acc, cs)
    | n + 1, acc, c :: cs => (digit? c).bind fun d => go n (acc * 10 + d) cs
    | _ + 1, _, [] => none

/-- What follows a given character. -/
def after? (c : Char) : List Char → Option (List Char)
  | d :: cs => if d = c then some cs else none
  | [] => none

/-- A date, and what follows it. -/
def date? (cs : List Char) : Option (Date × List Char) := do
  let (year, cs) ← fixed? 4 cs
  let (month, cs) ← fixed? 2 (← after? '-' cs)
  let (day, cs) ← fixed? 2 (← after? '-' cs)
  let date : Date := ⟨year, month, day⟩
  if date.exists then some (date, cs) else none

/-- The character between date and time. -/
def separator? : List Char → Option (List Char)
  | c :: cs => if c = 'T' ∨ c = 't' ∨ c = ' ' then some cs else none
  | [] => none

/-- A time of day, and what follows it. -/
def clock? (cs : List Char) : Option ((Nat × Nat × Nat) × List Char) := do
  let (hour, cs) ← fixed? 2 cs
  let (minute, cs) ← fixed? 2 (← after? ':' cs)
  let (second, cs) ← fixed? 2 (← after? ':' cs)
  if hour ≤ 23 ∧ minute ≤ 59 ∧ second ≤ 60 then some ((hour, minute, second), cs) else none

/-- The nanoseconds of the digits after the point. -/
def nanosOf (ds : List Nat) : Nat :=
  value (ds.take 9 ++ List.replicate (9 - ds.length) 0)

/-- A fraction of a second in nanoseconds, if there is a point, and what follows it. -/
def fraction? : List Char → Option (Nat × List Char)
  | '.' :: cs =>
    match readDigits cs with
    | ([], _) => none
    | (ds, rest) => some (nanosOf ds, rest)
  | cs => some (0, cs)

/-- The sign of an offset. -/
def sign? (c : Char) : Option Int :=
  if c = '+' then some 1
  else if c = '-' ∨ c = '\u2212' then some (-1)
  else none

/-- An offset from UTC in minutes, at the end of the text. -/
def offset? : List Char → Option Int
  | [] => none
  | c :: cs =>
    if c = 'Z' ∨ c = 'z' then
      if cs.isEmpty then some 0 else none
    else do
      let sign ← sign? c
      let (hour, cs) ← fixed? 2 cs
      let (minute, cs) ← fixed? 2 (← after? ':' cs)
      if cs.isEmpty ∧ hour ≤ 23 ∧ minute ≤ 59 then some (sign * (hour * 60 + minute : Nat))
      else none

/-- The instant of a text given as characters, with no blanks around it. -/
def ofChars? (cs : List Char) : Option Instant := do
  let (date, cs) ← date? cs
  let cs ← separator? cs
  let ((hour, minute, second), cs) ← clock? cs
  let (nano, cs) ← fraction? cs
  let offset ← offset? cs
  some (ofCivil date hour minute second nano offset)

/-- The instant of a text, blanks around it aside. -/
def read? (s : String) : Option Instant :=
  ofChars? (Text.trimChars s.toList)

/-- A number with zeros in front up to a width. -/
def padded (width n : Nat) : List Char :=
  let cs := natChars n
  List.replicate (width - cs.length) '0' ++ cs

/-- A year: four digits, and a sign with at least four when they do not hold it. -/
def yearChars (y : Int) : List Char :=
  if 0 ≤ y ∧ y ≤ 9999 then padded 4 y.toNat
  else (if y < 0 then '-' else '+') :: padded 4 y.natAbs

/-- The fraction of a second, as short as it is exact. -/
def fractionChars (nano : Nat) : List Char :=
  if nano = 0 then []
  else if nano % 1000000 = 0 then '.' :: padded 3 (nano / 1000000)
  else if nano % 1000 = 0 then '.' :: padded 6 (nano / 1000)
  else '.' :: padded 9 nano

/-- The characters of an instant in UTC. -/
def chars (t : Instant) : List Char :=
  let date := Date.ofDayNumber (t.second / 86400)
  let clock := (t.second % 86400).toNat
  let leap := billion ≤ t.nano
  let second := clock % 60 + if leap then 1 else 0
  let nano := if leap then t.nano - billion else t.nano
  yearChars date.year ++ '-' :: padded 2 date.month ++ '-' :: padded 2 date.day
    ++ 'T' :: padded 2 (clock / 3600) ++ ':' :: padded 2 (clock / 60 % 60)
    ++ ':' :: padded 2 second ++ fractionChars nano ++ "+00:00".toList

/-- The text of an instant in UTC. -/
def text (t : Instant) : String :=
  String.ofList t.chars

end ImagePipeline.Instant
