import ImagePipeline.Instant.Calendar

/-!
# Instants

A point in time with nanoseconds, counted from 1970-01-01T00:00:00Z without leap seconds. A leap
second is kept as a second billion of nanoseconds in the second before it, so it sorts after all
of that second and before the next one.

* `Instant.ofCivil` takes a civil time and its offset from UTC to an instant.
* `Instant.lt_iff`: the order is that of seconds, then nanoseconds.
-/

namespace ImagePipeline

/-- A point in time. -/
structure Instant where
  /-- Whole seconds since 1970-01-01T00:00:00Z, leap seconds not counted. -/
  second : Int
  /-- Nanoseconds into the second; from a billion on, into the leap second that follows it. -/
  nano : Nat
deriving DecidableEq, Repr

namespace Instant

/-- Nanoseconds in a second. -/
def billion : Nat := 1000000000

/-- Earlier and later. -/
instance : LT Instant where
  lt a b := a.second < b.second ∨ (a.second = b.second ∧ a.nano < b.nano)

theorem lt_iff {a b : Instant} :
    a < b ↔ a.second < b.second ∨ (a.second = b.second ∧ a.nano < b.nano) := Iff.rfl

instance (a b : Instant) : Decidable (a < b) :=
  inferInstanceAs (Decidable (a.second < b.second ∨ (a.second = b.second ∧ a.nano < b.nano)))

theorem lt_irrefl (a : Instant) : ¬ a < a := by
  simp [lt_iff]

theorem lt_trans {a b c : Instant} (hab : a < b) (hbc : b < c) : a < c := by
  simp only [lt_iff] at *
  omega

theorem lt_trichotomy (a b : Instant) : a < b ∨ a = b ∨ b < a := by
  cases a; cases b
  simp only [lt_iff, Instant.mk.injEq]
  omega

/-- The instant of a civil time: a date, a time of day, a fraction of a second and an offset
from UTC in minutes. Second 60 is the leap second after second 59. -/
def ofCivil (date : Date) (hour minute second nano : Nat) (offset : Int) : Instant :=
  let start := date.dayNumber * 86400 + ((hour * 3600 + minute * 60 : Nat) : Int) - offset * 60
  if second = 60 then ⟨start + 59, billion + nano⟩ else ⟨start + second, nano⟩

end Instant

end ImagePipeline
