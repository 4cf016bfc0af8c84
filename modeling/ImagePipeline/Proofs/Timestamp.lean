import ImagePipeline.Proofs.CalendarDays
import ImagePipeline.Proofs.InstantNumerals
import ImagePipeline.Proofs.TrimmedText

/-!
# Timestamps

A timestamp is a date of the calendar, a time of day and an offset from UTC, as they are written.
It stands for a minute of UTC, a second of that minute and the nanoseconds of that second.  A minute
may have a leap second for its sixty-first, so the order of timestamps is that of the three numbers,
one after the other, and needs no knowledge of which minutes have one.

* `Timestamp`, with `Timestamp.chars` and `Timestamp.instant`: the written forms, their texts and
  what they stand for.
* `ofChars?_eq_some_iff`: the reader takes the texts of timestamps and no others.
* `Timestamp.instant_lt_iff`, `Timestamp.instant_eq_iff`: instants compare as those numbers do.
* `read?_timestamp`: reading commit dates, in one statement.
-/

namespace ImagePipeline.Instant

open Decimal

/-- An offset from UTC as it is written: a letter for none, or a sign with hours and minutes. -/
inductive Zone where
  | utc (letter : Char) (hletter : letter = 'Z' ∨ letter = 'z')
  | shifted (sign : Char) (hour minute : Nat) (hsign : sign = '+' ∨ sign = '-' ∨ sign = '\u2212')
      (hhour : hour ≤ 23) (hminute : minute ≤ 59)

namespace Zone

/-- The text of an offset. -/
def chars : Zone → List Char
  | utc letter _ => [letter]
  | shifted sign hour minute _ _ _ => sign :: (padded 2 hour ++ ':' :: padded 2 minute)

/-- The minutes that an offset is ahead of UTC. -/
def minutes : Zone → Int
  | utc _ _ => 0
  | shifted sign hour minute _ _ _ => (if sign = '+' then 1 else -1) * (60 * hour + minute)

end Zone

/-- A date and time as it is written. -/
structure Timestamp where
  year : Nat
  month : Nat
  day : Nat
  separator : Char
  hour : Nat
  minute : Nat
  /-- The second of the minute; the sixtieth is a leap second. -/
  second : Nat
  /-- The digits after the point; without any there is no point. -/
  fraction : List Nat
  zone : Zone
  year_lt : year < 10000
  exists_date : Date.exists ⟨year, month, day⟩ = true
  separator_eq : separator = 'T' ∨ separator = 't' ∨ separator = ' '
  hour_le : hour ≤ 23
  minute_le : minute ≤ 59
  second_le : second ≤ 60
  fraction_lt : ∀ d ∈ fraction, d < 10

namespace Timestamp

/-- The text of the fraction of a second. -/
def fractionText (ds : List Nat) : List Char :=
  if ds = [] then [] else '.' :: ds.map digitChar

/-- The text of a timestamp. -/
def chars (w : Timestamp) : List Char :=
  padded 4 w.year ++ '-' :: (padded 2 w.month ++ '-' :: (padded 2 w.day ++ w.separator ::
    (padded 2 w.hour ++ ':' :: (padded 2 w.minute ++ ':' :: (padded 2 w.second ++
      (fractionText w.fraction ++ w.zone.chars))))))

/-- The minute of UTC, counted from 1970-01-01T00:00Z. -/
def utcMinute (w : Timestamp) : Int :=
  1440 * Date.dayNumber ⟨w.year, w.month, w.day⟩ + 60 * w.hour + w.minute - w.zone.minutes

/-- The nanoseconds of the second, whole ones. -/
def nanos (w : Timestamp) : Nat :=
  value w.fraction * 10 ^ 9 / 10 ^ w.fraction.length

/-- The instant of a timestamp: a leap second is kept in the second before it. -/
def instant (w : Timestamp) : Instant :=
  if w.second = 60 then ⟨60 * w.utcMinute + 59, billion + w.nanos⟩
  else ⟨60 * w.utcMinute + w.second, w.nanos⟩

/-- An earlier minute, or an earlier second of one minute, or earlier in one second. -/
def Before (w w' : Timestamp) : Prop :=
  w.utcMinute < w'.utcMinute ∨ (w.utcMinute = w'.utcMinute ∧
    (w.second < w'.second ∨ (w.second = w'.second ∧ w.nanos < w'.nanos)))

variable {w w' : Timestamp}

theorem nanos_eq (w : Timestamp) : nanosOf w.fraction = w.nanos := nanosOf_eq w.fraction_lt

theorem nanos_lt (w : Timestamp) : w.nanos < billion := nanos_eq w ▸ nanosOf_lt w.fraction_lt

/-- The order of instants is that of minutes, seconds and nanoseconds. -/
theorem instant_lt_iff : w.instant < w'.instant ↔ w.Before w' := by
  have hnanos := w.nanos_lt
  have hnanos' := w'.nanos_lt
  have hsecond := w.second_le
  have hsecond' := w'.second_le
  simp only [lt_iff, Before, instant]
  split <;> split <;> dsimp only <;> omega

/-- Timestamps stand for one instant if minute, second and nanoseconds are the same. -/
theorem instant_eq_iff : w.instant = w'.instant ↔
    w.utcMinute = w'.utcMinute ∧ w.second = w'.second ∧ w.nanos = w'.nanos := by
  have hnanos := w.nanos_lt
  have hnanos' := w'.nanos_lt
  have hsecond := w.second_le
  have hsecond' := w'.second_le
  simp only [instant]
  split <;> split <;> rw [Instant.mk.injEq] <;> omega

end Timestamp

/-! ## The reader -/

variable {k n : Nat} {c : Char} {cs rest : List Char}

theorem after?_eq_some_iff : after? c cs = some rest ↔ cs = c :: rest := by
  cases cs with
  | nil => simp [after?]
  | cons d cs =>
    simp only [after?, Option.ite_none_right_eq_some, Option.some.injEq, List.cons.injEq]

theorem separator?_eq_some_iff : separator? cs = some rest ↔
    ∃ c, (c = 'T' ∨ c = 't' ∨ c = ' ') ∧ cs = c :: rest := by
  cases cs with
  | nil => simp [separator?]
  | cons d cs =>
    simp only [separator?, Option.ite_none_right_eq_some, Option.some.injEq, List.cons.injEq]
    constructor
    · rintro ⟨hd, rfl⟩
      exact ⟨d, hd, rfl, rfl⟩
    · rintro ⟨c, hc, rfl, rfl⟩
      exact ⟨hc, rfl⟩

theorem date?_eq_some_iff {d : Date} : date? cs = some (d, rest) ↔
    ∃ year month day : Nat, year < 10000 ∧ d = ⟨year, month, day⟩ ∧ d.exists = true ∧
      cs = padded 4 year ++ '-' :: (padded 2 month ++ '-' :: (padded 2 day ++ rest)) := by
  simp only [date?, Option.bind_eq_bind, Option.bind_eq_some_iff, Prod.exists,
    fixed?_eq_some_iff (show 1 ≤ 4 by decide), fixed?_eq_some_iff (show 1 ≤ 2 by decide),
    after?_eq_some_iff, Option.ite_none_right_eq_some, Option.some.injEq, Prod.mk.injEq]
  constructor
  · rintro ⟨year, _, ⟨hyear, rfl⟩, _, rfl, month, _, ⟨-, rfl⟩, _, rfl, day, _, ⟨-, rfl⟩, hexists,
      rfl, rfl⟩
    exact ⟨year, month, day, hyear, rfl, hexists, rfl⟩
  · rintro ⟨year, month, day, hyear, rfl, hexists, rfl⟩
    obtain ⟨-, hmonth, -, hday⟩ := Date.exists_iff.1 hexists
    have hday' := hday.trans (monthLength_le hmonth)
    dsimp only at hmonth hday'
    exact ⟨year, _, ⟨hyear, rfl⟩, _, rfl, month, _, ⟨by omega, rfl⟩, _, rfl, day, _,
      ⟨by omega, rfl⟩, hexists, rfl, rfl⟩

theorem clock?_eq_some_iff {hour minute second : Nat} :
    clock? cs = some ((hour, minute, second), rest) ↔
      (hour ≤ 23 ∧ minute ≤ 59 ∧ second ≤ 60) ∧
        cs = padded 2 hour ++ ':' :: (padded 2 minute ++ ':' :: (padded 2 second ++ rest)) := by
  simp only [clock?, Option.bind_eq_bind, Option.bind_eq_some_iff, Prod.exists,
    fixed?_eq_some_iff (show 1 ≤ 2 by decide), after?_eq_some_iff, Option.ite_none_right_eq_some,
    Option.some.injEq, Prod.mk.injEq]
  constructor
  · rintro ⟨_, _, ⟨-, rfl⟩, _, rfl, _, _, ⟨-, rfl⟩, _, rfl, _, _, ⟨-, rfl⟩, hbounds,
      ⟨rfl, rfl, rfl⟩, rfl⟩
    exact ⟨hbounds, rfl⟩
  · rintro ⟨hbounds, rfl⟩
    exact ⟨hour, _, ⟨by omega, rfl⟩, _, rfl, minute, _, ⟨by omega, rfl⟩, _, rfl, second, _,
      ⟨by omega, rfl⟩, hbounds, ⟨rfl, rfl, rfl⟩, rfl⟩

theorem sign?_eq_some_iff {sign : Int} : sign? c = some sign ↔
    (c = '+' ∨ c = '-' ∨ c = '\u2212') ∧ sign = if c = '+' then 1 else -1 := by
  unfold sign?
  by_cases hplus : c = '+'
  · simp [hplus, eq_comm]
  · simp [hplus, eq_comm]

theorem offset?_eq_some_iff {offset : Int} :
    offset? cs = some offset ↔ ∃ zone : Zone, cs = zone.chars ∧ offset = zone.minutes := by
  cases cs with
  | nil =>
    refine ⟨nofun, ?_⟩
    rintro ⟨_ | _, hchars, -⟩ <;> cases hchars
  | cons c cs =>
    rw [offset?]
    split
    next hletter =>
      simp only [List.isEmpty_iff, Option.ite_none_right_eq_some, Option.some.injEq]
      constructor
      · rintro ⟨rfl, rfl⟩
        exact ⟨.utc c hletter, rfl, rfl⟩
      · rintro ⟨_ | ⟨sign, _, _, hsign, _, _⟩, hchars, rfl⟩
        · obtain ⟨rfl, rfl⟩ := List.cons.inj hchars
          exact ⟨rfl, rfl⟩
        · obtain ⟨rfl, -⟩ := List.cons.inj hchars
          rcases hletter with rfl | rfl <;> simp at hsign
    next hletter =>
      simp only [Option.bind_eq_bind, Option.bind_eq_some_iff, Prod.exists, sign?_eq_some_iff,
        fixed?_eq_some_iff (show 1 ≤ 2 by decide), after?_eq_some_iff, List.isEmpty_iff,
        Option.ite_none_right_eq_some, Option.some.injEq]
      constructor
      · rintro ⟨_, ⟨hsign, rfl⟩, hour, _, ⟨-, rfl⟩, _, rfl, minute, _, ⟨-, rfl⟩,
          ⟨rfl, hhour, hminute⟩, rfl⟩
        refine ⟨.shifted c hour minute hsign hhour hminute, by simp [Zone.chars], ?_⟩
        simp only [Zone.minutes]
        push_cast
        ring
      · rintro ⟨⟨_, hletter'⟩ | ⟨sign, hour, minute, hsign, hhour, hminute⟩, hchars, rfl⟩
        · obtain ⟨rfl, -⟩ := List.cons.inj hchars
          exact absurd hletter' hletter
        · obtain ⟨rfl, rfl⟩ := List.cons.inj hchars
          refine ⟨_, ⟨hsign, rfl⟩, hour, _, ⟨by omega, rfl⟩, _, rfl, minute, [],
            ⟨by omega, by simp⟩, ⟨rfl, hhour, hminute⟩, ?_⟩
          simp only [Zone.minutes]
          push_cast
          ring

/-- A fraction is read up to its last digit. -/
theorem fraction?_eq_some_iff : fraction? cs = some (n, rest) ↔
    ∃ ds : List Nat, (∀ d ∈ ds, d < 10) ∧ n = nanosOf ds ∧ cs = Timestamp.fractionText ds ++ rest ∧
      if ds = [] then rest.head? ≠ some '.' else NoDigit rest := by
  have hnone : nanosOf [] = 0 := by decide
  by_cases hpoint : ∃ digits, cs = '.' :: digits
  · obtain ⟨cs, rfl⟩ := hpoint
    rcases hrun : readDigits cs with ⟨ds, rest'⟩
    obtain ⟨hds, hcs, hrest⟩ := readDigits_eq_iff.1 hrun
    constructor
    · intro h
      simp only [fraction?, hrun] at h
      split at h
      next => cases h
      next hne heq =>
        cases heq
        cases h
        have hne : ds ≠ [] := hne
        refine ⟨ds, hds, rfl, ?_, by rwa [if_neg hne]⟩
        rw [Timestamp.fractionText, if_neg hne, hcs, List.cons_append]
    · rintro ⟨ds', hds', rfl, hcs', hend⟩
      by_cases hne : ds' = []
      · subst hne
        obtain rfl : '.' :: cs = rest := by simpa [Timestamp.fractionText] using hcs'
        simp at hend
      · rw [if_neg hne] at hend
        have hcs' : cs = ds'.map digitChar ++ rest := by
          simpa [Timestamp.fractionText, hne] using hcs'
        simp only [fraction?, hcs', readDigits_append hds' hend]
  · have hread : fraction? cs = some (0, cs) := by
      unfold fraction?
      split
      next cs => exact absurd ⟨cs, rfl⟩ hpoint
      next => rfl
    rw [hread]
    constructor
    · rintro ⟨⟩
      refine ⟨[], by simp, hnone.symm, by simp [Timestamp.fractionText], ?_⟩
      rw [if_pos rfl]
      intro hhead
      obtain ⟨digits, hcs⟩ := List.head?_eq_some_iff.1 hhead
      exact hpoint ⟨digits, hcs⟩
    · rintro ⟨ds, -, rfl, hcs, -⟩
      by_cases hne : ds = []
      · subst hne
        simp [hcs, hnone, Timestamp.fractionText]
      · exact absurd ⟨_, by rw [hcs, Timestamp.fractionText, if_neg hne, List.cons_append]⟩ hpoint

namespace Zone

/-- An offset begins with a letter or a sign, so a fraction ends before it. -/
theorem noDigit_chars (zone : Zone) : NoDigit zone.chars := by
  cases zone with
  | utc letter hletter => rcases hletter with rfl | rfl <;> exact noDigit_cons (by decide)
  | shifted sign hour minute hsign hhour hminute =>
    rcases hsign with rfl | rfl | rfl <;> exact noDigit_cons (by decide)

theorem head?_chars_ne (zone : Zone) : zone.chars.head? ≠ some '.' := by
  cases zone with
  | utc letter hletter => rcases hletter with rfl | rfl <;> simp [chars]
  | shifted sign hour minute hsign hhour hminute =>
    rcases hsign with rfl | rfl | rfl <;> simp [chars]

end Zone

/-- A fraction of a second is read where an offset follows it. -/
theorem fraction?_append (ds : List Nat) (hds : ∀ d ∈ ds, d < 10) (zone : Zone) :
    fraction? (Timestamp.fractionText ds ++ zone.chars) = some (nanosOf ds, zone.chars) := by
  refine fraction?_eq_some_iff.2 ⟨ds, hds, rfl, rfl, ?_⟩
  split
  · exact zone.head?_chars_ne
  · exact zone.noDigit_chars

namespace Timestamp

theorem ofCivil_eq_instant (w : Timestamp) :
    ofCivil ⟨w.year, w.month, w.day⟩ w.hour w.minute w.second (nanosOf w.fraction) w.zone.minutes =
      w.instant := by
  rw [nanos_eq, ofCivil, instant, utcMinute]
  split <;> rw [Instant.mk.injEq] <;> exact ⟨by omega, rfl⟩

end Timestamp

/-- The texts of timestamps are read, each as its instant, and no others. -/
theorem ofChars?_eq_some_iff {t : Instant} :
    ofChars? cs = some t ↔ ∃ w : Timestamp, cs = w.chars ∧ t = w.instant := by
  simp only [ofChars?, Option.bind_eq_bind, Option.bind_eq_some_iff, Prod.exists,
    date?_eq_some_iff, separator?_eq_some_iff, clock?_eq_some_iff, offset?_eq_some_iff,
    Option.some.injEq]
  constructor
  · rintro ⟨_, _, ⟨year, month, day, hyear, rfl, hexists, rfl⟩, _, ⟨separator, hseparator, rfl⟩,
      hour, minute, second, _, ⟨⟨hhour, hminute, hsecond⟩, rfl⟩, _, _, hfraction, _,
      ⟨zone, rfl, rfl⟩, rfl⟩
    obtain ⟨ds, hds, rfl, rfl, -⟩ := fraction?_eq_some_iff.1 hfraction
    let w : Timestamp := ⟨year, month, day, separator, hour, minute, second, ds, zone, hyear,
      hexists, hseparator, hhour, hminute, hsecond, hds⟩
    exact ⟨w, rfl, w.ofCivil_eq_instant⟩
  · rintro ⟨w, rfl, rfl⟩
    exact ⟨_, _, ⟨w.year, w.month, w.day, w.year_lt, rfl, w.exists_date, rfl⟩, _,
      ⟨w.separator, w.separator_eq, rfl⟩, w.hour, w.minute, w.second, _,
      ⟨⟨w.hour_le, w.minute_le, w.second_le⟩, rfl⟩, _, _,
      fraction?_append w.fraction w.fraction_lt w.zone, _, ⟨w.zone, rfl, rfl⟩, w.ofCivil_eq_instant⟩

/-! ## Blanks around a timestamp -/

theorem isBlank_of_mem_padded (h : c ∈ padded k n) : Text.isBlank c = false := by
  have hdigits : ∀ d < 10, Text.isBlank (digitChar d) = false := by decide
  obtain ⟨d, hd, rfl⟩ := exists_of_mem_padded h
  exact hdigits d hd

/-- An offset ends in a letter or a digit. -/
theorem Zone.exists_last (zone : Zone) :
    ∃ front c, zone.chars = front ++ [c] ∧ Text.isBlank c = false := by
  cases zone with
  | utc letter hletter => exact ⟨[], letter, rfl, by rcases hletter with rfl | rfl <;> decide⟩
  | shifted sign hour minute =>
    obtain ⟨front, c, hc⟩ := (List.eq_nil_or_concat (padded 2 minute)).resolve_left
      (padded_ne_nil _ _)
    rw [List.concat_eq_append] at hc
    exact ⟨sign :: (padded 2 hour ++ ':' :: front), c, by simp [chars, hc],
      isBlank_of_mem_padded (hc ▸ List.mem_append_right _ List.mem_cons_self)⟩

namespace Timestamp

theorem chars_ne_nil (w : Timestamp) : w.chars ≠ [] :=
  List.append_ne_nil_of_left_ne_nil (padded_ne_nil _ _) _

theorem noBlankHead_chars (w : Timestamp) : Text.NoBlankHead w.chars := by
  intro c hc
  rw [chars, List.head?_append_of_ne_nil _ (padded_ne_nil _ _)] at hc
  exact isBlank_of_mem_padded (List.mem_of_mem_head? hc)

theorem exists_append_zone (w : Timestamp) : ∃ before, w.chars = before ++ w.zone.chars :=
  ⟨_, by simp only [chars, ← List.cons_append, ← List.append_assoc]; rfl⟩

theorem noBlankHead_reverse_chars (w : Timestamp) : Text.NoBlankHead w.chars.reverse := by
  obtain ⟨front, c, hzone, hc⟩ := w.zone.exists_last
  obtain ⟨before, hchars⟩ := w.exists_append_zone
  intro c' hc'
  rw [hchars, hzone, ← List.append_assoc, List.reverse_append, List.reverse_singleton,
    List.singleton_append, List.head?_cons, Option.mem_some_iff] at hc'
  rwa [← hc']

end Timestamp

/-- The texts of timestamps are read with blanks around them. -/
theorem read?_eq_some_iff {s : String} {t : Instant} : read? s = some t ↔
    ∃ (front back : List Char) (w : Timestamp), (∀ c ∈ front ++ back, Text.isBlank c = true) ∧
      s.toList = front ++ (w.chars ++ back) ∧ t = w.instant := by
  rw [read?, ofChars?_eq_some_iff]
  constructor
  · rintro ⟨w, hchars, rfl⟩
    obtain ⟨front, back, hblank, hs⟩ := Text.exists_blank_ends s.toList
    exact ⟨front, back, w, hblank, hchars ▸ hs, rfl⟩
  · rintro ⟨front, back, w, hblank, hs, rfl⟩
    refine ⟨w, ?_, rfl⟩
    rw [hs, Text.trimChars_append hblank w.noBlankHead_chars w.noBlankHead_reverse_chars
      w.chars_ne_nil]

/-- **Reading commit dates.**  The texts that are read are those of timestamps with blanks around
them, and what is read is the instant of the timestamp, whatever offset it is written with.
Instants are ordered by the minute of UTC, the second and the nanoseconds of the timestamps, so a
leap second is after the fifty-ninth second of any minute and before the next minute.  The minutes
are those of the calendar: its days are counted from 1970-01-01, one by one. -/
theorem read?_timestamp :
    (∀ (s : String) (t : Instant), read? s = some t ↔
      ∃ (front back : List Char) (w : Timestamp),
        (∀ c ∈ front ++ back, Text.isBlank c = true) ∧
          s.toList = front ++ (w.chars ++ back) ∧ t = w.instant) ∧
    (∀ w w' : Timestamp,
      (w.instant < w'.instant ↔ w.Before w') ∧
        (w.instant = w'.instant ↔
          w.utcMinute = w'.utcMinute ∧ w.second = w'.second ∧ w.nanos = w'.nanos)) ∧
    (Date.dayNumber ⟨1970, 1, 1⟩ = 0 ∧ ∀ d : Date, d.exists = true →
      d.next.exists = true ∧ d.next.dayNumber = d.dayNumber + 1) :=
  ⟨fun _ _ => read?_eq_some_iff,
    fun _ _ => ⟨Timestamp.instant_lt_iff, Timestamp.instant_eq_iff⟩,
    Date.dayNumber_epoch, fun _ h => ⟨Date.exists_next h, Date.dayNumber_next h⟩⟩

/-- The last second of a year of UTC that is a leap second, written five hours behind. -/
theorem read?_timestamp_leapSecond :
    read? " 2016-12-31t18:59:60.5-05:00\n" = some ⟨1483228799, 1500000000⟩ ∧
      Date.dayNumber ⟨2016, 3, 1⟩ = Date.dayNumber ⟨2016, 2, 29⟩ + 1 := by
  let w : Timestamp :=
    { year := 2016, month := 12, day := 31, separator := 't', hour := 18, minute := 59
      second := 60, fraction := [5], zone := .shifted '-' 5 0 (by decide) (by decide) (by decide)
      year_lt := by decide, exists_date := by decide, separator_eq := by decide
      hour_le := by decide, minute_le := by decide, second_le := by decide
      fraction_lt := by decide }
  have hblank : ∀ c ∈ [' '] ++ ['\n'], Text.isBlank c = true := List.all_eq_true.1 rfl
  refine ⟨(read?_timestamp.1 _ _).2 ⟨[' '], ['\n'], w, hblank, ?_, by decide +kernel⟩,
    (read?_timestamp.2.2.2 ⟨2016, 2, 29⟩ (by decide)).2⟩
  decide +kernel

end ImagePipeline.Instant
