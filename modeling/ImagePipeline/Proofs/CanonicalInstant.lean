import ImagePipeline.Proofs.Timestamp

/-!
# The canonical text of an instant

An instant is written as the timestamp of its date and time in UTC, with a fraction as short as it
is exact.  Reading that gives the instant back.  Beyond the years of four digits nothing reads the
text, but it still shows the instant, as the year then has a sign.

* `ofCivil_date`: an instant is put together again from the parts that are written.
* `chars_injective`: the text of an instant shows it, for any year.
* `exists_timestamp`: within the years of four digits the text is that of a timestamp.
* `text_faithful`: writing what was read, in one statement.
-/

namespace ImagePipeline.Instant

open Decimal

/-! ## Date and time of an instant -/

/-- The date in UTC. -/
def date (t : Instant) : Date := Date.ofDayNumber (t.second / 86400)

/-- The second of the day in UTC. -/
def clock (t : Instant) : Nat := (t.second % 86400).toNat

/-- The second of the minute in UTC; the sixtieth is a leap second. -/
def civilSecond (t : Instant) : Nat := t.clock % 60 + if billion ≤ t.nano then 1 else 0

/-- The nanoseconds of the second, or of the leap second. -/
def civilNanos (t : Instant) : Nat := if billion ≤ t.nano then t.nano - billion else t.nano

/-- An instant in a second, or in the leap second that ends a minute. -/
structure IsCivil (t : Instant) : Prop where
  nano_lt : t.nano < 2 * billion
  leap_second : billion ≤ t.nano → t.second % 60 = 59

variable {t t' : Instant}

theorem Timestamp.isCivil_instant (w : Timestamp) : w.instant.IsCivil := by
  have hnanos := w.nanos_lt
  unfold instant
  split <;> constructor <;> dsimp only <;> omega

theorem date_eq_iff {d : Date} :
    t.date = d ↔ d.exists = true ∧ d.dayNumber = t.second / 86400 :=
  Date.ofDayNumber_eq_iff

theorem clock_lt (t : Instant) : t.clock < 86400 := by
  unfold clock
  omega

theorem civilSecond_le (t : Instant) : t.civilSecond ≤ 60 := by
  unfold civilSecond
  split <;> omega

namespace IsCivil

theorem civilNanos_lt (h : t.IsCivil) : t.civilNanos < billion := by
  have hnano := h.nano_lt
  unfold civilNanos
  split <;> omega

/-- An instant is put together again from its parts in UTC. -/
theorem ofCivil_date (h : t.IsCivil) :
    ofCivil t.date (t.clock / 3600) (t.clock / 60 % 60) t.civilSecond t.civilNanos 0 = t := by
  have hday : t.date.dayNumber = t.second / 86400 := Date.dayNumber_ofDayNumber _
  have hclock : (t.clock : Int) = t.second % 86400 := by
    unfold clock
    omega
  have hleap := h.leap_second
  obtain ⟨second, nano⟩ := t
  unfold ofCivil civilSecond civilNanos
  dsimp only at hclock hday hleap ⊢
  rw [hday]
  split <;> split <;> rw [Instant.mk.injEq] <;> omega

end IsCivil

/-! ## The text of an instant -/

theorem chars_eq (t : Instant) : t.chars =
    yearChars t.date.year ++ '-' :: (padded 2 t.date.month ++ '-' :: (padded 2 t.date.day ++
      'T' :: (padded 2 (t.clock / 3600) ++ ':' :: (padded 2 (t.clock / 60 % 60) ++
        ':' :: (padded 2 t.civilSecond ++ (fractionChars t.civilNanos ++ "+00:00".toList)))))) := by
  simp only [chars, date, clock, civilSecond, civilNanos, List.append_assoc, List.cons_append]

/-- The offset that is written. -/
def Zone.zero : Zone := .shifted '+' 0 0 (.inl rfl) (by decide) (by decide)

theorem Zone.chars_zero : Zone.zero.chars = "+00:00".toList := by decide +kernel

/-- The digits of a fraction that so many of them hold. -/
theorem exists_fraction_eq {k n : Nat} (hk : 1 ≤ k) (hk' : k ≤ 9) (hn : n < billion)
    (hdvd : 10 ^ (9 - k) ∣ n) :
    ∃ ds : List Nat, (∀ d ∈ ds, d < 10) ∧ nanosOf ds = n ∧ ds.length = k ∧
      Timestamp.fractionText ds = '.' :: padded k (n / 10 ^ (9 - k)) := by
  have hlt : n / 10 ^ (9 - k) < 10 ^ k := by
    refine Nat.div_lt_of_lt_mul ?_
    rw [Nat.pow_sub_mul_pow 10 hk']
    exact hn
  obtain ⟨ds, hds, hvalue, hpadded, hlength⟩ := exists_padded_eq k (n / 10 ^ (9 - k))
  have hlength : ds.length = k := hlength hk hlt
  have hne : ds ≠ [] := List.ne_nil_of_length_pos (by omega)
  refine ⟨ds, hds, ?_, hlength, by rw [Timestamp.fractionText, if_neg hne, hpadded]⟩
  rw [nanosOf_of_length_le (by omega), hvalue, hlength, Nat.div_mul_cancel hdvd]

/-- A fraction is written with the fewest digits that hold it, in steps of three. -/
theorem exists_fractionChars_eq {n : Nat} (hn : n < billion) :
    ∃ ds : List Nat, (∀ d ∈ ds, d < 10) ∧ nanosOf ds = n ∧
      Timestamp.fractionText ds = fractionChars n ∧ ds.length ∈ [0, 3, 6, 9] ∧
      ∀ k, 3 ∣ k → 10 ^ (9 - k) ∣ n → ds.length ≤ k := by
  unfold fractionChars
  split
  next hzero =>
    refine ⟨[], by simp, by rw [hzero]; decide, by simp [Timestamp.fractionText], by simp, by simp⟩
  next hzero =>
  split
  next hmod =>
    obtain ⟨ds, hds, hnanos, hlength, htext⟩ :=
      exists_fraction_eq (by decide) (show 3 ≤ 9 by decide) hn (Nat.dvd_of_mod_eq_zero hmod)
    refine ⟨ds, hds, hnanos, htext, by simp [hlength], fun k hk hdvd => ?_⟩
    by_contra hlt
    obtain rfl : k = 0 := by omega
    exact hzero (Nat.eq_zero_of_dvd_of_lt hdvd hn)
  next hmillion =>
  split
  next hmod =>
    obtain ⟨ds, hds, hnanos, hlength, htext⟩ :=
      exists_fraction_eq (by decide) (show 6 ≤ 9 by decide) hn (Nat.dvd_of_mod_eq_zero hmod)
    refine ⟨ds, hds, hnanos, htext, by simp [hlength], fun k hk hdvd => ?_⟩
    by_contra hlt
    have hfew : 10 ^ (9 - 3) ∣ n := (Nat.pow_dvd_pow 10 (by omega)).trans hdvd
    exact hmillion (Nat.mod_eq_zero_of_dvd hfew)
  next hthousand =>
    obtain ⟨ds, hds, hnanos, hlength, htext⟩ :=
      exists_fraction_eq (by decide) (le_refl 9) hn (Nat.one_dvd n)
    rw [Nat.sub_self, Nat.pow_zero, Nat.div_one] at htext
    refine ⟨ds, hds, hnanos, htext, by simp [hlength], fun k hk hdvd => ?_⟩
    by_contra hlt
    have hfew : 10 ^ (9 - 6) ∣ n := (Nat.pow_dvd_pow 10 (by omega)).trans hdvd
    exact hthousand (Nat.mod_eq_zero_of_dvd hfew)

theorem yearChars_cases (y : Int) :
    (0 ≤ y ∧ yearChars y = padded 4 y.natAbs) ∨ (y < 0 ∧ yearChars y = '-' :: padded 4 y.natAbs) ∨
      (0 ≤ y ∧ yearChars y = '+' :: padded 4 y.natAbs) := by
  unfold yearChars
  split
  next h =>
    have hnat : y.toNat = y.natAbs := by omega
    exact .inl ⟨h.1, by rw [hnat]⟩
  split
  next hneg => exact .inr (.inl ⟨hneg, rfl⟩)
  next hneg => exact .inr (.inr ⟨by omega, rfl⟩)

/-- A text shows which year it begins with, and whether with a sign. -/
theorem yearChars_append_inj {y y' : Int} {rest rest' : List Char}
    (h : yearChars y ++ '-' :: rest = yearChars y' ++ '-' :: rest') : y = y' ∧ rest = rest' := by
  have hnumber {n n' : Nat} (h : padded 4 n ++ '-' :: rest = padded 4 n' ++ '-' :: rest') :
      n = n' ∧ rest = rest' := by
    have hdash (cs : List Char) : NoDigit ('-' :: cs) := noDigit_cons (by decide)
    obtain ⟨hn, hrest⟩ := padded_append_inj (hdash _) (hdash _) h
    exact ⟨hn, (List.cons.inj hrest).2⟩
  have hminus {n : Nat} {cs cs' : List Char} : padded 4 n ++ cs ≠ '-' :: cs' :=
    padded_append_ne_cons (by decide)
  have hplus {n : Nat} {cs cs' : List Char} : padded 4 n ++ cs ≠ '+' :: cs' :=
    padded_append_ne_cons (by decide)
  have hsigns : '-' ≠ '+' := by decide
  rcases yearChars_cases y with ⟨hy, hchars⟩ | ⟨hy, hchars⟩ | ⟨hy, hchars⟩ <;>
    rcases yearChars_cases y' with ⟨hy', hchars'⟩ | ⟨hy', hchars'⟩ | ⟨hy', hchars'⟩ <;>
      rw [hchars, hchars'] at h
  · obtain ⟨hn, hrest⟩ := hnumber h
    exact ⟨by omega, hrest⟩
  · exact absurd h hminus
  · exact absurd h hplus
  · exact absurd h.symm hminus
  · obtain ⟨hn, hrest⟩ := hnumber (List.cons.inj h).2
    exact ⟨by omega, hrest⟩
  · exact absurd (List.cons.inj h).1 hsigns
  · exact absurd h.symm hplus
  · exact absurd (List.cons.inj h).1 hsigns.symm
  · obtain ⟨hn, hrest⟩ := hnumber (List.cons.inj h).2
    exact ⟨by omega, hrest⟩

/-- The text of an instant shows it. -/
theorem IsCivil.chars_injective (h : t.IsCivil) (h' : t'.IsCivil) (heq : t.chars = t'.chars) :
    t = t' := by
  have hdash (cs : List Char) : NoDigit ('-' :: cs) := noDigit_cons (by decide)
  have hcolon (cs : List Char) : NoDigit (':' :: cs) := noDigit_cons (by decide)
  have hletter (cs : List Char) : NoDigit ('T' :: cs) := noDigit_cons (by decide)
  obtain ⟨ds, hds, hnanos, htext, -⟩ := exists_fractionChars_eq h.civilNanos_lt
  obtain ⟨ds', hds', hnanos', htext', -⟩ := exists_fractionChars_eq h'.civilNanos_lt
  have hrest (ds : List Nat) : NoDigit (Timestamp.fractionText ds ++ Zone.zero.chars) := by
    unfold Timestamp.fractionText
    split
    · exact Zone.zero.noDigit_chars
    · exact noDigit_cons (by decide)
  rw [chars_eq, chars_eq, ← htext, ← htext', ← Zone.chars_zero] at heq
  obtain ⟨hyear, heq⟩ := yearChars_append_inj heq
  obtain ⟨hmonth, heq⟩ := padded_append_inj (hdash _) (hdash _) heq
  obtain ⟨hday, heq⟩ := padded_append_inj (hletter _) (hletter _) (List.cons.inj heq).2
  obtain ⟨hhour, heq⟩ := padded_append_inj (hcolon _) (hcolon _) (List.cons.inj heq).2
  obtain ⟨hminute, heq⟩ := padded_append_inj (hcolon _) (hcolon _) (List.cons.inj heq).2
  obtain ⟨hsecond, heq⟩ := padded_append_inj (hrest _) (hrest _) (List.cons.inj heq).2
  have hread := fraction?_append ds hds Zone.zero
  rw [heq, fraction?_append ds' hds' Zone.zero, hnanos, hnanos'] at hread
  have hfraction : t'.civilNanos = t.civilNanos := (Prod.mk.inj (Option.some.inj hread)).1
  have hdate : t.date = t'.date := by
    rcases hd : t.date with ⟨year, month, day⟩
    rcases hd' : t'.date with ⟨year', month', day'⟩
    rw [hd, hd'] at hyear hmonth hday
    dsimp only at hyear hmonth hday
    rw [hyear, hmonth, hday]
  rw [← h.ofCivil_date, ← h'.ofCivil_date, hdate, hhour, hminute, hsecond, hfraction]

namespace Timestamp

/-- Written in UTC with a fraction of thousandths, millionths or billionths, or without one.  No
timestamp of the instant with such a fraction has a shorter one. -/
structure IsCanonical (w : Timestamp) : Prop where
  separator_eq : w.separator = 'T'
  zone_eq : w.zone.chars = "+00:00".toList
  length_fraction : w.fraction.length ∈ [0, 3, 6, 9]
  shortest : ∀ v : Timestamp, v.instant = w.instant → 3 ∣ v.fraction.length →
    w.fraction.length ≤ v.fraction.length

/-- The nanoseconds are a multiple of what the last digit counts. -/
theorem pow_dvd_nanos (w : Timestamp) : 10 ^ (9 - w.fraction.length) ∣ w.nanos := by
  rcases Nat.le_total w.fraction.length 9 with hshort | hlong
  · rw [← nanos_eq, nanosOf_of_length_le hshort]
    exact Nat.dvd_mul_left _ _
  · rw [Nat.sub_eq_zero_of_le hlong]
    exact Nat.one_dvd _

end Timestamp

/-- Within the years of four digits an instant is written as a timestamp of it. -/
theorem IsCivil.exists_timestamp (h : t.IsCivil) (hyear : 0 ≤ t.date.year)
    (hyear' : t.date.year ≤ 9999) :
    ∃ w : Timestamp, w.IsCanonical ∧ t.chars = w.chars ∧ w.instant = t := by
  have hclock := t.clock_lt
  have hnat : (t.date.year.toNat : Int) = t.date.year := Int.toNat_of_nonneg hyear
  have hdate : (⟨t.date.year.toNat, t.date.month, t.date.day⟩ : Date) = t.date := by rw [hnat]
  obtain ⟨ds, hds, hnanos, htext, hlength, hfewest⟩ := exists_fractionChars_eq h.civilNanos_lt
  let w : Timestamp :=
    { year := t.date.year.toNat, month := t.date.month, day := t.date.day, separator := 'T'
      hour := t.clock / 3600, minute := t.clock / 60 % 60, second := t.civilSecond
      fraction := ds, zone := .zero
      year_lt := by omega
      exists_date := by rw [hdate]; exact Date.exists_ofDayNumber _
      separator_eq := .inl rfl
      hour_le := by omega
      minute_le := by omega
      second_le := t.civilSecond_le
      fraction_lt := hds }
  have hinstant : w.instant = t := by
    rw [← w.ofCivil_eq_instant]
    refine Eq.trans ?_ h.ofCivil_date
    rw [← hdate, ← hnanos]
    rfl
  refine ⟨w, ⟨rfl, Zone.chars_zero, hlength, fun v hv hthree => ?_⟩, ?_, hinstant⟩
  · have hsame : v.nanos = t.civilNanos := by
      rw [(Timestamp.instant_eq_iff.1 hv).2.2, ← w.nanos_eq, hnanos]
    exact hfewest _ hthree (hsame ▸ v.pow_dvd_nanos)
  · have hyearChars : yearChars t.date.year = padded 4 t.date.year.toNat :=
      if_pos ⟨hyear, hyear'⟩
    rw [chars_eq, hyearChars, ← htext, ← Zone.chars_zero]
    rfl

theorem isCivil_of_read? {s : String} (h : read? s = some t) : t.IsCivil := by
  obtain ⟨-, -, w, -, -, rfl⟩ := read?_eq_some_iff.1 h
  exact w.isCivil_instant

theorem toList_text (t : Instant) : t.text.toList = t.chars := String.toList_ofList

theorem IsCivil.text_eq_iff (h : t.IsCivil) (h' : t'.IsCivil) : t.text = t'.text ↔ t = t' := by
  refine ⟨fun heq => h.chars_injective h' ?_, congrArg text⟩
  rw [← toList_text, heq, toList_text]

/-- **Writing commit dates.**  If the year in UTC has four digits, an instant that was read is
written as its canonical timestamp, and reading that gives the same instant.  Whatever the year,
instants that were read are written alike only if they are the same, and no leap second is written
like a second that is none. -/
theorem text_faithful :
    (∀ (s : String) (t : Instant) (d : Date), read? s = some t →
      d.exists = true → d.dayNumber = t.second / 86400 → 0 ≤ d.year → d.year ≤ 9999 →
        (∃ w : Timestamp, w.IsCanonical ∧ t.text.toList = w.chars ∧ w.instant = t) ∧
          read? t.text = some t) ∧
    (∀ (s s' : String) (t t' : Instant), read? s = some t → read? s' = some t' →
      (t.text = t'.text ↔ t = t')) ∧
    (∀ w w' : Timestamp, w.second = 60 → w'.second < 60 → w.instant.text ≠ w'.instant.text) := by
  refine ⟨fun s t d hread hexists hday hyear hyear' => ?_, fun s s' t t' hread hread' =>
    (isCivil_of_read? hread).text_eq_iff (isCivil_of_read? hread'), fun w w' hleap hplain heq => ?_⟩
  · obtain rfl : t.date = d := date_eq_iff.2 ⟨hexists, hday⟩
    obtain ⟨w, hcanonical, hchars, hinstant⟩ :=
      (isCivil_of_read? hread).exists_timestamp hyear hyear'
    rw [← toList_text] at hchars
    exact ⟨⟨w, hcanonical, hchars, hinstant⟩,
      read?_eq_some_iff.2 ⟨[], [], w, by simp, by simpa using hchars, hinstant.symm⟩⟩
  · have hinstant := (w.isCivil_instant.text_eq_iff w'.isCivil_instant).1 heq
    have hsecond := (Timestamp.instant_eq_iff.1 hinstant).2.1
    omega

/-- A leap second, and the second after it. -/
theorem text_faithful_leapSecond :
    read? "2016-12-31t18:59:60.5-05:00" = some ⟨1483228799, 1500000000⟩ ∧
      read? (text ⟨1483228799, 1500000000⟩) = some ⟨1483228799, 1500000000⟩ ∧
      text ⟨1483228799, 1500000000⟩ ≠ text ⟨1483228800, 500000000⟩ := by
  have hleap : read? "2016-12-31t18:59:60.5-05:00" = some ⟨1483228799, 1500000000⟩ := by
    decide +kernel
  have hnext : read? "2017-01-01 00:00:00.5Z" = some ⟨1483228800, 500000000⟩ := by decide +kernel
  refine ⟨hleap, ?_, fun heq => ?_⟩
  · exact (text_faithful.1 _ _ ⟨2016, 12, 31⟩ hleap (by decide) (by decide) (by decide)
      (by decide)).2
  · have hsame := (text_faithful.2.1 _ _ _ _ hleap hnext).1 heq
    exact absurd hsame (by decide)

end ImagePipeline.Instant
