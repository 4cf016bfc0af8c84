import ImagePipeline.Instant.Text
import ImagePipeline.Proofs.DecimalDigits

/-!
# Numbers in dates and times

All numbers in dates and times have a fixed width, with zeros in front, but for the fraction of a
second.  That has any number of digits, and is cut after the ninth.

* `fixed?_eq_some_iff`: a number of a fixed width is read from the digits that it is written with.
* `padded_append_inj`: a text shows which number it begins with.
* `nanosOf_eq`: the digits of a fraction as nanoseconds.
-/

namespace ImagePipeline.Instant

open Decimal

variable {k n : Nat} {cs rest : List Char}

/-! ## Numbers of a fixed width -/

theorem go_eq_some_iff {acc : Nat} : fixed?.go k acc cs = some (n, rest) ↔
    ∃ ds : List Nat, ds.length = k ∧ (∀ d ∈ ds, d < 10) ∧ cs = ds.map digitChar ++ rest ∧
      n = acc * 10 ^ k + value ds := by
  induction k generalizing acc cs with
  | zero =>
    simp only [fixed?.go, Option.some.injEq, Prod.mk.injEq, List.length_eq_zero_iff]
    constructor
    · rintro ⟨rfl, rfl⟩
      exact ⟨[], rfl, by simp, rfl, by simp⟩
    · rintro ⟨ds, rfl, -, rfl, rfl⟩
      exact ⟨by simp, rfl⟩
  | succ k ih =>
    cases cs with
    | nil =>
      constructor
      · nofun
      · rintro ⟨ds, hlength, -, hcs, -⟩
        obtain ⟨hds, -⟩ := List.append_eq_nil_iff.1 hcs.symm
        rw [List.map_eq_nil_iff] at hds
        subst hds
        cases hlength
    | cons c cs =>
      rw [fixed?.go, Option.bind_eq_some_iff]
      simp only [ih, digit?_eq_some_iff]
      constructor
      · rintro ⟨d, ⟨hd, rfl⟩, ds, hlength, hds, rfl, rfl⟩
        have hlength' : (d :: ds).length = k + 1 := by rw [List.length_cons, hlength]
        refine ⟨d :: ds, hlength', List.forall_mem_cons.2 ⟨hd, hds⟩, rfl, ?_⟩
        rw [value_cons, hlength]
        ring
      · rintro ⟨ds, hlength, hds, hcs, rfl⟩
        cases ds with
        | nil => cases hlength
        | cons d ds =>
          obtain ⟨rfl, rfl⟩ := List.cons.inj hcs
          obtain ⟨hd, hds⟩ := List.forall_mem_cons.1 hds
          have hlength : ds.length = k := Nat.succ.inj hlength
          refine ⟨d, ⟨hd, rfl⟩, ds, hlength, hds, rfl, ?_⟩
          rw [value_cons, hlength]
          ring

theorem exists_padded_eq (k n : Nat) :
    ∃ ds : List Nat, (∀ d ∈ ds, d < 10) ∧ value ds = n ∧ padded k n = ds.map digitChar ∧
      (1 ≤ k → n < 10 ^ k → ds.length = k) := by
  refine ⟨List.replicate (k - (digits n).length) 0 ++ digits n, ?_, ?_, ?_, fun hk hn => ?_⟩
  · intro d hd
    rcases List.mem_append.1 hd with hd | hd
    · rw [List.eq_of_mem_replicate hd]
      decide
    · exact digits_lt_ten n d hd
  · rw [value_append, value_replicate_zero, value_digits, Nat.zero_mul, Nat.zero_add]
  · have hzero : digitChar 0 = '0' := by decide
    simp [padded, natChars, hzero]
  · have hlength := length_digits_le hk hn
    rw [List.length_append, List.length_replicate]
    omega

/-- A number of a fixed width is read from the digits that it is written with. -/
theorem fixed?_eq_some_iff (hk : 1 ≤ k) :
    fixed? k cs = some (n, rest) ↔ n < 10 ^ k ∧ cs = padded k n ++ rest := by
  rw [fixed?, go_eq_some_iff]
  constructor
  · rintro ⟨ds, hlength, hds, rfl, rfl⟩
    have hlt := value_lt hds
    rw [hlength] at hlt
    have hvalue : 0 * 10 ^ k + value ds = value ds := by omega
    rw [hvalue]
    obtain ⟨ds', hds', hvalue', hpadded, hlength'⟩ := exists_padded_eq k (value ds)
    rw [hpadded, value_injective ((hlength' hk hlt).trans hlength.symm) hds' hds hvalue']
    exact ⟨hlt, rfl⟩
  · rintro ⟨hlt, rfl⟩
    obtain ⟨ds, hds, hvalue, hpadded, hlength⟩ := exists_padded_eq k n
    exact ⟨ds, hlength hk hlt, hds, by rw [hpadded], by omega⟩

/-- Where no digit follows, a text shows which number it begins with. -/
theorem padded_append_inj {n' : Nat} {rest' : List Char} (hrest : NoDigit rest)
    (hrest' : NoDigit rest') (h : padded k n ++ rest = padded k n' ++ rest') :
    n = n' ∧ rest = rest' := by
  obtain ⟨ds, hds, hvalue, hpadded, -⟩ := exists_padded_eq k n
  obtain ⟨ds', hds', hvalue', hpadded', -⟩ := exists_padded_eq k n'
  have hread := readDigits_append hds hrest
  rw [← hpadded, h, hpadded', readDigits_append hds' hrest'] at hread
  cases hread
  exact ⟨hvalue.symm.trans hvalue', rfl⟩

theorem exists_of_mem_padded {c : Char} (h : c ∈ padded k n) : ∃ d < 10, c = digitChar d := by
  obtain ⟨ds, hds, -, hpadded, -⟩ := exists_padded_eq k n
  rw [hpadded] at h
  obtain ⟨d, hd, rfl⟩ := List.mem_map.1 h
  exact ⟨d, hds d hd, rfl⟩

theorem padded_ne_nil (k n : Nat) : padded k n ≠ [] := by
  obtain ⟨d, -, ds, hds⟩ := exists_natChars n
  exact List.append_ne_nil_of_right_ne_nil _ (hds ▸ List.cons_ne_nil _ _)

/-- A number begins with a digit. -/
theorem padded_append_ne_cons {c : Char} {rest' : List Char} (hc : digit? c = none) :
    padded k n ++ rest ≠ c :: rest' := by
  intro h
  obtain ⟨c', cs, hcs⟩ := List.exists_cons_of_ne_nil (padded_ne_nil k n)
  obtain ⟨d, hd, rfl⟩ := exists_of_mem_padded (hcs ▸ List.mem_cons_self : c' ∈ padded k n)
  rw [hcs, List.cons_append] at h
  rw [← (List.cons.inj h).1, digit?_digitChar d hd] at hc
  cases hc

/-! ## Fractions of a second -/

variable {ds : List Nat}

theorem nanosOf_of_length_le (h : ds.length ≤ 9) :
    nanosOf ds = value ds * 10 ^ (9 - ds.length) := by
  rw [nanosOf, List.take_of_length_le h, value_append, value_replicate_zero,
    List.length_replicate, Nat.add_zero]

/-- The nanoseconds of a fraction: what is beyond the ninth digit is cut off. -/
theorem nanosOf_eq (hds : ∀ d ∈ ds, d < 10) :
    nanosOf ds = value ds * 10 ^ 9 / 10 ^ ds.length := by
  rcases Nat.le_total ds.length 9 with hshort | hlong
  · rw [nanosOf_of_length_le hshort, ← Nat.pow_sub_mul_pow 10 hshort, ← Nat.mul_assoc,
      Nat.mul_div_cancel _ (Nat.pow_pos (by decide))]
  · have hcut : value (ds.take 9) * 10 ^ (ds.length - 9) + value (ds.drop 9) = value ds := by
      rw [← List.length_drop, ← value_append, List.take_append_drop]
    have hdrop : value (ds.drop 9) < 10 ^ (ds.length - 9) := by
      rw [← List.length_drop]
      exact value_lt fun d hd => hds d (List.mem_of_mem_drop hd)
    rw [nanosOf, Nat.sub_eq_zero_of_le hlong, List.replicate_zero, List.append_nil, ← hcut,
      ← Nat.pow_sub_mul_pow 10 hlong, Nat.mul_div_mul_right _ _ (Nat.pow_pos (by decide)), Nat.mul_comm (value _),
      Nat.mul_add_div (Nat.pow_pos (by decide)), Nat.div_eq_of_lt hdrop, Nat.add_zero]

/-- A fraction is less than a second. -/
theorem nanosOf_lt (hds : ∀ d ∈ ds, d < 10) : nanosOf ds < billion := by
  rw [nanosOf_eq hds]
  refine Nat.div_lt_of_lt_mul ?_
  rw [billion]
  have hlt := value_lt hds
  omega

end ImagePipeline.Instant
