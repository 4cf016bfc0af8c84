import ImagePipeline.Decimal.Numeral
import Mathlib.Data.List.Induction
import Mathlib.Tactic.Ring

/-!
# Decimal digits

A number below a power of ten has exactly one numeral with that many digits, zeros in front
included.  A run of digits in a text is read up to the first character that is none.

* `value_injective`: of digits equally long, the number decides all of them.
* `value_lt`, `length_digits_le`: the numbers with so many digits.
* `readDigits_append`, `readDigits_eq_iff`: a run of digits and what follows it.
-/

namespace ImagePipeline.Decimal

/-! ## The digits of a number -/

theorem digits_lt_ten (n : Nat) : ∀ d ∈ digits n, d < 10 := by
  induction n using digits.induct with
  | case1 n h =>
    rw [digits, if_pos h]
    intro d hd
    obtain rfl := List.mem_singleton.1 hd
    exact h
  | case2 n h ih =>
    rw [digits, if_neg h]
    intro d hd
    rcases List.mem_append.1 hd with hd | hd
    · exact ih d hd
    · obtain rfl := List.mem_singleton.1 hd
      exact Nat.mod_lt _ (by decide)

theorem natChars_injective {m n : Nat} (h : natChars m = natChars n) : m = n := by
  have hread (k : Nat) : (natChars k).map digit? = (digits k).map some := by
    rw [natChars, List.map_map]
    exact List.map_congr_left fun d hd => digit?_digitChar d (digits_lt_ten k d hd)
  have hdigits : (digits m).map some = (digits n).map some := by
    rw [← hread m, ← hread n, h]
  rw [← value_digits m, ← value_digits n,
    (List.map_inj_right fun _ _ hsome => Option.some.inj hsome).1 hdigits]

theorem exists_natChars (n : Nat) : ∃ d < 10, ∃ rest, natChars n = digitChar d :: rest := by
  have hne : digits n ≠ [] := by
    rw [digits]
    split
    · exact List.cons_ne_nil _ _
    · exact List.append_ne_nil_of_right_ne_nil _ (List.cons_ne_nil _ _)
  obtain ⟨d, ds, hds⟩ := List.exists_cons_of_ne_nil hne
  refine ⟨d, digits_lt_ten n d (hds ▸ List.mem_cons_self), ds.map digitChar, ?_⟩
  rw [natChars, hds, List.map_cons]

theorem exists_of_mem_natChars {n : Nat} {c : Char} (h : c ∈ natChars n) :
    ∃ d < 10, c = digitChar d := by
  obtain ⟨d, hd, rfl⟩ := List.mem_map.1 h
  exact ⟨d, digits_lt_ten n d hd, rfl⟩

/-- Characters and values of digits correspond. -/
theorem digit?_eq_some_iff {c : Char} {d : Nat} : digit? c = some d ↔ d < 10 ∧ c = digitChar d := by
  constructor
  · intro h
    unfold digit? at h
    split at h
    next hc =>
      cases h
      refine ⟨by omega, ?_⟩
      rw [digitChar, Nat.add_sub_cancel' hc.1, Char.ofNat_toNat]
    next => cases h
  · rintro ⟨hd, rfl⟩
    exact digit?_digitChar d hd

/-! ## Numbers of digits -/

variable {ds ds' : List Nat} {cs rest : List Char}

theorem foldl_eq (n : Nat) (ds : List Nat) :
    ds.foldl (fun n d => n * 10 + d) n = n * 10 ^ ds.length + value ds := by
  induction ds using List.reverseRecOn with
  | nil => simp
  | append_singleton ds d ih =>
    rw [List.foldl_append, ih, value_append_singleton]
    simp only [List.foldl_cons, List.foldl_nil, List.length_append, List.length_singleton]
    ring

theorem value_append (ds ds' : List Nat) :
    value (ds ++ ds') = value ds * 10 ^ ds'.length + value ds' := by
  rw [value, List.foldl_append, foldl_eq]
  rfl

theorem value_cons (d : Nat) (ds : List Nat) : value (d :: ds) = d * 10 ^ ds.length + value ds := by
  have h := value_append [d] ds
  simpa [value] using h

theorem value_replicate_zero (n : Nat) : value (List.replicate n 0) = 0 := by
  induction n with
  | zero => rfl
  | succ n ih => rw [List.replicate_succ, value_cons, ih, Nat.zero_mul]

theorem value_lt (h : ∀ d ∈ ds, d < 10) : value ds < 10 ^ ds.length := by
  induction ds with
  | nil => simp
  | cons d ds ih =>
    have hd := h d List.mem_cons_self
    have hds := ih fun d hd => h d (List.mem_cons_of_mem _ hd)
    rw [value_cons, List.length_cons, Nat.pow_succ]
    calc d * 10 ^ ds.length + value ds < (d + 1) * 10 ^ ds.length := by rw [Nat.add_mul]; omega
      _ ≤ 10 * 10 ^ ds.length := Nat.mul_le_mul_right _ hd
      _ = 10 ^ ds.length * 10 := Nat.mul_comm _ _

/-- Of digits equally long, the number decides all of them. -/
theorem value_injective (hlength : ds.length = ds'.length) (h : ∀ d ∈ ds, d < 10)
    (h' : ∀ d ∈ ds', d < 10) (hvalue : value ds = value ds') : ds = ds' := by
  induction ds using List.reverseRecOn generalizing ds' with
  | nil => exact (List.length_eq_zero_iff.1 hlength.symm).symm
  | append_singleton ds d ih =>
    rcases List.eq_nil_or_concat ds' with rfl | ⟨front, last, rfl⟩
    · simp at hlength
    · rw [List.concat_eq_append] at hlength h' hvalue ⊢
      have hd := h d (by simp)
      have hlast := h' last (by simp)
      rw [value_append_singleton, value_append_singleton] at hvalue
      obtain rfl : d = last := by omega
      rw [ih (by simpa using hlength) (fun x hx => h x (List.mem_append_left _ hx))
        (fun x hx => h' x (List.mem_append_left _ hx)) (by omega)]

/-- A number below a power of ten has no more digits than the exponent says. -/
theorem length_digits_le {k n : Nat} (hk : 1 ≤ k) (hn : n < 10 ^ k) : (digits n).length ≤ k := by
  induction n using digits.induct generalizing k with
  | case1 n h => rw [digits, if_pos h]; exact hk
  | case2 n h ih =>
    obtain ⟨k, rfl⟩ := Nat.exists_eq_add_of_le' hk
    have hk' : 1 ≤ k := by
      by_contra hzero
      obtain rfl : k = 0 := by omega
      exact h (by simpa using hn)
    rw [digits, if_neg h, List.length_append, List.length_singleton]
    have := ih hk' (by rw [Nat.pow_succ] at hn; omega)
    omega

/-! ## Runs of digits -/

/-- A text does not go on with a digit. -/
def NoDigit (cs : List Char) : Prop := ∀ c rest, cs = c :: rest → digit? c = none

theorem noDigit_cons {c : Char} (hc : digit? c = none) : NoDigit (c :: rest) := by
  rintro _ _ ⟨⟩
  exact hc

theorem readDigits_of_noDigit (h : NoDigit cs) : readDigits cs = ([], cs) := by
  cases cs with
  | nil => rfl
  | cons c cs => simp only [readDigits, h c cs rfl]

/-- A run of digits is read up to its end. -/
theorem readDigits_append (hds : ∀ d ∈ ds, d < 10) (hrest : NoDigit rest) :
    readDigits (ds.map digitChar ++ rest) = (ds, rest) := by
  induction ds with
  | nil => exact readDigits_of_noDigit hrest
  | cons d ds ih =>
    have hd := digit?_digitChar d (hds d List.mem_cons_self)
    have hrun := ih fun x hx => hds x (List.mem_cons_of_mem _ hx)
    rw [List.map_cons, List.cons_append]
    simp only [readDigits, hd, hrun]

/-- What is read is a run of digits with what follows it. -/
theorem readDigits_eq_iff : readDigits cs = (ds, rest) ↔
    (∀ d ∈ ds, d < 10) ∧ cs = ds.map digitChar ++ rest ∧ NoDigit rest := by
  constructor
  · intro h
    induction cs generalizing ds rest with
    | nil =>
      cases h
      exact ⟨by simp, rfl, nofun⟩
    | cons c cs ih =>
      cases hc : digit? c with
      | none =>
        simp only [readDigits, hc] at h
        cases h
        exact ⟨by simp, rfl, noDigit_cons hc⟩
      | some d =>
        simp only [readDigits, hc] at h
        cases h
        obtain ⟨hd, hchar⟩ := digit?_eq_some_iff.1 hc
        obtain ⟨hds, hcs, hrest⟩ := ih rfl
        refine ⟨List.forall_mem_cons.2 ⟨hd, hds⟩, ?_, hrest⟩
        rw [List.map_cons, List.cons_append, ← hcs, hchar]
  · rintro ⟨hds, rfl, hrest⟩
    exact readDigits_append hds hrest

end ImagePipeline.Decimal
