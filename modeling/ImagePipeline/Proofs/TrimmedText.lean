import ImagePipeline.Text.Blank
import Mathlib.Data.List.Basic
import Mathlib.Data.List.TakeWhile

/-!
# What trimming leaves

Trimming cuts a text into a blank front, what is kept, and a blank end.  What is kept is decided by
being blank at neither end.

* `exists_blank_ends`: nothing but blanks is cut off.
* `trimChars_append`: blanks around a text that ends in none are all cut off;
  `trimChars_append_of_no_blank` is the case of a text without blanks.
* `trimChars_eq_iff`: together they say what is kept, so trimming twice is trimming once, and
  blanks around a text do not matter.
-/

namespace ImagePipeline.Text

variable {cs front rest : List Char}

/-- A text does not begin with a blank. -/
def NoBlankHead (cs : List Char) : Prop := ∀ c ∈ cs.head?, isBlank c = false

theorem dropWhile_append_of_all_blank (hfront : ∀ c ∈ front, isBlank c = true)
    (hrest : NoBlankHead rest) : (front ++ rest).dropWhile isBlank = rest := by
  rw [List.dropWhile_append_of_pos hfront]
  cases rest with
  | nil => rfl
  | cons c cs => rw [List.dropWhile_cons_of_neg (by simp [hrest c rfl])]

/-- Nothing but blanks is cut off. -/
theorem exists_blank_ends (cs : List Char) :
    ∃ front back, (∀ c ∈ front ++ back, isBlank c = true) ∧
      cs = front ++ (trimChars cs ++ back) := by
  have hcut (cs : List Char) :
      ∃ back, (∀ c ∈ back, isBlank c = true) ∧ cs = trimEndChars cs ++ back := by
    refine ⟨(cs.reverse.takeWhile isBlank).reverse, fun c hc => ?_, ?_⟩
    · exact List.mem_takeWhile_imp (List.mem_reverse.1 hc)
    · rw [trimEndChars, ← List.reverse_append, List.takeWhile_append_dropWhile,
        List.reverse_reverse]
  obtain ⟨back, hback, hcs⟩ := hcut (cs.dropWhile isBlank)
  refine ⟨cs.takeWhile isBlank, back, fun c hc => ?_, ?_⟩
  · rcases List.mem_append.1 hc with hc | hc
    · exact List.mem_takeWhile_imp hc
    · exact hback c hc
  · rw [trimChars, ← hcs, List.takeWhile_append_dropWhile]

/-- Blanks around a text that is blank at neither end are all cut off. -/
theorem trimChars_append {back : List Char} (hblank : ∀ c ∈ front ++ back, isBlank c = true)
    (hhead : NoBlankHead cs) (hlast : NoBlankHead cs.reverse) (hne : cs ≠ []) :
    trimChars (front ++ (cs ++ back)) = cs := by
  have hfront : ∀ c ∈ front, isBlank c = true := fun c hc => hblank c (List.mem_append_left _ hc)
  have hback : ∀ c ∈ back.reverse, isBlank c = true := fun c hc =>
    hblank c (List.mem_append_right _ (List.mem_reverse.1 hc))
  have hhead' : NoBlankHead (cs ++ back) := by
    intro c hc
    rw [List.head?_append_of_ne_nil _ hne] at hc
    exact hhead c hc
  rw [trimChars, dropWhile_append_of_all_blank hfront hhead', trimEndChars, List.reverse_append,
    dropWhile_append_of_all_blank hback hlast, List.reverse_reverse]

/-- Blanks around a text that holds none are all cut off. -/
theorem trimChars_append_of_no_blank {back : List Char}
    (hblank : ∀ c ∈ front ++ back, isBlank c = true) (h : ∀ c ∈ cs, isBlank c = false)
    (hne : cs ≠ []) : trimChars (front ++ (cs ++ back)) = cs :=
  trimChars_append hblank (fun c hc => h c (List.mem_of_mem_head? hc))
    (fun c hc => h c (List.mem_reverse.1 (List.mem_of_mem_head? hc))) hne

/-! ## What is kept -/

/-- `kept` is left of a text when the blanks at both ends are taken away, and no blank is left at
either. -/
def TrimsTo (cs kept : List Char) : Prop :=
  ∃ front back, (∀ c ∈ front ++ back, isBlank c = true) ∧ cs = front ++ (kept ++ back) ∧
    NoBlankHead kept ∧ NoBlankHead kept.reverse

theorem noBlankHead_dropWhile (cs : List Char) : NoBlankHead (cs.dropWhile isBlank) := by
  intro c hc
  have hhead := List.head?_dropWhile_not isBlank cs
  rw [Option.mem_def.1 hc] at hhead
  exact hhead

theorem noBlankHead_trimChars (cs : List Char) : NoBlankHead (trimChars cs) := by
  have hprefix : trimEndChars (cs.dropWhile isBlank) <+: cs.dropWhile isBlank := by
    rw [← List.reverse_suffix, trimEndChars, List.reverse_reverse]
    exact List.dropWhile_suffix _
  obtain ⟨back, hback⟩ := hprefix
  intro c hc
  have hc' : c ∈ (trimEndChars (cs.dropWhile isBlank)).head? := hc
  refine noBlankHead_dropWhile cs c ?_
  rw [← hback, List.head?_append, Option.mem_def.1 hc']
  rfl

theorem noBlankHead_reverse_trimChars (cs : List Char) : NoBlankHead (trimChars cs).reverse := by
  rw [trimChars, trimEndChars, List.reverse_reverse]
  exact noBlankHead_dropWhile _

/-- Trimming takes away the blanks at both ends, and nothing else. -/
theorem trimChars_eq_iff {kept : List Char} : trimChars cs = kept ↔ TrimsTo cs kept := by
  constructor
  · rintro rfl
    obtain ⟨front, back, hblank, hcs⟩ := exists_blank_ends cs
    exact ⟨front, back, hblank, hcs, noBlankHead_trimChars cs, noBlankHead_reverse_trimChars cs⟩
  · rintro ⟨front, back, hblank, rfl, hhead, hlast⟩
    by_cases hkept : kept = []
    · subst hkept
      have hall : (front ++ back).dropWhile isBlank = [] := List.dropWhile_eq_nil_iff.2 hblank
      rw [List.nil_append, trimChars, hall, trimEndChars_nil]
    · exact trimChars_append hblank hhead hlast hkept

/-- Trimming twice is trimming once. -/
theorem trim_trim (s : String) : trim (trim s) = trim s := by
  rw [← String.toList_inj, toList_trim, toList_trim]
  exact trimChars_eq_iff.2 ⟨[], [], fun c hc => absurd hc List.not_mem_nil,
    (List.append_nil _).symm, noBlankHead_trimChars _, noBlankHead_reverse_trimChars _⟩

/-- Blanks around a text do not matter. -/
theorem trim_surrounded {front back : String}
    (hblank : ∀ c ∈ front.toList ++ back.toList, isBlank c = true) (s : String) :
    trim (front ++ s ++ back) = trim s := by
  have hkept : TrimsTo s.toList (trimChars s.toList) := trimChars_eq_iff.1 rfl
  obtain ⟨inner, rest, hinner, hs, hhead, hlast⟩ := hkept
  rw [← String.toList_inj, toList_trim, toList_trim]
  refine trimChars_eq_iff.2 ⟨front.toList ++ inner, rest ++ back.toList, ?_, ?_, hhead, hlast⟩
  · intro c hc
    simp only [List.mem_append] at hc hblank hinner
    rcases hc with (hc | hc) | (hc | hc)
    · exact hblank c (.inl hc)
    · exact hinner c (.inl hc)
    · exact hinner c (.inr hc)
    · exact hblank c (.inr hc)
  · rw [String.toList_append, String.toList_append]
    conv_lhs => rw [hs]
    simp only [List.append_assoc]

end ImagePipeline.Text
