import ImagePipeline.Text.Case
import Mathlib.Data.List.Basic

/-!
# Lower case and words of ASCII

There is one letter whose lower-case form depends on what stands around it: at the end of a word a
capital sigma becomes `ς`, and `σ` anywhere else.  `Text.lower` knows the second form only.  For
words of ASCII characters this makes no difference, whichever rule tells where a word ends.

* `lowerIn`: the lower-case form of a text by any such rule.
* `lowerIn_eq_iff`: by each rule the same texts come to a word of ASCII characters.
-/

namespace ImagePipeline.Text

/-- The lower-case form of the characters of a text.  A capital sigma gets its form for the end of a
word wherever `final` says so of the characters before it, the nearest first, and those after it. -/
def lowerCharsIn (final : List Char → List Char → Bool) (before : List Char) : List Char → List Char
  | [] => []
  | c :: cs =>
    (if c = 'Σ' ∧ final before cs = true then ['ς'] else lowerChar c)
      ++ lowerCharsIn final (c :: before) cs

/-- The lower-case form of a text, where `final` tells the end of a word. -/
def lowerIn (final : List Char → List Char → Bool) (s : String) : String :=
  String.ofList (lowerCharsIn final [] s.toList)

variable {final : List Char → List Char → Bool} {before cs word : List Char}

theorem lowerChar_sigma : lowerChar 'Σ' = ['σ'] := by decide

theorem lowerCharsIn_eq_iff (hword : ∀ c ∈ word, c.toNat < 128) :
    lowerCharsIn final before cs = word ↔ cs.flatMap lowerChar = word := by
  induction cs generalizing before word with
  | nil => exact Iff.rfl
  | cons c cs ih =>
    rw [lowerCharsIn, List.flatMap_cons]
    split
    next hsigma =>
      -- Neither form of a sigma is a character of the word.
      obtain ⟨rfl, -⟩ := hsigma
      rw [lowerChar_sigma]
      constructor
      · rintro rfl
        exact absurd (hword 'ς' List.mem_cons_self) (by decide)
      · rintro rfl
        exact absurd (hword 'σ' List.mem_cons_self) (by decide)
    next =>
      constructor
      · rintro rfl
        rw [(ih fun d hd => hword d (List.mem_append_right _ hd)).1 rfl]
      · rintro rfl
        rw [(ih fun d hd => hword d (List.mem_append_right _ hd)).2 rfl]

/-- Whichever rule tells the end of a word, the same texts come to a word of ASCII characters. -/
theorem lowerIn_eq_iff {s word : String} (hword : ∀ c ∈ word.toList, c.toNat < 128) :
    lowerIn final s = word ↔ lower s = word := by
  rw [← String.toList_inj, ← String.toList_inj, lowerIn, lower, String.toList_ofList,
    String.toList_ofList]
  exact lowerCharsIn_eq_iff hword

end ImagePipeline.Text
