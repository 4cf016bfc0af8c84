import ImagePipeline.Text.CaseTable

/-!
# Lower and upper case

The full case mappings of Unicode, character by character. A character may map to several
(`ß` to `SS`) and a foreign one to an ASCII letter (the Kelvin sign to `k`), so the length of a
text may change. What stands around a character has no influence; a sigma at the end of a word is
lowered like any other.

* `lower_ascii`, `upper_ascii`: on ASCII characters the mappings are those of `Char`.
-/

namespace ImagePipeline.Text

/-- The mapping of a code point from 128 on, read off a table. -/
def mapBeyondAscii (runs : List CaseRun) (expansions : List (Nat × List Nat)) (n : Nat) :
    List Nat :=
  match runs.find? (·.covers n) with
  | some run => [(n + run.shift).toNat]
  | none => (expansions.lookup n).getD [n]

/-- The lower-case form of a character. -/
def lowerChar (c : Char) : List Char :=
  if c.toNat < 128 then [c.toLower]
  else (mapBeyondAscii lowerRuns lowerExpansions c.toNat).map Char.ofNat

/-- The upper-case form of a character. -/
def upperChar (c : Char) : List Char :=
  if c.toNat < 128 then [c.toUpper]
  else (mapBeyondAscii upperRuns upperExpansions c.toNat).map Char.ofNat

/-- The text in lower case. -/
def lower (s : String) : String :=
  String.ofList (s.toList.flatMap lowerChar)

/-- The text in upper case. -/
def upper (s : String) : String :=
  String.ofList (s.toList.flatMap upperChar)

theorem lower_ascii {cs : List Char} (h : ∀ c ∈ cs, c.toNat < 128) :
    cs.flatMap lowerChar = cs.map Char.toLower := by
  induction cs with
  | nil => rfl
  | cons c cs ih =>
    simp only [List.mem_cons, forall_eq_or_imp] at h
    simp [lowerChar, h.1, ih h.2]

theorem upper_ascii {cs : List Char} (h : ∀ c ∈ cs, c.toNat < 128) :
    cs.flatMap upperChar = cs.map Char.toUpper := by
  induction cs with
  | nil => rfl
  | cons c cs ih =>
    simp only [List.mem_cons, forall_eq_or_imp] at h
    simp [upperChar, h.1, ih h.2]

end ImagePipeline.Text
