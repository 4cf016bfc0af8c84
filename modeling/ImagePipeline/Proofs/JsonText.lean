import ImagePipeline.Json.Printer
import ImagePipeline.Proofs.JsonGrammar

/-!
# Reading back what was written

A value that holds no numbers is got back from its text.  In strings every character has one way to
be written, plainly, with a short escape or with its four digits, and between two parts of a value
there are no blanks; so what is written is one of the texts of the value.

* `Json.isTextual`: the values without numbers.
* `Json.literalText_stringChars`: what is written of a string is a literal of it.
* `Json.valueText_chars`: what is written of a value is a text of it.
* `Json.parse?_render`: a value without numbers is the value of its text.
-/

namespace ImagePipeline.Json

mutual

/-- Whether a value is made of literals, strings, arrays and objects. -/
def isTextual : Json → Bool
  | number _ => false
  | array items => areTextual items
  | object members => haveTextual members
  | illFormed => false
  | _ => true

/-- Whether some values hold no numbers. -/
def areTextual : List Json → Bool
  | [] => true
  | j :: js => isTextual j && areTextual js

/-- Whether some members hold no numbers. -/
def haveTextual : List (String × Json) → Bool
  | [] => true
  | (_, j) :: ms => isTextual j && haveTextual ms

end

/-! ## Strings -/

theorem hexDigit?_digitChar : ∀ n < 16, hexDigit? n.digitChar = some n := by decide

theorem eq_ofNat_of_toNat_eq {c : Char} {n : Nat} (h : c.toNat = n) : c = Char.ofNat n := by
  rw [← h, Char.ofNat_toNat]

/-- The four digits of a control character stand for it. -/
theorem pieceText_control {n : Nat} (hn : n < 32) :
    PieceText (.unit n) ['\\', 'u', '0', '0', (n / 16).digitChar, (n % 16).digitChar] := by
  have hzero : hexDigit? '0' = some 0 := by decide
  have hunit := PieceText.unit hzero hzero (hexDigit?_digitChar (n / 16) (by omega))
    (hexDigit?_digitChar (n % 16) (by omega))
  rwa [show ((0 * 16 + 0) * 16 + n / 16) * 16 + n % 16 = n by omega] at hunit

/-- What is written of a character is a part of a literal that stands for it. -/
theorem exists_pieceText (c : Char) : ∃ p, PieceText p (escapeChar c) ∧
    ∀ {ps cs}, Denotes ps cs → Denotes (p :: ps) (c :: cs) := by
  have hshort {e : Char} (he : shortEscape? e = some c) : ∃ p, PieceText p ['\\', e] ∧
      ∀ {ps cs}, Denotes ps cs → Denotes (p :: ps) (c :: cs) :=
    ⟨.plain c, .short he, .plain c⟩
  unfold escapeChar
  -- first the seven characters with a short escape
  split
  next h => exact hshort (by rw [h]; rfl)
  next hquote =>
  split
  next h => exact hshort (by rw [h]; rfl)
  next hbackslash =>
  split
  next h => exact hshort (by rw [h]; rfl)
  split
  next h => exact hshort (by rw [h]; rfl)
  split
  next h => exact hshort (by rw [h]; rfl)
  split
  next h => exact hshort (by rw [eq_ofNat_of_toNat_eq h]; rfl)
  split
  next h => exact hshort (by rw [eq_ofNat_of_toNat_eq h]; rfl)
  split
  next h =>
    refine ⟨.unit c.toNat, pieceText_control h, fun hps => ?_⟩
    conv => rhs; rw [← Char.ofNat_toNat c]
    exact .unit (by omega) hps
  next h => exact ⟨.plain c, .plain hquote hbackslash h, .plain c⟩

/-- What is written of a string is a literal of it. -/
theorem literalText_stringChars (s : String) : LiteralText (some s) (stringChars s) := by
  have hparts : ∀ cs, ∃ ps, PiecesText ps (cs.flatMap escapeChar) ∧ Denotes ps cs := by
    intro cs
    induction cs with
    | nil => exact ⟨[], .nil, .nil⟩
    | cons c cs ih =>
      obtain ⟨ps, hps, hcs⟩ := ih
      obtain ⟨p, hp, hc⟩ := exists_pieceText c
      exact ⟨p :: ps, List.flatMap_cons ▸ .cons hp hps, hc hcs⟩
  obtain ⟨ps, hps, hs⟩ := hparts s.toList
  have hliteral := LiteralText.valued hps hs
  rwa [String.ofList_toList] at hliteral

/-! ## Values -/

theorem objectOf_map (members : List (String × Json)) :
    objectOf (members.map fun m => (some m.1, m.2)) = object members := by
  have hmapM : (members.map fun m => (some m.1, m.2)).mapM (fun m => m.1.map (·, m.2)) =
      some members := by
    induction members with
    | nil => rfl
    | cons m ms ih => rw [List.map_cons, List.mapM_cons, ih]; rfl
  unfold objectOf
  split
  next heq =>
    cases heq.symm.trans hmapM
    rfl
  next heq => cases heq.symm.trans hmapM

theorem chars_array_cons (j : Json) (js : List Json) :
    chars (array (j :: js)) = '[' :: j.chars ++ itemsChars js := rfl

theorem itemsChars_cons (j : Json) (js : List Json) :
    itemsChars (j :: js) = ',' :: j.chars ++ itemsChars js := rfl

theorem chars_object_cons (key : String) (j : Json) (ms : List (String × Json)) :
    chars (object ((key, j) :: ms)) =
      '{' :: stringChars key ++ ':' :: j.chars ++ membersChars ms := rfl

theorem membersChars_cons (key : String) (j : Json) (ms : List (String × Json)) :
    membersChars ((key, j) :: ms) =
      ',' :: stringChars key ++ ':' :: j.chars ++ membersChars ms := rfl

theorem membersChars_nil : membersChars [] = ['}'] := rfl

theorem areBlank_nil : AreBlank [] := fun _ h => absurd h List.not_mem_nil

theorem ValueText.isText {j : Json} {text : List Char} (h : ValueText j text) : IsText j text := by
  have hpadded := IsText.padded areBlank_nil h areBlank_nil
  rwa [List.nil_append, List.append_nil] at hpadded

mutual

/-- What is written of a value is a text of it. -/
theorem valueText_chars : (j : Json) → j.isTextual = true → ValueText j j.chars
  | .null, _ => .null
  | .bool .false, _ => .false
  | .bool .true, _ => .true
  | .string s, _ => .string (literalText_stringChars s)
  | .array [], _ => .noItems areBlank_nil
  | .array (j :: js), h => by
    obtain ⟨text, htext, hjs⟩ := itemsText_chars j js h
    rw [chars_array_cons, List.cons_append, htext]
    exact .array hjs
  | .object [], _ => .noMembers areBlank_nil
  | .object ((key, j) :: ms), h => by
    obtain ⟨text, htext, hms⟩ := membersText_chars key j ms h
    have hobject := ValueText.object hms
    rw [objectOf_map, List.cons_append, ← htext] at hobject
    simpa only [chars_object_cons, List.cons_append, List.append_assoc] using hobject
termination_by j => sizeOf j

/-- What is written of items, up to the bracket, is a text of them. -/
theorem itemsText_chars (j : Json) : (js : List Json) → areTextual (j :: js) = true →
    ∃ text, j.chars ++ itemsChars js = text ++ [']'] ∧ ItemsText (j :: js) text
  | [], h => by
    have hj := valueText_chars j (Bool.and_eq_true_iff.1 h).1
    exact ⟨j.chars, rfl, .one hj.isText⟩
  | j' :: js, h => by
    obtain ⟨hj, hjs⟩ := Bool.and_eq_true_iff.1 h
    obtain ⟨text, htext, hitems⟩ := itemsText_chars j' js hjs
    refine ⟨_, ?_, .cons (valueText_chars j hj).isText hitems⟩
    rw [itemsChars_cons, List.cons_append, htext, List.append_assoc, List.cons_append]
termination_by js => sizeOf j + sizeOf js + 1

/-- What is written of members, up to the brace, is a text of them. -/
theorem membersText_chars (key : String) (j : Json) : (ms : List (String × Json)) →
    haveTextual ((key, j) :: ms) = true →
    ∃ text, stringChars key ++ ':' :: (j.chars ++ membersChars ms) = text ++ ['}'] ∧
      MembersText (((key, j) :: ms).map fun m => (some m.1, m.2)) text
  | [], h => by
    have hj := valueText_chars j (Bool.and_eq_true_iff.1 h).1
    refine ⟨_, ?_, .one areBlank_nil (literalText_stringChars key) areBlank_nil hj.isText⟩
    simp only [membersChars_nil, List.nil_append, List.append_assoc, List.cons_append]
  | (key', j') :: ms, h => by
    obtain ⟨hj, hms⟩ := Bool.and_eq_true_iff.1 h
    obtain ⟨text, htext, hmembers⟩ := membersText_chars key' j' ms hms
    refine ⟨_, ?_, .cons areBlank_nil (literalText_stringChars key) areBlank_nil
      (valueText_chars j hj).isText hmembers⟩
    simp only [membersChars_cons, List.nil_append, List.append_assoc, List.cons_append, htext]
termination_by ms => sizeOf j + sizeOf ms + 1

end

/-- **Reading back.**  A value without numbers is the value of its text. -/
theorem parse?_render {j : Json} (h : j.isTextual = true) : parse? j.render = some j := by
  rw [parse?_eq_some_iff, render, String.toList_ofList]
  exact (valueText_chars j h).isText

end ImagePipeline.Json
