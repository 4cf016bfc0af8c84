import ImagePipeline.Json.Reader
import ImagePipeline.Proofs.DecimalDigits

/-!
# The grammar of JSON texts

Which texts are JSON texts, and of which values, can be said without reading any: a text is put
together from the texts of its parts.  Between two parts there may be blanks, a character of a
string may be written in several ways, and so may a number.

* `IsText`: the JSON texts of a value, by the grammar of RFC 8259; `ValueText`, `ItemsText` and
  `MembersText` are the texts of its parts.
* `Denotes`: what the parts of a string literal stand for; `assemble_eq_some_iff` says that this is
  what they are joined to.
* `parse?_eq_some_iff`: the reader reads the JSON texts of a value as that value, and nothing else.
-/

namespace ImagePipeline.Json

open Decimal (Numeral digit? digitChar readDigits NoDigit value)

variable {c d e : Char} {b b' cs more rest text body : List Char} {p : Piece} {ps : List Piece}
  {n : Nat}

/-! ## The grammar -/

/-- A character that may stand between two parts of a text. -/
def IsBlank (c : Char) : Prop := c = ' ' ∨ c = '\t' ∨ c = '\n' ∨ c = '\r'
deriving Decidable

/-- Some blanks, or none. -/
def AreBlank (cs : List Char) : Prop := ∀ c ∈ cs, IsBlank c

/-- The texts of a part of a string literal: a character as it stands or with a short escape, or a
UTF-16 unit with its four digits. -/
inductive PieceText : Piece → List Char → Prop where
  | plain {c : Char} (hquote : c ≠ '"') (hbackslash : c ≠ '\\') (hcontrol : ¬ c.toNat < 32) :
      PieceText (.plain c) [c]
  | short {c e : Char} (he : shortEscape? e = some c) : PieceText (.plain c) ['\\', e]
  | unit {c₃ c₂ c₁ c₀ : Char} {d₃ d₂ d₁ d₀ : Nat} (h₃ : hexDigit? c₃ = some d₃)
      (h₂ : hexDigit? c₂ = some d₂) (h₁ : hexDigit? c₁ = some d₁) (h₀ : hexDigit? c₀ = some d₀) :
      PieceText (.unit (((d₃ * 16 + d₂) * 16 + d₁) * 16 + d₀)) ['\\', 'u', c₃, c₂, c₁, c₀]

/-- The texts of some parts in a row. -/
inductive PiecesText : List Piece → List Char → Prop where
  | nil : PiecesText [] []
  | cons {p : Piece} {ps : List Piece} {text body : List Char} (hp : PieceText p text)
      (hps : PiecesText ps body) : PiecesText (p :: ps) (text ++ body)

/-- The characters that parts stand for.  Two units make one character if they are a pair of
surrogates, and a surrogate alone stands for nothing. -/
inductive Denotes : List Piece → List Char → Prop where
  | nil : Denotes [] []
  | plain (c : Char) {ps : List Piece} {cs : List Char} (hps : Denotes ps cs) :
      Denotes (.plain c :: ps) (c :: cs)
  | unit {n : Nat} {ps : List Piece} {cs : List Char} (hn : ¬ (0xD800 ≤ n ∧ n < 0xE000))
      (hps : Denotes ps cs) : Denotes (.unit n :: ps) (Char.ofNat n :: cs)
  | pair {high low : Nat} {ps : List Piece} {cs : List Char}
      (hhigh : 0xD800 ≤ high ∧ high < 0xDC00) (hlow : 0xDC00 ≤ low ∧ low < 0xE000)
      (hps : Denotes ps cs) :
      Denotes (.unit high :: .unit low :: ps)
        (Char.ofNat (0x10000 + (high - 0xD800) * 0x400 + (low - 0xDC00)) :: cs)

/-- The string literals of a text, and those that have none. -/
inductive LiteralText : Option String → List Char → Prop where
  | valued {ps : List Piece} {body cs : List Char} (hbody : PiecesText ps body)
      (hps : Denotes ps cs) : LiteralText (some (String.ofList cs)) ('"' :: body ++ ['"'])
  | unpaired {ps : List Piece} {body : List Char} (hbody : PiecesText ps body)
      (hps : ∀ cs, ¬ Denotes ps cs) : LiteralText none ('"' :: body ++ ['"'])

/-- One or more digits. -/
structure AreDigits (ds : List Nat) : Prop where
  ne_nil : ds ≠ []
  lt_ten : ∀ d ∈ ds, d < 10

/-- The texts of the digits after the point. -/
inductive FractionText : List Nat → List Char → Prop where
  | none : FractionText [] []
  | some {ds : List Nat} (hds : AreDigits ds) : FractionText ds ('.' :: ds.map digitChar)

/-- The texts of an exponent. -/
inductive ExponentText : Option Int → List Char → Prop where
  | none : ExponentText none []
  | unsigned {e : Char} {ds : List Nat} (he : e = 'e' ∨ e = 'E') (hds : AreDigits ds) :
      ExponentText (some (value ds)) (e :: ds.map digitChar)
  | plus {e : Char} {ds : List Nat} (he : e = 'e' ∨ e = 'E') (hds : AreDigits ds) :
      ExponentText (some (value ds)) (e :: '+' :: ds.map digitChar)
  | minus {e : Char} {ds : List Nat} (he : e = 'e' ∨ e = 'E') (hds : AreDigits ds) :
      ExponentText (some (-(value ds : Int))) (e :: '-' :: ds.map digitChar)

/-- The texts of a numeral.  A zero in front is the only digit before the point. -/
inductive NumeralText : Numeral → List Char → Prop where
  | of_parts {negative : Bool} {whole fraction : List Nat} {x : Option Int}
      {point letter : List Char} (hwhole : AreDigits whole)
      (hzero : ∀ d ds, whole ≠ 0 :: d :: ds) (hfraction : FractionText fraction point)
      (hx : ExponentText x letter) :
      NumeralText ⟨negative, whole, fraction, x⟩
        ((if negative then ['-'] else []) ++ (whole.map digitChar ++ (point ++ letter)))

mutual

/-- The texts of a value, with no blanks around them. -/
inductive ValueText : Json → List Char → Prop where
  | null : ValueText null ['n', 'u', 'l', 'l']
  | true : ValueText (bool true) ['t', 'r', 'u', 'e']
  | false : ValueText (bool false) ['f', 'a', 'l', 's', 'e']
  | number {n : Numeral} {text : List Char} (hn : NumeralText n text) :
      ValueText (number n) text
  | string {s : String} {text : List Char} (hs : LiteralText (some s) text) :
      ValueText (string s) text
  | unpaired {text : List Char} (hs : LiteralText none text) : ValueText illFormed text
  | noItems {b : List Char} (hb : AreBlank b) : ValueText (array []) ('[' :: b ++ [']'])
  | array {js : List Json} {text : List Char} (hjs : ItemsText js text) :
      ValueText (array js) ('[' :: text ++ [']'])
  | noMembers {b : List Char} (hb : AreBlank b) : ValueText (object []) ('{' :: b ++ ['}'])
  | object {ms : List (Option String × Json)} {text : List Char} (hms : MembersText ms text) :
      ValueText (objectOf ms) ('{' :: text ++ ['}'])

/-- The JSON texts of a value. -/
inductive IsText : Json → List Char → Prop where
  | padded {j : Json} {b text b' : List Char} (hb : AreBlank b) (hj : ValueText j text)
      (hb' : AreBlank b') : IsText j (b ++ (text ++ b'))

/-- The texts of one or more items, with a comma between each two of them. -/
inductive ItemsText : List Json → List Char → Prop where
  | one {j : Json} {text : List Char} (hj : IsText j text) : ItemsText [j] text
  | cons {j : Json} {js : List Json} {text more : List Char} (hj : IsText j text)
      (hjs : ItemsText js more) : ItemsText (j :: js) (text ++ ',' :: more)

/-- The texts of one or more members, with a comma between each two of them. -/
inductive MembersText : List (Option String × Json) → List Char → Prop where
  | one {key : Option String} {j : Json} {b name b' text : List Char} (hb : AreBlank b)
      (hkey : LiteralText key name) (hb' : AreBlank b') (hj : IsText j text) :
      MembersText [(key, j)] (b ++ (name ++ (b' ++ ':' :: text)))
  | cons {key : Option String} {j : Json} {ms : List (Option String × Json)}
      {b name b' text more : List Char} (hb : AreBlank b) (hkey : LiteralText key name)
      (hb' : AreBlank b') (hj : IsText j text) (hms : MembersText ms more) :
      MembersText ((key, j) :: ms) (b ++ (name ++ (b' ++ ':' :: (text ++ ',' :: more))))

end

/-! ## Blanks -/

theorem skipBlanks_of_isBlank (hc : IsBlank c) (cs : List Char) :
    skipBlanks (c :: cs) = skipBlanks cs := by
  rw [skipBlanks]
  exact if_pos hc

theorem skipBlanks_cons (hc : ¬ IsBlank c) (cs : List Char) :
    skipBlanks (c :: cs) = c :: cs := by
  rw [skipBlanks]
  exact if_neg hc

theorem skipBlanks_append (hb : AreBlank b) (cs : List Char) :
    skipBlanks (b ++ cs) = skipBlanks cs := by
  induction b with
  | nil => rfl
  | cons c b ih =>
    rw [List.cons_append, skipBlanks_of_isBlank (hb c List.mem_cons_self)]
    exact ih fun d hd => hb d (List.mem_cons_of_mem _ hd)

theorem skipBlanks_append_cons (hb : AreBlank b) (hc : ¬ IsBlank c) (cs : List Char) :
    skipBlanks (b ++ c :: cs) = c :: cs := by
  rw [skipBlanks_append hb, skipBlanks_cons hc]

theorem skipBlanks_eq_nil (hb : AreBlank b) : skipBlanks b = [] := by
  rw [← List.append_nil b, skipBlanks_append hb]
  rfl

theorem exists_skipBlanks (cs : List Char) : ∃ b, AreBlank b ∧ cs = b ++ skipBlanks cs := by
  induction cs with
  | nil => exact ⟨[], nofun, rfl⟩
  | cons c cs ih =>
    by_cases hc : IsBlank c
    · obtain ⟨b, hb, hcs⟩ := ih
      refine ⟨c :: b, List.forall_mem_cons.2 ⟨hc, hb⟩, ?_⟩
      rw [skipBlanks_of_isBlank hc, List.cons_append, ← hcs]
    · exact ⟨[], nofun, (skipBlanks_cons hc cs).symm⟩

/-- What begins with a character after blanks. -/
theorem exists_of_skipBlanks (h : skipBlanks cs = c :: rest) :
    ∃ b, AreBlank b ∧ cs = b ++ c :: rest := by
  obtain ⟨b, hb, hcs⟩ := exists_skipBlanks cs
  exact ⟨b, hb, h ▸ hcs⟩

/-! ## Strings -/

/-- A UTF-16 unit is read from its four digits. -/
theorem pieces_unit {c₃ c₂ c₁ c₀ : Char} {d₃ d₂ d₁ d₀ : Nat} (h₃ : hexDigit? c₃ = some d₃)
    (h₂ : hexDigit? c₂ = some d₂) (h₁ : hexDigit? c₁ = some d₁) (h₀ : hexDigit? c₀ = some d₀)
    (cs : List Char) :
    pieces ('\\' :: 'u' :: c₃ :: c₂ :: c₁ :: c₀ :: cs) = (pieces cs).map fun (ps, rest) =>
      (.unit (((d₃ * 16 + d₂) * 16 + d₁) * 16 + d₀) :: ps, rest) := by
  rw [pieces, h₃, h₂, h₁, h₀]
  simp only [Option.bind_eq_bind, Option.bind_some]
  cases pieces cs <;> rfl

/-- A character that needs no escape is read as it stands. -/
theorem pieces_plain (hquote : c ≠ '"') (hbackslash : c ≠ '\\') (hcontrol : ¬ c.toNat < 32)
    (cs : List Char) :
    pieces (c :: cs) = (pieces cs).map fun (ps, rest) => (.plain c :: ps, rest) := by
  rw [pieces.eq_def]
  split
  next heq => cases heq
  next heq => exact absurd (List.cons.inj heq).1 hquote
  next heq => exact absurd (List.cons.inj heq).1 hbackslash
  next heq => exact absurd (List.cons.inj heq).1 hbackslash
  next heq =>
    cases heq
    rw [if_neg hcontrol]
    cases pieces cs <;> rfl

/-- A character with a short escape is read from that. -/
theorem pieces_short (he : shortEscape? e = some c) (cs : List Char) :
    pieces ('\\' :: e :: cs) = (pieces cs).map fun (ps, rest) => (.plain c :: ps, rest) := by
  have hunit : e ≠ 'u' := by
    rintro rfl
    cases he
  rw [pieces.eq_def]
  split
  next heq => cases heq
  next heq => exact absurd (List.cons.inj heq).1 (by decide)
  next heq => exact absurd (List.cons.inj (List.cons.inj heq).2).1 hunit
  next heq =>
    cases heq
    rw [he]
    cases pieces cs <;> rfl
  next hno heq =>
    cases heq
    exact absurd rfl (hno e cs rfl)

theorem pieces_pieceText (hp : PieceText p text) (cs : List Char) :
    pieces (text ++ cs) = (pieces cs).map fun (ps, rest) => (p :: ps, rest) := by
  cases hp with
  | plain hquote hbackslash hcontrol => exact pieces_plain hquote hbackslash hcontrol cs
  | short he => exact pieces_short he cs
  | unit h₃ h₂ h₁ h₀ => exact pieces_unit h₃ h₂ h₁ h₀ cs

/-- Up to the first quote that is not escaped stand the parts of a literal. -/
theorem pieces_eq_some_iff : pieces cs = some (ps, rest) ↔
    ∃ body, PiecesText ps body ∧ cs = body ++ '"' :: rest := by
  constructor
  · intro h
    fun_induction pieces cs generalizing ps rest with
    | case1 => cases h
    | case2 rest =>
      cases h
      exact ⟨[], .nil, rfl⟩
    | case3 c₃ c₂ c₁ c₀ more ih =>
      obtain ⟨d₃, h₃, h⟩ := Option.bind_eq_some_iff.1 h
      obtain ⟨d₂, h₂, h⟩ := Option.bind_eq_some_iff.1 h
      obtain ⟨d₁, h₁, h⟩ := Option.bind_eq_some_iff.1 h
      obtain ⟨d₀, h₀, h⟩ := Option.bind_eq_some_iff.1 h
      obtain ⟨⟨qs, after⟩, hmore, h⟩ := Option.bind_eq_some_iff.1 h
      cases h
      obtain ⟨body, hqs, rfl⟩ := ih hmore
      exact ⟨_, .cons (.unit h₃ h₂ h₁ h₀) hqs, rfl⟩
    | case4 e more _ ih =>
      obtain ⟨c, he, h⟩ := Option.bind_eq_some_iff.1 h
      obtain ⟨⟨qs, after⟩, hmore, h⟩ := Option.bind_eq_some_iff.1 h
      cases h
      obtain ⟨body, hqs, rfl⟩ := ih hmore
      exact ⟨_, .cons (.short he) hqs, rfl⟩
    | case5 => cases h
    | case6 c more hquote _ hescape hcontrol ih =>
      obtain ⟨⟨qs, after⟩, hmore, h⟩ := Option.bind_eq_some_iff.1 h
      cases h
      obtain ⟨body, hqs, rfl⟩ := ih hmore
      -- A backslash would have an escape after it, since something follows.
      have hbackslash : c ≠ '\\' := by
        rintro rfl
        obtain ⟨e, rest, hcons⟩ :=
          List.exists_cons_of_ne_nil
            (List.append_ne_nil_of_right_ne_nil body (List.cons_ne_nil _ _))
        exact hescape e rest rfl hcons
      exact ⟨_, .cons (.plain hquote hbackslash hcontrol) hqs, rfl⟩
  · rintro ⟨body, hps, rfl⟩
    induction hps with
    | nil => rw [List.nil_append, pieces]
    | cons hp hps ih => rw [List.append_assoc, pieces_pieceText hp, ih, Option.map_some]

/-- Parts are joined to what they stand for. -/
theorem assemble_eq_some_iff : assemble ps = some cs ↔ Denotes ps cs := by
  constructor
  · intro h
    fun_induction assemble ps generalizing cs with
    | case1 =>
      cases h
      exact .nil
    | case2 c qs ih =>
      obtain ⟨more, hqs, rfl⟩ := Option.map_eq_some_iff.1 h
      exact .plain c (ih hqs)
    | case3 high hhigh low qs hlow ih =>
      obtain ⟨more, hqs, rfl⟩ := Option.map_eq_some_iff.1 h
      exact .pair hhigh hlow (ih hqs)
    | case4 => cases h
    | case5 => cases h
    | case6 => cases h
    | case7 n qs hhigh hlow ih =>
      obtain ⟨more, hqs, rfl⟩ := Option.map_eq_some_iff.1 h
      exact .unit (by omega) (ih hqs)
  · intro h
    induction h with
    | nil => rw [assemble]
    | plain c hps ih => rw [assemble, ih, Option.map_some]
    | unit hn hps ih =>
      rw [assemble.eq_def]
      dsimp only
      rw [if_neg (by omega), if_neg (by omega), ih, Option.map_some]
    | pair hhigh hlow hps ih => rw [assemble, if_pos hhigh, if_pos hlow, ih, Option.map_some]

/-- The literals of a string are quoted parts that stand for it. -/
theorem literalText_iff {key : Option String} : LiteralText key text ↔
    ∃ ps body, PiecesText ps body ∧ stringOf ps = key ∧ text = '"' :: body ++ ['"'] := by
  constructor
  · rintro (⟨hbody, hps⟩ | ⟨hbody, hps⟩)
    · exact ⟨_, _, hbody, by rw [stringOf, assemble_eq_some_iff.2 hps, Option.map_some], rfl⟩
    · refine ⟨_, _, hbody, ?_, rfl⟩
      rw [stringOf, Option.map_eq_none_iff, Option.eq_none_iff_forall_ne_some]
      exact fun cs hcs => hps cs (assemble_eq_some_iff.1 hcs)
  · rintro ⟨ps, body, hbody, rfl, rfl⟩
    rw [stringOf]
    cases hps : assemble ps with
    | none =>
      refine .unpaired hbody fun cs hcs => ?_
      rw [assemble_eq_some_iff.2 hcs] at hps
      cases hps
    | some cs => exact .valued hbody (assemble_eq_some_iff.1 hps)

/-! ## Numerals -/

/-- A text after which a value ends: it goes on with a blank, or with what ends an item or a member,
if it goes on at all. -/
def Closes (cs : List Char) : Prop :=
  ∀ c rest, cs = c :: rest → IsBlank c ∨ c = ',' ∨ c = ']' ∨ c = '}'

theorem Closes.ne_of_cons (h : Closes (c :: rest))
    (hd : ¬ (IsBlank d ∨ d = ',' ∨ d = ']' ∨ d = '}')) : c ≠ d := by
  rintro rfl
  exact hd (h c rest rfl)

theorem Closes.noDigit (h : Closes rest) : NoDigit rest := by
  intro c more hcons
  rcases h c more hcons with (rfl | rfl | rfl | rfl) | rfl | rfl | rfl <;> rfl

theorem digitChar_ne : ∀ d < 10, ∀ c ∈ ['-', '+', '.', 'e', 'E'], digitChar d ≠ c := by
  have hmem : ∀ d < 10, digitChar d ∉ ['-', '+', '.', 'e', 'E'] := by decide
  rintro d hd _ hc rfl
  exact hmem d hd hc

/-- A run of digits is one or more digits, unless it is empty. -/
theorem areDigits_of_readDigits {ds : List Nat} (h : readDigits cs = (ds, rest)) (hne : ds ≠ []) :
    AreDigits ds ∧ cs = ds.map digitChar ++ rest := by
  obtain ⟨hds, hcs, -⟩ := Decimal.readDigits_eq_iff.1 h
  exact ⟨⟨hne, hds⟩, hcs⟩

theorem AreDigits.readDigits {ds : List Nat} (hds : AreDigits ds) (hrest : NoDigit rest) :
    ∃ d ds', ds = d :: ds' ∧
      Decimal.readDigits (ds.map digitChar ++ rest) = (d :: ds', rest) := by
  obtain ⟨d, ds', rfl⟩ := List.exists_cons_of_ne_nil hds.ne_nil
  exact ⟨d, ds', rfl, Decimal.readDigits_append hds.lt_ten hrest⟩

theorem exponentText_of_exponent {x : Option Int} (h : exponent cs = some (x, rest)) :
    ∃ text, ExponentText x text ∧ cs = text ++ rest := by
  unfold exponent at h
  split at h
  next e more =>
    split at h
    next he =>
      split at h
      next negative signless hsign =>
      split at h
      next => cases h
      next ds after hne hread =>
        cases h
        obtain ⟨hds, rfl⟩ := areDigits_of_readDigits hread hne
        split at hsign
        next =>
          cases hsign
          exact ⟨_, .minus he hds, rfl⟩
        next =>
          cases hsign
          exact ⟨_, .plus he hds, rfl⟩
        next =>
          cases hsign
          exact ⟨_, .unsigned he hds, rfl⟩
    next =>
      cases h
      exact ⟨[], .none, rfl⟩
  next =>
    cases h
    exact ⟨[], .none, rfl⟩

/-- The sign of an exponent is read before its digits. -/
theorem exponent_of_sign {ds : List Nat} (negative : Bool) (he : e = 'e' ∨ e = 'E')
    (hds : AreDigits ds) (hrest : NoDigit rest)
    (hsign : text = (if negative then ['-'] else ['+']) ∨ text = [] ∧ negative = false) :
    exponent (e :: (text ++ (ds.map digitChar ++ rest))) =
      some (some (if negative then -(value ds : Int) else value ds), rest) := by
  obtain ⟨d, ds', rfl, hread⟩ := hds.readDigits hrest
  have hd := digitChar_ne d (hds.lt_ten d List.mem_cons_self)
  unfold exponent
  refine (if_pos he).trans ?_
  split
  next _ negative' signless hsigned =>
  obtain ⟨rfl, rfl⟩ : negative' = negative ∧ signless = (d :: ds').map digitChar ++ rest := by
    rcases hsign with rfl | ⟨rfl, rfl⟩
    · cases negative <;> cases hsigned <;> exact ⟨rfl, rfl⟩
    · split at hsigned
      next heq => exact absurd (List.cons.inj heq).1 (hd _ (by decide))
      next heq => exact absurd (List.cons.inj heq).1 (hd _ (by decide))
      next =>
        cases hsigned
        exact ⟨rfl, rfl⟩
  rw [hread]

theorem exponent_of_exponentText {x : Option Int} (h : ExponentText x text)
    (hrest : Closes rest) : exponent (text ++ rest) = some (x, rest) := by
  cases h with
  | none =>
    rw [List.nil_append]
    cases rest with
    | nil => rfl
    | cons c rest =>
      have hc : ¬ (c = 'e' ∨ c = 'E') := by
        rintro (rfl | rfl)
        · exact hrest.ne_of_cons (by decide) rfl
        · exact hrest.ne_of_cons (by decide) rfl
      unfold exponent
      exact if_neg hc
  | unsigned he hds => exact exponent_of_sign false he hds hrest.noDigit (.inr ⟨rfl, rfl⟩)
  | plus he hds => exact exponent_of_sign false he hds hrest.noDigit (.inl rfl)
  | minus he hds => exact exponent_of_sign true he hds hrest.noDigit (.inl rfl)

theorem numeralText_of_numeral {x : Numeral} (h : numeral cs = some (x, rest)) :
    ∃ text, NumeralText x text ∧ cs = text ++ rest := by
  unfold numeral at h
  split at h
  next _ negative signless hsign =>
  simp only [Option.bind_eq_bind, Option.bind_none, Option.bind_some] at h
  split at h
  next => cases h
  next => cases h
  next whole after hne hzero hread =>
  obtain ⟨hwhole, hsignless⟩ := areDigits_of_readDigits hread hne
  have hcs : cs = (if negative then ['-'] else []) ++ signless := by
    split at hsign <;> cases hsign <;> rfl
  -- With or without a fraction, an exponent and the rest are left.
  have hparts {fraction : List Nat} {text after' : List Char}
      (hfraction : FractionText fraction text)
      (hafter : after = text ++ after')
      (h : ((exponent after').bind fun a => some (⟨negative, whole, fraction, a.1⟩, a.2)) =
        some (x, rest)) : ∃ text, NumeralText x text ∧ cs = text ++ rest := by
    obtain ⟨⟨value, after''⟩, hexponent, h⟩ := Option.bind_eq_some_iff.1 h
    cases h
    obtain ⟨text', hvalue, rfl⟩ := exponentText_of_exponent hexponent
    refine ⟨_, .of_parts hwhole (fun d ds => hzero d ds) hfraction hvalue, ?_⟩
    rw [hcs, hsignless, hafter]
    simp only [List.append_assoc]
  split at h
  next digits =>
    split at h
    next => cases h
    next fraction after' hne' hread' =>
      obtain ⟨hfraction, hdigits⟩ := areDigits_of_readDigits hread' hne'
      exact hparts (.some hfraction) (congrArg ('.' :: ·) hdigits) h
  next => exact hparts .none rfl h

/-- An exponent, and what follows a numeral, goes on with neither a digit nor a point. -/
theorem noDigit_of_exponentText {x : Option Int} (h : ExponentText x text)
    (hrest : Closes rest) : NoDigit (text ++ rest) ∧ ∀ more, text ++ rest ≠ '.' :: more := by
  have hletter : ∀ e, e = 'e' ∨ e = 'E' → digit? e = none ∧ e ≠ '.' := by
    rintro e (rfl | rfl) <;> decide
  cases h with
  | none =>
    refine ⟨hrest.noDigit, fun more hcons => ?_⟩
    exact (hcons ▸ hrest : Closes ('.' :: more)).ne_of_cons (by decide) rfl
  | unsigned he _ | plus he _ | minus he _ =>
    exact ⟨Decimal.noDigit_cons (hletter _ he).1,
      fun more hcons => (hletter _ he).2 (List.cons.inj hcons).1⟩

theorem numeral_of_numeralText {x : Numeral} (h : NumeralText x text) (hrest : Closes rest) :
    numeral (text ++ rest) = some (x, rest) := by
  cases h with
  | @of_parts negative whole fraction x point letter hwhole hzero hfraction hx =>
  obtain ⟨hdigit, hpoint⟩ := noDigit_of_exponentText hx hrest
  have hafter : NoDigit (point ++ (letter ++ rest)) := by
    cases hfraction with
    | none => exact hdigit
    | some => exact Decimal.noDigit_cons (by decide)
  have hread := Decimal.readDigits_append hwhole.lt_ten hafter
  unfold numeral
  split
  next _ negative' signless hsign =>
  obtain ⟨rfl, rfl⟩ : negative' = negative ∧
      signless = whole.map digitChar ++ (point ++ (letter ++ rest)) := by
    simp only [List.append_assoc] at hsign
    obtain ⟨d, ds, rfl⟩ := List.exists_cons_of_ne_nil hwhole.ne_nil
    have hd := digitChar_ne d (hwhole.lt_ten d List.mem_cons_self)
    cases negative with
    | false =>
      split at hsign
      next heq => exact absurd (List.cons.inj heq).1 (hd _ (by decide))
      next =>
        cases hsign
        exact ⟨rfl, rfl⟩
    | true =>
      cases hsign
      exact ⟨rfl, rfl⟩
  simp only [Option.bind_eq_bind, Option.bind_none, Option.bind_some]
  rw [hread]
  split
  next heq => exact absurd (Prod.mk.inj heq).1 hwhole.ne_nil
  next heq => exact absurd (Prod.mk.inj heq).1 (hzero _ _)
  next heq =>
  cases heq
  have hexponent := exponent_of_exponentText hx hrest
  cases hfraction with
  | none =>
    rw [List.nil_append]
    split
    next heq => exact absurd heq (hpoint _)
    next =>
      rw [hexponent]
      rfl
  | some hds =>
    obtain ⟨d, ds, rfl, hread'⟩ := hds.readDigits hdigit
    simp only [List.cons_append, hread', hexponent, Option.bind_some]

/-! ## Reading the texts of values -/

theorem closes_append (hb : AreBlank b) (hrest : Closes rest) : Closes (b ++ rest) := by
  cases b with
  | nil => exact hrest
  | cons c b =>
    rintro _ _ ⟨⟩
    exact .inl (hb c List.mem_cons_self)

theorem readValue_append (hb : AreBlank b) (n : Nat) (cs : List Char) :
    readValue n (b ++ cs) = readValue n cs := by
  cases n with
  | zero => rfl
  | succ n => rw [readValue, readValue, skipBlanks_append hb]

theorem readItems_append (hb : AreBlank b) (n : Nat) (cs : List Char) :
    readItems n (b ++ cs) = readItems n cs := by
  cases n with
  | zero => rfl
  | succ n => rw [readItems, readItems, readValue_append hb]

theorem readMembers_append (hb : AreBlank b) (n : Nat) (cs : List Char) :
    readMembers n (b ++ cs) = readMembers n cs := by
  cases n with
  | zero => rfl
  | succ n => rw [readMembers, readMembers, skipBlanks_append hb]

/-- A numeral begins with its sign or its first digit. -/
theorem exists_of_numeralText {x : Numeral} (h : NumeralText x text) :
    ∃ c more, text = c :: more ∧ (c = '-' ∨ ∃ d < 10, c = digitChar d) := by
  cases h with
  | @of_parts negative whole _ _ _ _ hwhole =>
  cases negative with
  | true => exact ⟨_, _, rfl, .inl rfl⟩
  | false =>
    obtain ⟨d, ds, rfl⟩ := List.exists_cons_of_ne_nil hwhole.ne_nil
    exact ⟨_, _, rfl, .inr ⟨d, hwhole.lt_ten d List.mem_cons_self, rfl⟩⟩

/-- The text of a value begins with a character that ends nothing. -/
theorem exists_of_valueText {j : Json} (h : ValueText j text) :
    ∃ c more, text = c :: more ∧ ¬ IsBlank c ∧ c ≠ ']' := by
  cases h with
  | null | true | false | noItems | array | noMembers | object =>
    exact ⟨_, _, rfl, by decide, by decide⟩
  | string hs | unpaired hs =>
    obtain ⟨ps, body, -, -, rfl⟩ := literalText_iff.1 hs
    exact ⟨_, _, rfl, by decide, by decide⟩
  | number hn =>
    have hdigit : ∀ d < 10, ¬ IsBlank (digitChar d) ∧ digitChar d ≠ ']' := by decide
    obtain ⟨c, more, rfl, rfl | ⟨d, hd, rfl⟩⟩ := exists_of_numeralText hn
    · exact ⟨_, _, rfl, by decide, by decide⟩
    · exact ⟨_, _, rfl, hdigit d hd⟩

/-- The text of items begins with one that is no end of an array. -/
theorem exists_of_itemsText {js : List Json} (h : ItemsText js text) :
    ∃ b c more, text = b ++ c :: more ∧ AreBlank b ∧ ¬ IsBlank c ∧ c ≠ ']' := by
  have hfirst : ∀ {j text}, IsText j text →
      ∃ b c more, text = b ++ c :: more ∧ AreBlank b ∧ ¬ IsBlank c ∧ c ≠ ']' := by
    rintro j _ ⟨hb, hj, -⟩
    obtain ⟨c, more, rfl, hc⟩ := exists_of_valueText hj
    exact ⟨_, c, _, rfl, hb, hc⟩
  cases h with
  | one hj => exact hfirst hj
  | cons hj =>
    obtain ⟨b, c, more, rfl, hc⟩ := hfirst hj
    exact ⟨b, c, _, by rw [List.append_assoc, List.cons_append], hc⟩

/-- The text of members begins with the quote of a key. -/
theorem exists_of_membersText {ms : List (Option String × Json)} (h : MembersText ms text) :
    ∃ b more, text = b ++ '"' :: more ∧ AreBlank b := by
  cases h with
  | one hb hkey | cons hb hkey =>
    obtain ⟨ps, body, -, -, rfl⟩ := literalText_iff.1 hkey
    exact ⟨_, _, rfl, hb⟩

/-- A literal is read up to its quote. -/
theorem pieces_of_literalText {key : Option String} (h : LiteralText key text) :
    ∃ body, text = '"' :: body ∧
      ∀ rest, ∃ ps, pieces (body ++ rest) = some (ps, rest) ∧ stringOf ps = key := by
  obtain ⟨ps, body, hps, hkey, rfl⟩ := literalText_iff.1 h
  refine ⟨body ++ ['"'], rfl, fun rest => ⟨ps, ?_, hkey⟩⟩
  exact pieces_eq_some_iff.2 ⟨body, hps, by rw [List.append_assoc, List.singleton_append]⟩

/-! What the reader does at the characters that decide. -/

theorem readValue_quote (n : Nat) (cs : List Char) :
    readValue (n + 1) ('"' :: cs) =
      (pieces cs).map fun (ps, rest) => ((stringOf ps).elim illFormed string, rest) := by
  show (pieces cs).bind _ = _
  cases pieces cs <;> rfl

theorem readValue_noItems (hcs : skipBlanks cs = ']' :: rest) (n : Nat) :
    readValue (n + 1) ('[' :: cs) = some (array [], rest) := by
  rw [readValue, skipBlanks_cons (by decide)]
  simp only [hcs]

theorem readValue_bracket (hcs : skipBlanks cs = c :: rest) (hc : c ≠ ']') (n : Nat) :
    readValue (n + 1) ('[' :: cs) =
      (readItems n (c :: rest)).map fun (items, rest) => (array items, rest) := by
  rw [readValue, skipBlanks_cons (by decide)]
  simp only [hcs]
  split
  next heq => exact absurd (List.cons.inj heq).1 hc
  next => rfl

theorem readValue_noMembers (hcs : skipBlanks cs = '}' :: rest) (n : Nat) :
    readValue (n + 1) ('{' :: cs) = some (object [], rest) := by
  rw [readValue, skipBlanks_cons (by decide)]
  simp only [hcs]

theorem readValue_brace (hcs : skipBlanks cs = '"' :: rest) (n : Nat) :
    readValue (n + 1) ('{' :: cs) =
      (readMembers n ('"' :: rest)).map fun (members, rest) => (objectOf members, rest) := by
  rw [readValue, skipBlanks_cons (by decide)]
  simp only [hcs]
  rfl

theorem readValue_numeral {x : Numeral} (hx : NumeralText x text) (hrest : Closes rest) (n : Nat) :
    readValue (n + 1) (text ++ rest) = some (number x, rest) := by
  obtain ⟨c, more, htext, hc⟩ := exists_of_numeralText hx
  have hdigit : ∀ d < 10, ¬ IsBlank (digitChar d) ∧
      digitChar d ∉ ['"', '[', '{', 'n', 't', 'f'] := by decide
  have hfirst : ¬ IsBlank c ∧ c ∉ ['"', '[', '{', 'n', 't', 'f'] := by
    rcases hc with rfl | ⟨d, hd, rfl⟩
    · decide
    · exact hdigit d hd
  have hcons : text ++ rest = c :: (more ++ rest) := by rw [htext, List.cons_append]
  rw [readValue, hcons, skipBlanks_cons hfirst.1, ← hcons]
  split
  case h_7 =>
    rw [numeral_of_numeralText hx hrest]
    rfl
  all_goals
    next heq =>
      rw [(List.cons.inj (hcons.symm.trans heq)).1] at hfirst
      exact absurd (by decide) hfirst.2

theorem readItems_of_bracket {j : Json} (hj : readValue n cs = some (j, more))
    (hmore : skipBlanks more = ']' :: rest) : readItems (n + 1) cs = some ([j], rest) := by
  rw [readItems, hj]
  simp only [Option.bind_eq_bind, Option.bind_some]
  rw [hmore]
  rfl

theorem readItems_of_comma {j : Json} (hj : readValue n cs = some (j, more))
    (hmore : skipBlanks more = ',' :: rest) :
    readItems (n + 1) cs = (readItems n rest).map fun (js, rest) => (j :: js, rest) := by
  rw [readItems, hj]
  simp only [Option.bind_eq_bind, Option.bind_some]
  rw [hmore]
  rfl

theorem readMembers_of_brace {j : Json} {after : List Char} (hcs : skipBlanks cs = '"' :: body)
    (hkey : pieces body = some (ps, after)) (hafter : skipBlanks after = ':' :: text)
    (hj : readValue n text = some (j, more)) (hmore : skipBlanks more = '}' :: rest) :
    readMembers (n + 1) cs = some ([(stringOf ps, j)], rest) := by
  rw [readMembers, hcs]
  simp only [Option.bind_eq_bind, hkey, Option.bind_some]
  rw [hafter]
  simp only [hj, Option.bind_some]
  rw [hmore]
  rfl

theorem readMembers_of_comma {j : Json} {after : List Char} (hcs : skipBlanks cs = '"' :: body)
    (hkey : pieces body = some (ps, after)) (hafter : skipBlanks after = ':' :: text)
    (hj : readValue n text = some (j, more)) (hmore : skipBlanks more = ',' :: rest) :
    readMembers (n + 1) cs =
      (readMembers n rest).map fun (ms, rest) => ((stringOf ps, j) :: ms, rest) := by
  rw [readMembers, hcs]
  simp only [Option.bind_eq_bind, hkey, Option.bind_some]
  rw [hafter]
  simp only [hj, Option.bind_some]
  rw [hmore]
  rfl

/-! ## Values, items and members together -/

/-- With this bound values are read from their texts, if the bound is at least as long. -/
def ReadsValues (n : Nat) : Prop :=
  ∀ {j : Json} {text rest : List Char}, ValueText j text → Closes rest → text.length ≤ n →
    readValue n (text ++ rest) = some (j, rest)

/-- With this bound the items of arrays are read from their texts, up to the bracket. -/
def ReadsItems (n : Nat) : Prop :=
  ∀ {js : List Json} {text : List Char}, ItemsText js text → text.length < n → ∀ rest,
    readItems n (text ++ ']' :: rest) = some (js, rest)

/-- With this bound the members of objects are read from their texts, up to the brace. -/
def ReadsMembers (n : Nat) : Prop :=
  ∀ {ms : List (Option String × Json)} {text : List Char}, MembersText ms text →
    text.length < n → ∀ rest, readMembers n (text ++ '}' :: rest) = some (ms, rest)

/-- A text of a value is read up to the character that ends it, but for blanks. -/
theorem ReadsValues.isText (h : ReadsValues n) {j : Json} (hj : IsText j text)
    (hn : text.length ≤ n) (hc : c = ',' ∨ c = ']' ∨ c = '}') (rest : List Char) :
    ∃ more, readValue n (text ++ c :: rest) = some (j, more) ∧ skipBlanks more = c :: rest := by
  obtain @⟨_, b, text, b', hb, hj, hb'⟩ := hj
  have hclose : Closes (c :: rest) := by
    rintro _ _ ⟨⟩
    exact .inr hc
  have hblank : ¬ IsBlank c := by
    rcases hc with rfl | rfl | rfl <;> decide
  refine ⟨b' ++ c :: rest, ?_, skipBlanks_append_cons hb' hblank rest⟩
  rw [List.length_append, List.length_append] at hn
  rw [List.append_assoc, List.append_assoc, readValue_append hb]
  exact h hj (closes_append hb' hclose) (by omega)

theorem readsValues_succ (hitems : ReadsItems n) (hmembers : ReadsMembers n) :
    ReadsValues (n + 1) := by
  intro j text rest hj hrest hn
  cases hj with
  | null | true | false => rfl
  | number hx => exact readValue_numeral hx hrest n
  | string hs | unpaired hs =>
    obtain ⟨body, rfl, hread⟩ := pieces_of_literalText hs
    obtain ⟨ps, hpieces, hps⟩ := hread rest
    rw [List.cons_append, readValue_quote, hpieces, Option.map_some]
    simp only [hps, Option.elim_some, Option.elim_none]
  | @noItems b hb =>
    rw [List.cons_append, List.cons_append, List.append_assoc]
    exact readValue_noItems (skipBlanks_append_cons hb (by decide) rest) n
  | @array js text hjs =>
    obtain ⟨b, c, more, htext, hb, hblank, hc⟩ := exists_of_itemsText hjs
    have hread := hitems hjs (by simp at hn; omega) rest
    have hskip : skipBlanks (text ++ ']' :: rest) = c :: (more ++ ']' :: rest) := by
      rw [htext, List.append_assoc, List.cons_append, skipBlanks_append_cons hb hblank]
    rw [htext, List.append_assoc, readItems_append hb, List.cons_append] at hread
    rw [List.cons_append, List.cons_append, List.append_assoc, List.singleton_append,
      readValue_bracket hskip hc, hread, Option.map_some]
  | @noMembers b hb =>
    rw [List.cons_append, List.cons_append, List.append_assoc]
    exact readValue_noMembers (skipBlanks_append_cons hb (by decide) rest) n
  | @object ms text hms =>
    obtain ⟨b, more, htext, hb⟩ := exists_of_membersText hms
    have hread := hmembers hms (by simp at hn; omega) rest
    have hskip : skipBlanks (text ++ '}' :: rest) = '"' :: (more ++ '}' :: rest) := by
      rw [htext, List.append_assoc, List.cons_append, skipBlanks_append_cons hb (by decide)]
    rw [htext, List.append_assoc, readMembers_append hb, List.cons_append] at hread
    rw [List.cons_append, List.cons_append, List.append_assoc, List.singleton_append,
      readValue_brace hskip, hread, Option.map_some]

theorem readsItems_succ (hvalues : ReadsValues n) (hitems : ReadsItems n) :
    ReadsItems (n + 1) := by
  intro js text hjs hn rest
  cases hjs with
  | one hj =>
    obtain ⟨more, hread, hmore⟩ := hvalues.isText hj (by omega) (.inr (.inl rfl)) rest
    exact readItems_of_bracket hread hmore
  | @cons j js text more hj hjs =>
    rw [List.length_append, List.length_cons] at hn
    obtain ⟨after, hread, hafter⟩ :=
      hvalues.isText hj (by omega) (.inl rfl) (more ++ ']' :: rest)
    rw [List.append_assoc, List.cons_append, readItems_of_comma hread hafter,
      hitems hjs (by omega), Option.map_some]

theorem readsMembers_succ (hvalues : ReadsValues n) (hmembers : ReadsMembers n) :
    ReadsMembers (n + 1) := by
  intro ms text hms hn rest
  cases hms with
  | @one key j b name b' text hb hkey hb' hj =>
    obtain ⟨body, rfl, hpieces⟩ := pieces_of_literalText hkey
    obtain ⟨ps, hps, rfl⟩ := hpieces (b' ++ ':' :: (text ++ '}' :: rest))
    simp only [List.length_append, List.length_cons] at hn
    obtain ⟨more, hread, hmore⟩ := hvalues.isText hj (by omega) (.inr (.inr rfl)) rest
    simp only [List.append_assoc, List.cons_append]
    exact readMembers_of_brace (skipBlanks_append_cons hb (by decide) _) hps
      (skipBlanks_append_cons hb' (by decide) _) hread hmore
  | @cons key j ms b name b' text text' hb hkey hb' hj hms =>
    obtain ⟨body, rfl, hpieces⟩ := pieces_of_literalText hkey
    obtain ⟨ps, hps, rfl⟩ := hpieces (b' ++ ':' :: (text ++ ',' :: (text' ++ '}' :: rest)))
    simp only [List.length_append, List.length_cons] at hn
    obtain ⟨more, hread, hmore⟩ := hvalues.isText hj (by omega) (.inl rfl) (text' ++ '}' :: rest)
    simp only [List.append_assoc, List.cons_append]
    rw [readMembers_of_comma (skipBlanks_append_cons hb (by decide) _) hps
      (skipBlanks_append_cons hb' (by decide) _) hread hmore, hmembers hms (by omega),
      Option.map_some]

/-- The readers take their bound down by one at every step, and every step takes a character. -/
theorem reads (n : Nat) : ReadsValues n ∧ ReadsItems n ∧ ReadsMembers n := by
  induction n with
  | zero =>
    refine ⟨fun hj _ hn => ?_, fun _ hn => absurd hn (Nat.not_lt_zero _),
      fun _ hn => absurd hn (Nat.not_lt_zero _)⟩
    obtain ⟨c, more, rfl, -⟩ := exists_of_valueText hj
    exact absurd hn (Nat.not_succ_le_zero _)
  | succ n ih =>
    obtain ⟨hvalues, hitems, hmembers⟩ := ih
    exact ⟨readsValues_succ hitems hmembers, readsItems_succ hvalues hitems,
      readsMembers_succ hvalues hmembers⟩

/-- A JSON text is read as its value. -/
theorem parseChars?_of_isText {j : Json} (hj : IsText j text) : parseChars? text = some j := by
  obtain @⟨_, b, text, b', hb, hj, hb'⟩ := hj
  have hread : readValue (2 * (b ++ (text ++ b')).length + 2) (b ++ (text ++ b')) =
      some (j, b') := by
    rw [readValue_append hb]
    refine (reads _).1 hj (fun c rest hcons => .inl (hb' c ?_)) ?_
    · rw [hcons]
      exact List.mem_cons_self
    · simp only [List.length_append]
      omega
  rw [parseChars?, hread]
  simp only [Option.bind_eq_bind, Option.bind_some]
  rw [skipBlanks_eq_nil hb']
  rfl

/-! ## What is read is a text of the value -/

/-- With this bound nothing is read but the texts of values. -/
def SoundValues (n : Nat) : Prop :=
  ∀ {cs : List Char} {j : Json} {rest : List Char}, readValue n cs = some (j, rest) →
    ∃ b text, AreBlank b ∧ ValueText j text ∧ cs = b ++ (text ++ rest)

/-- With this bound nothing is read but the texts of items, up to the bracket. -/
def SoundItems (n : Nat) : Prop :=
  ∀ {cs : List Char} {js : List Json} {rest : List Char}, readItems n cs = some (js, rest) →
    ∃ text, ItemsText js text ∧ cs = text ++ ']' :: rest

/-- With this bound nothing is read but the texts of members, up to the brace. -/
def SoundMembers (n : Nat) : Prop :=
  ∀ {cs : List Char} {ms : List (Option String × Json)} {rest : List Char},
    readMembers n cs = some (ms, rest) → ∃ text, MembersText ms text ∧ cs = text ++ '}' :: rest

/-- A literal is what was read up to its quote. -/
theorem exists_of_pieces (h : pieces cs = some (ps, rest)) :
    ∃ body, LiteralText (stringOf ps) ('"' :: body) ∧ cs = body ++ rest := by
  obtain ⟨body, hps, rfl⟩ := pieces_eq_some_iff.1 h
  exact ⟨body ++ ['"'], literalText_iff.2 ⟨ps, body, hps, rfl, rfl⟩,
    by rw [List.append_assoc, List.singleton_append]⟩

theorem soundValues_succ (hitems : SoundItems n) (hmembers : SoundMembers n) :
    SoundValues (n + 1) := by
  intro cs j rest h
  suffices ∃ text, ValueText j text ∧ skipBlanks cs = text ++ rest by
    obtain ⟨text, hj, htext⟩ := this
    obtain ⟨b, hb, hcs⟩ := exists_skipBlanks cs
    exact ⟨b, text, hb, hj, htext ▸ hcs⟩
  rw [readValue] at h
  split at h
  next after heq =>
    obtain ⟨⟨ps, after'⟩, hps, h⟩ := Option.bind_eq_some_iff.1 h
    cases h
    obtain ⟨body, hliteral, rfl⟩ := exists_of_pieces hps
    refine ⟨'"' :: body, ?_, heq⟩
    cases hkey : stringOf ps with
    | none => exact .unpaired (hkey ▸ hliteral)
    | some s => exact .string (hkey ▸ hliteral)
  next after heq =>
    split at h
    next after' hend =>
      cases h
      obtain ⟨b, hb, rfl⟩ := exists_of_skipBlanks hend
      exact ⟨_, .noItems hb, by simp [heq]⟩
    next =>
      obtain ⟨⟨js, after'⟩, hread, h⟩ := Option.map_eq_some_iff.1 h
      cases h
      obtain ⟨b, hb, hafter⟩ := exists_skipBlanks after
      rw [← readItems_append hb, ← hafter] at hread
      obtain ⟨text, hjs, rfl⟩ := hitems hread
      exact ⟨_, .array hjs, by simp [heq]⟩
  next after heq =>
    split at h
    next after' hend =>
      cases h
      obtain ⟨b, hb, rfl⟩ := exists_of_skipBlanks hend
      exact ⟨_, .noMembers hb, by simp [heq]⟩
    next =>
      obtain ⟨⟨ms, after'⟩, hread, h⟩ := Option.map_eq_some_iff.1 h
      cases h
      obtain ⟨b, hb, hafter⟩ := exists_skipBlanks after
      rw [← readMembers_append hb, ← hafter] at hread
      obtain ⟨text, hms, rfl⟩ := hmembers hread
      exact ⟨_, .object hms, by simp [heq]⟩
  next after heq =>
    cases h
    exact ⟨_, .null, heq⟩
  next after heq =>
    cases h
    exact ⟨_, .true, heq⟩
  next after heq =>
    cases h
    exact ⟨_, .false, heq⟩
  next =>
    obtain ⟨⟨x, after⟩, hx, h⟩ := Option.map_eq_some_iff.1 h
    cases h
    obtain ⟨text, hx, htext⟩ := numeralText_of_numeral hx
    exact ⟨text, .number hx, htext⟩

/-- A value that is read, up to a character that follows it after blanks. -/
theorem SoundValues.isText (h : SoundValues n) {j : Json} (hread : readValue n cs = some (j, more))
    (hmore : skipBlanks more = c :: rest) : ∃ text, IsText j text ∧ cs = text ++ c :: rest := by
  obtain ⟨b, text, hb, hj, rfl⟩ := h hread
  obtain ⟨b', hb', rfl⟩ := exists_of_skipBlanks hmore
  exact ⟨_, .padded hb hj hb', by simp only [List.append_assoc]⟩

theorem soundItems_succ (hvalues : SoundValues n) (hitems : SoundItems n) :
    SoundItems (n + 1) := by
  intro cs js rest h
  rw [readItems] at h
  obtain ⟨⟨j, more⟩, hread, h⟩ := Option.bind_eq_some_iff.1 h
  dsimp only at h
  split at h
  next after hcomma =>
    obtain ⟨⟨js', after'⟩, hread', h⟩ := Option.map_eq_some_iff.1 h
    cases h
    obtain ⟨text, hj, rfl⟩ := hvalues.isText hread hcomma
    obtain ⟨text', hjs, rfl⟩ := hitems hread'
    exact ⟨_, .cons hj hjs, by simp only [List.append_assoc, List.cons_append]⟩
  next after hend =>
    cases h
    obtain ⟨text, hj, rfl⟩ := hvalues.isText hread hend
    exact ⟨_, .one hj, rfl⟩
  next => cases h

theorem soundMembers_succ (hvalues : SoundValues n) (hmembers : SoundMembers n) :
    SoundMembers (n + 1) := by
  intro cs ms rest h
  rw [readMembers] at h
  split at h
  next body hquote =>
    obtain ⟨⟨ps, after⟩, hps, h⟩ := Option.bind_eq_some_iff.1 h
    dsimp only at h
    split at h
    next text hcolon =>
      obtain ⟨⟨j, more⟩, hread, h⟩ := Option.bind_eq_some_iff.1 h
      obtain ⟨b, hb, hcs⟩ := exists_of_skipBlanks hquote
      obtain ⟨name, hkey, hbody⟩ := exists_of_pieces hps
      obtain ⟨b', hb', hafter⟩ := exists_of_skipBlanks hcolon
      rw [hbody, hafter] at hcs
      dsimp only at h
      split at h
      next after' hcomma =>
        obtain ⟨⟨ms', after''⟩, hread', h⟩ := Option.map_eq_some_iff.1 h
        cases h
        obtain ⟨text', hj, rfl⟩ := hvalues.isText hread hcomma
        obtain ⟨text'', hms, rfl⟩ := hmembers hread'
        exact ⟨_, .cons hb hkey hb' hj hms,
          by simp only [hcs, List.append_assoc, List.cons_append]⟩
      next after' hend =>
        cases h
        obtain ⟨text', hj, rfl⟩ := hvalues.isText hread hend
        exact ⟨_, .one hb hkey hb' hj, by simp only [hcs, List.append_assoc, List.cons_append]⟩
      next => cases h
    next => cases h
  next => cases h

theorem sound (n : Nat) : SoundValues n ∧ SoundItems n ∧ SoundMembers n := by
  induction n with
  | zero => exact ⟨nofun, nofun, nofun⟩
  | succ n ih =>
    obtain ⟨hvalues, hitems, hmembers⟩ := ih
    exact ⟨soundValues_succ hitems hmembers, soundItems_succ hvalues hitems,
      soundMembers_succ hvalues hmembers⟩

/-- **JSON texts.**  The texts of a value are read as that value, and nothing else is. -/
theorem parse?_eq_some_iff {s : String} {j : Json} : parse? s = some j ↔ IsText j s.toList := by
  refine ⟨fun h => ?_, parseChars?_of_isText⟩
  obtain ⟨⟨j', rest⟩, hread, h⟩ := Option.bind_eq_some_iff.1 h
  dsimp only at h
  split at h
  next hend =>
    cases h
    obtain ⟨b, text, hb, hj, hs⟩ := (sound _).1 hread
    obtain ⟨b', hb', hrest⟩ := exists_skipBlanks rest
    rw [List.isEmpty_iff.1 hend, List.append_nil] at hrest
    rw [hs]
    exact .padded hb hj (hrest ▸ hb')
  next => cases h

end ImagePipeline.Json
