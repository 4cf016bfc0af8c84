import ImagePipeline.Yaml.Token
import Mathlib.Data.List.Forall2

/-!
# Texts on one line

On one line of a document, a text is written in one of three ways: as it is, in single quotes, or
in double quotes.  Which characters write which text is said here without reading any.  A text that
is written as it is consists of words: a colon does not end one, the sign of a comment does not
begin one behind a blank, and few characters can begin the first.

* `AreWords`, `PieceText`: the two parts of the grammar that need saying.
* `IsWritten`: the characters that write a text.
* `readSingle_append`, `readDouble_append`, `readPlain_append`: what is read of them.
-/

namespace ImagePipeline.Yaml

variable {c : Char} {after blanks cs rest text w : List Char} {pieces : List (List Char)}
  {l : Lines} {column fuel indent : Nat}

/-! ## The grammar -/

/-- The characters that stand for something else where a text could begin. -/
def indicators : List Char := "-?:,[]\x7b\x7d#&*!|>'\"%@`".toList

/-- Some characters, no blanks among them, which a colon does not end. -/
structure IsWord (cs : List Char) : Prop where
  ne_nil : cs ≠ []
  ink : ∀ c ∈ cs, isInk c = true
  noColon : cs.getLast? ≠ some ':'

/-- Some blanks, or none. -/
def AreBlank (cs : List Char) : Prop := ∀ c ∈ cs, isBlank c = true

/-- Words with blanks between them. -/
inductive AreWords : List Char → Prop where
  | word {w : List Char} (hw : IsWord w) : AreWords w
  | cons {w blanks cs : List Char} (hw : IsWord w) (hblanks : AreBlank blanks) (hne : blanks ≠ [])
      (hcs : AreWords cs) (hcomment : cs.head? ≠ some '#') : AreWords (w ++ (blanks ++ cs))

/-- Characters with which a text can begin that is written as it is.  Three of the indicators can
begin a text, if no blank follows. -/
def BeginsPlain : List Char → Prop
  | [] => False
  | c :: cs => isByteOrderMark c = false ∧
      (c ∉ indicators ∨ (c ∈ ['-', '?', ':'] ∧ blankAhead cs = false))

/-- A character in single quotes. -/
def inSingle (c : Char) : List Char := if c = '\'' then ['\'', '\''] else [c]

/-- The characters that write one character in double quotes: itself, a backslash and a letter for
it, or a backslash and its code. -/
inductive PieceText : Char → List Char → Prop where
  | plain {c : Char} (hquote : c ≠ '"') (hbackslash : c ≠ '\\') (hbreak : isBreak c = false) :
      PieceText c [c]
  | short {c e : Char} (he : shortEscape? e = some c) : PieceText c ['\\', e]
  | code {c mark : Char} {n : Nat} {ds : List Char}
      (hmark : (mark, n) ∈ [('x', 2), ('u', 4), ('U', 8)]) (hds : ds.length = n)
      (hc : hexChar? ds = some c) : PieceText c ('\\' :: mark :: ds)

/-- The characters that write a text on one line. -/
inductive IsWritten : List Char → List Char → Prop where
  | plain {cs : List Char} (hbegins : BeginsPlain cs) (hwords : AreWords cs) : IsWritten cs cs
  | single {text : List Char} (hbreak : ∀ c ∈ text, isBreak c = false) :
      IsWritten text ('\'' :: (text.flatMap inSingle ++ ['\'']))
  | double {text : List Char} {pieces : List (List Char)}
      (hpieces : List.Forall₂ PieceText text pieces) :
      IsWritten text ('"' :: (pieces.flatten ++ ['"']))

/-! ## Texts as far as they are read -/

namespace Lines

@[simp] theorem joined_push (l : Lines) (c : Char) : (l.push c).joined = c :: l.joined := rfl

@[simp] theorem broken_push (l : Lines) (c : Char) : (l.push c).broken = false := rfl

theorem joined_pushGap (hl : l.broken = false) (hc : isBreak c = false) :
    (l.pushGap c).joined = c :: l.joined := by
  rcases l with ⟨text, gap⟩
  cases gap with
  | blanks blanks => simp only [pushGap, hc, joined, List.cons_append]
  | breaks first more => cases hl

theorem broken_pushGap (hl : l.broken = false) (hc : isBreak c = false) :
    (l.pushGap c).broken = false := by
  rcases l with ⟨text, gap⟩
  cases gap with
  | blanks blanks => simp only [pushGap, hc, broken]
  | breaks first more => cases hl

@[simp] theorem text_pushGap (l : Lines) (c : Char) : (l.pushGap c).text = l.text := rfl

/-- A line break stays one, whatever blanks and breaks follow. -/
theorem broken_pushGap_of_broken (h : l.broken = true ∨ isBreak c = true) :
    (l.pushGap c).broken = true := by
  rcases l with ⟨text, gap⟩
  cases gap with
  | blanks blanks =>
    have hc : isBreak c = true := h.resolve_left (by simp [broken])
    simp only [pushGap, hc, broken]
  | breaks first more => cases hc : isBreak c <;> simp only [pushGap, hc, broken]

end Lines

theorem isBreak_of_isInk (hc : isInk c = true) : isBreak c = false := by
  unfold isInk at hc
  rw [Bool.and_eq_true, Bool.not_eq_true', Bool.not_eq_true'] at hc
  exact hc.2

theorem isBreak_of_isBlank (hc : isBlank c = true) : isBreak c = false := by
  unfold isBlank at hc
  rw [Bool.or_eq_true, decide_eq_true_iff, decide_eq_true_iff] at hc
  rcases hc with rfl | rfl <;> rfl

theorem isInk_of_isBlank (hc : isBlank c = true) : isInk c = false := by
  rw [isInk, hc]
  rfl

/-! ## Quoted texts -/

/-- A character in quotes goes to the text, be it a blank or not. -/
theorem push_or_pushGap (hl : l.broken = false) (hc : isBreak c = false) :
    ∃ l' : Lines, (if isInk c then l.push c else l.pushGap c) = l' ∧ l'.broken = false ∧
      l'.joined = c :: l.joined := by
  split
  · exact ⟨_, rfl, rfl, rfl⟩
  · exact ⟨_, rfl, Lines.broken_pushGap hl hc, Lines.joined_pushGap hl hc⟩

theorem readSingle_quote (hrest : rest.head? ≠ some '\'') :
    readSingle l ('\'' :: rest) = .ok (l.quotedText, rest) := by
  rw [readSingle]
  rintro cs rfl
  exact hrest rfl

theorem readSingle_char (hc : c ≠ '\'') (hbreak : isBreak c = false) :
    readSingle l (c :: cs) = readSingle (if isInk c then l.push c else l.pushGap c) cs := by
  rw [readSingle]
  · rw [if_neg (by simp [hbreak])]
    split <;> rfl
  · rintro cs' rfl
    exact absurd rfl hc
  · rintro rfl
    exact hc rfl

theorem readSingle_append (hbreak : ∀ c ∈ text, isBreak c = false) (hl : l.broken = false)
    (hrest : rest.head? ≠ some '\'') :
    readSingle l (text.flatMap inSingle ++ '\'' :: rest) =
      .ok (String.ofList (l.joined.reverse ++ text), rest) := by
  induction text generalizing l with
  | nil =>
    rw [List.flatMap_nil, List.nil_append, readSingle_quote hrest, List.append_nil]
    rfl
  | cons c text ih =>
    have hc := hbreak c List.mem_cons_self
    have ih := @ih
    rw [List.flatMap_cons, List.append_assoc, inSingle]
    by_cases hquote : c = '\''
    · rw [if_pos hquote, hquote]
      rw [List.cons_append, List.cons_append, List.nil_append, readSingle,
        ih (fun d hd => hbreak d (List.mem_cons_of_mem c hd)) rfl, Lines.joined_push,
        List.reverse_cons, List.append_assoc, List.singleton_append]
    · obtain ⟨l', hl', hbroken, hjoined⟩ := push_or_pushGap hl hc
      rw [if_neg hquote, List.singleton_append, readSingle_char hquote hc, hl',
        ih (fun d hd => hbreak d (List.mem_cons_of_mem c hd)) hbroken, hjoined,
        List.reverse_cons, List.append_assoc, List.singleton_append]

theorem readDouble_char (hquote : c ≠ '"') (hbackslash : c ≠ '\\') (hbreak : isBreak c = false) :
    readDouble l (c :: cs) = readDouble (if isInk c then l.push c else l.pushGap c) cs := by
  rw [readDouble]
  · rw [if_neg (by simp [hbreak])]
    split <;> rfl
  all_goals
    intros
    first | exact hquote ‹_› | exact hbackslash ‹_›

theorem shortEscape?_of_isBreak (hc : isBreak c = true) : shortEscape? c = none := by
  unfold isBreak at hc
  rw [Bool.or_eq_true, Bool.or_eq_true, decide_eq_true_iff, decide_eq_true_iff,
    decide_eq_true_iff] at hc
  rcases hc with (rfl | hc) | hc
  · rfl
  · rw [← Char.ofNat_toNat c, hc]
    rfl
  · rw [← Char.ofNat_toNat c, hc]
    rfl

theorem readDouble_short {e : Char} (he : shortEscape? e = some c) :
    readDouble l ('\\' :: e :: cs) = readDouble (l.push c) cs := by
  have hbreak : ¬ isBreak e = true := fun h => by
    rw [shortEscape?_of_isBreak h] at he
    cases he
  rw [readDouble]
  · rw [if_neg hbreak, he]
  all_goals
    intros
    rename_i hletter _
    rw [hletter] at he
    cases he

theorem readDouble_code {mark : Char} {n : Nat} {ds : List Char}
    (hmark : (mark, n) ∈ [('x', 2), ('u', 4), ('U', 8)]) (hds : ds.length = n)
    (hc : hexChar? ds = some c) :
    readDouble l ('\\' :: mark :: (ds ++ cs)) = readDouble (l.push c) cs := by
  simp only [List.mem_cons, Prod.mk.injEq, List.not_mem_nil, or_false] at hmark
  rcases hmark with ⟨rfl, rfl⟩ | ⟨rfl, rfl⟩ | ⟨rfl, rfl⟩
  · obtain ⟨a, b, rfl⟩ := List.length_eq_two.1 hds
    rw [List.cons_append, List.cons_append, List.nil_append, readDouble, hc]
  · match ds, hds with
    | [d₃, d₂, d₁, d₀], _ => 
      rw [List.cons_append, List.cons_append, List.cons_append, List.cons_append, List.nil_append,
        readDouble, hc]
  · match ds, hds with
    | [d₇, d₆, d₅, d₄, d₃, d₂, d₁, d₀], _ => 
      simp only [List.cons_append, List.nil_append]
      rw [readDouble, hc]

/-- One character more, however it is written. -/
theorem readDouble_piece {piece : List Char} (hpiece : PieceText c piece)
    (hl : l.broken = false) :
    ∃ l' : Lines, l'.broken = false ∧ l'.joined = c :: l.joined ∧
      ∀ cs, readDouble l (piece ++ cs) = readDouble l' cs := by
  cases hpiece with
  | plain hquote hbackslash hbreak =>
    obtain ⟨l', hl', hbroken, hjoined⟩ := push_or_pushGap hl hbreak
    refine ⟨l', hbroken, hjoined, fun cs => ?_⟩
    rw [List.singleton_append, readDouble_char hquote hbackslash hbreak, hl']
  | short he => exact ⟨l.push c, rfl, rfl, fun cs => readDouble_short he⟩
  | code hmark hds hc => exact ⟨l.push c, rfl, rfl, fun cs => readDouble_code hmark hds hc⟩

theorem readDouble_append (hpieces : List.Forall₂ PieceText text pieces)
    (hl : l.broken = false) :
    readDouble l (pieces.flatten ++ '"' :: rest) =
      .ok (String.ofList (l.joined.reverse ++ text), rest) := by
  induction hpieces generalizing l with
  | nil =>
    rw [List.flatten_nil, List.nil_append, readDouble, List.append_nil]
    rfl
  | @cons c piece text pieces hpiece _ ih =>
    obtain ⟨l', hbroken, hjoined, hread⟩ := readDouble_piece hpiece hl
    rw [List.flatten_cons, List.append_assoc, hread, ih hbroken, hjoined, List.reverse_cons,
      List.append_assoc, List.singleton_append]

/-! ## Texts as they are -/

/-- Where a word ends: at a blank or a line break, with the text, or at the colon of a key. -/
def EndsWord (after : List Char) : Prop :=
  blankAhead after = true ∨ ∃ cs, after = ':' :: cs ∧ blankAhead cs = true

theorem readPart_end (h : EndsWord after) : readPart false l after = .ok (l, after) := by
  rcases h with h | ⟨cs, rfl, hcs⟩
  · cases after with
    | nil => rfl
    | cons c cs =>
      rw [readPart]
      exact if_pos h
  · rw [readPart, if_neg (by decide), if_neg (by simp), if_pos (.inl ⟨rfl, hcs⟩)]

theorem readPart_append (hink : ∀ c ∈ w, isInk c = true) (hcolon : w.getLast? ≠ some ':')
    (hafter : EndsWord after) :
    readPart false l (w ++ after) = .ok (w.foldl .push l, after) := by
  induction w generalizing l with
  | nil => exact readPart_end hafter
  | cons c w ih =>
    have hc := hink c List.mem_cons_self
    have hw : ∀ d ∈ w, isInk d = true := fun d hd => hink d (List.mem_cons_of_mem c hd)
    have hmark : ¬ ((c = ':' ∧ blankAhead (w ++ after) = true) ∨
        (false = true ∧ isBracketMark c = true)) := by
      rintro (⟨rfl, hblank⟩ | ⟨h, -⟩)
      · cases w with
        | nil => exact hcolon rfl
        | cons d w =>
          rw [List.cons_append, blankAhead, hw d List.mem_cons_self] at hblank
          cases hblank
      · cases h
    rw [List.cons_append, readPart, if_neg (by simp [hc]), if_neg (by simp), if_neg hmark,
      ih hw, List.foldl_cons]
    cases w with
    | nil => nofun
    | cons d w => rwa [List.getLast?_cons_cons] at hcolon

theorem joined_foldl_push (w : List Char) (l : Lines) :
    (w.foldl Lines.push l).joined = w.reverse ++ l.joined := by
  induction w generalizing l with
  | nil => rfl
  | cons c w ih => rw [List.foldl_cons, ih, Lines.joined_push, List.reverse_cons, List.append_assoc,
      List.singleton_append]

/-- Behind a word there is no gap. -/
theorem gap_foldl_push (hne : w ≠ []) (l : Lines) : (w.foldl Lines.push l).gap = .blanks [] := by
  obtain ⟨front, c, rfl⟩ := (List.eq_nil_or_concat w).resolve_left hne
  rw [List.concat_eq_append, List.foldl_concat]
  rfl

theorem joined_eq_text (hgap : l.gap = .blanks []) : l.joined = l.text := by
  rw [Lines.joined, hgap]
  rfl

theorem broken_of_gap (hgap : l.gap = .blanks blanks) : l.broken = false := by
  rw [Lines.broken, hgap]

/-- The blanks between two words. -/
theorem readGap_append (indent column : Nat) (hblanks : AreBlank blanks)
    (hcs : blankAhead cs = false) (hl : l.broken = false) :
    ∃ l' : Lines, l'.broken = false ∧ l'.joined = blanks.reverse ++ l.joined ∧
      readGap indent l column (blanks ++ cs) = .ok (l', column + blanks.length, cs) := by
  induction blanks generalizing l column with
  | nil =>
    refine ⟨l, hl, rfl, ?_⟩
    cases cs with
    | nil => cases hcs
    | cons c cs =>
      rw [blankAhead, Bool.not_eq_false'] at hcs
      rw [List.nil_append, readGap, if_pos hcs]
      rfl
  | cons b blanks ih =>
    have hb := hblanks b List.mem_cons_self
    have hbreak := isBreak_of_isBlank hb
    obtain ⟨l', hl', hjoined, hread⟩ := ih (column + 1)
      (fun d hd => hblanks d (List.mem_cons_of_mem b hd)) (Lines.broken_pushGap hl hbreak)
    refine ⟨l', hl', ?_, ?_⟩
    · rw [hjoined, Lines.joined_pushGap hl hbreak, List.reverse_cons, List.append_assoc,
        List.singleton_append]
    · rw [List.cons_append, readGap, if_neg (by simp [isInk_of_isBlank hb]), if_neg (by simp [hl]),
        if_neg (by simp [hbreak]), hread, List.length_cons]
      congr 3
      omega

/-- What is read behind a word of a text outside brackets. -/
def readBehind (indent fuel : Nat) (l : Lines) (column : Nat) :
    List Char → Except Error (Lines × List Char)
  | [] => .ok (l, [])
  | c :: cs =>
    if isInk c then .ok (l, c :: cs)
    else do
      let (l, column, rest) ← readGap indent l column (c :: cs)
      if column < indent then return (l, rest) else readPlain false indent fuel l column rest

theorem readPlain_word (hw : IsWord w) (hcomment : w.head? ≠ some '#') (hafter : EndsWord after)
    (hl : l.broken = false) :
    readPlain false indent (fuel + 1) l column (w ++ after) =
      readBehind indent fuel (w.foldl .push l) (column + w.length) after := by
  have hhead : (w ++ after).head? ≠ some '#' := by
    obtain ⟨c, w, rfl⟩ := List.exists_cons_of_ne_nil hw.ne_nil
    exact hcomment
  rw [readPlain, if_neg (fun h => h.elim (fun h => Bool.false_ne_true (hl ▸ h.1)) hhead),
    readPart_append hw.ink hw.noColon hafter]
  cases after with
  | nil => rfl
  | cons c cs =>
    have hcolumn : (w ++ c :: cs).length - (c :: cs).length = w.length := by
      rw [List.length_append]
      omega
    simp only [readBehind, hcolumn, bind, Except.bind, pure, Except.pure, Bool.not_false, true_and]

theorem AreWords.blankAhead_append (hcs : AreWords cs) (after : List Char) :
    blankAhead (cs ++ after) = false := by
  have hword {w : List Char} (hw : IsWord w) (after : List Char) :
      blankAhead (w ++ after) = false := by
    obtain ⟨c, w, rfl⟩ := List.exists_cons_of_ne_nil hw.ne_nil
    rw [List.cons_append, blankAhead, hw.ink c List.mem_cons_self]
    rfl
  cases hcs with
  | word hw => exact hword hw after
  | cons hw _ _ _ _ =>
    rw [List.append_assoc]
    exact hword hw _

/-- The words of a text, up to what ends it. -/
theorem readPlain_append (fuel column : Nat) (hcs : AreWords cs) (hcomment : cs.head? ≠ some '#')
    (hafter : EndsWord after) (hl : l.broken = false) (hindent : indent ≤ 1)
    (hfuel : cs.length ≤ fuel) :
    ∃ (l' : Lines) (column' fuel' : Nat), l'.text = cs.reverse ++ l.joined ∧
      l'.gap = .blanks [] ∧
      readPlain false indent fuel l column (cs ++ after) =
        readBehind indent fuel' l' column' after := by
  induction hcs generalizing l column fuel with
  | @word w hw =>
    have hlength := List.length_pos_of_ne_nil hw.ne_nil
    obtain ⟨fuel, rfl⟩ : ∃ n, fuel = n + 1 := ⟨fuel - 1, by omega⟩
    have hgap := gap_foldl_push hw.ne_nil l
    refine ⟨w.foldl .push l, column + w.length, fuel, ?_, hgap,
      readPlain_word hw hcomment hafter hl⟩
    rw [← joined_eq_text hgap, joined_foldl_push]
  | @cons w blanks cs hw hblanks hne hcs hcomment' ih =>
    have hlength := List.length_pos_of_ne_nil hw.ne_nil
    rw [List.length_append, List.length_append] at hfuel
    obtain ⟨fuel, rfl⟩ : ∃ n, fuel = n + 1 := ⟨fuel - 1, by omega⟩
    obtain ⟨b, blanks, rfl⟩ := List.exists_cons_of_ne_nil hne
    have hb : isInk b = false := isInk_of_isBlank (hblanks b List.mem_cons_self)
    have hgap := gap_foldl_push hw.ne_nil l
    obtain ⟨l₁, hl₁, hjoined, hread⟩ := readGap_append indent (column + w.length) hblanks
      (hcs.blankAhead_append after) (broken_of_gap hgap)
    obtain ⟨l', column', fuel', htext, hgap', hrest⟩ :=
      ih fuel (column + w.length + (b :: blanks).length) hcomment' hl₁ (by omega)
    refine ⟨l', column', fuel', ?_, hgap', ?_⟩
    · rw [htext, hjoined, joined_foldl_push]
      simp only [List.reverse_append, List.append_assoc]
    · have hword : w.head? ≠ some '#' := by
        obtain ⟨c, w, rfl⟩ := List.exists_cons_of_ne_nil hw.ne_nil
        exact hcomment
      have hends : EndsWord (b :: blanks ++ (cs ++ after)) := .inl (by
        rw [List.cons_append, blankAhead, hb]
        rfl)
      have hindented : ¬ column + w.length + (b :: blanks).length < indent := by
        rw [List.length_cons]
        omega
      rw [List.append_assoc, List.append_assoc, readPlain_word hw hword hends hl]
      rw [List.cons_append, readBehind, if_neg (by simp [hb]), ← List.cons_append, hread]
      simp only [bind, Except.bind, pure, Except.pure]
      rw [if_neg hindented, hrest]

end ImagePipeline.Yaml
