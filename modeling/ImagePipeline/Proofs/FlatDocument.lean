import ImagePipeline.Proofs.FlatMapping
import ImagePipeline.Yaml.Reader

/-!
# Reading flat mappings

A flat mapping is scanned entry by entry: a key, the colon behind it and the value are a token each,
and only the colon tells that the first was a key.  Between two entries the scanner is where its
blanks and comments lead, whichever reader has passed them.  The tokens of the entries, in one
block, are then read as the mapping.

* `Place.goTo_of_noBreak`, `Place.column_goTo`: where on its line a place is.
* `Scanner.flat`, `Scanner.keyed`: the two states of the scanner in a flat mapping.
* `Scanner.next_written`: a text is taken as a whole, in whichever way it is written.
* `Scanner.all_entry`, `Scanner.all_remains`: the steps for one entry, and for those that are left.
* `parse_of_isFlatText`: what is written as a flat mapping is read as one.
-/

namespace ImagePipeline.Yaml

variable {c : Char} {cs more rest text xs ys zs : List Char} {p : Place}

/-! ## Places -/

namespace Place

theorem rest_advance (h : p.rest = xs ++ ys) : (p.advance xs.length).rest = ys := by
  induction xs generalizing p with
  | nil => exact h
  | cons c xs ih =>
    rw [List.length_cons, advance, h, List.cons_append]
    dsimp only
    split <;> exact ih rfl

theorem advance_add (m n : Nat) (p : Place) : p.advance (m + n) = (p.advance m).advance n := by
  induction m generalizing p with
  | zero => rw [Nat.zero_add]; rfl
  | succ m ih =>
    rw [Nat.succ_add, advance, advance]
    split
    next h =>
      cases n with
      | zero => rfl
      | succ n => rw [advance, h]
    next => split <;> exact ih _

theorem goTo_append (h : p.rest = xs ++ ys) : p.goTo ys = p.advance xs.length := by
  rw [goTo, h, List.length_append, Nat.add_sub_cancel]

theorem goTo_self (p : Place) : p.goTo p.rest = p := by
  rw [goTo_append (List.nil_append _).symm]
  rfl

theorem rest_goTo (h : ys <:+ p.rest) : (p.goTo ys).rest = ys := by
  obtain ⟨xs, h⟩ := h
  rw [goTo_append h.symm, rest_advance h.symm]

/-- A line break ends the line. -/
theorem column_goTo (h : p.rest = xs ++ c :: ys) (hc : isBreak c = true) :
    (p.goTo ys).column = 0 := by
  have hrest := rest_advance h
  have h' : p.rest = (xs ++ [c]) ++ ys := by rw [h, List.append_assoc, List.singleton_append]
  rw [goTo_append h', List.length_append, advance_add, List.length_singleton, advance, hrest]
  dsimp only
  rw [if_pos hc]
  rfl

/-- Within a line, index and column grow alike. -/
theorem goTo_of_noBreak (h : p.rest = xs ++ ys) (hbreak : ∀ c ∈ xs, isBreak c = false) :
    p.goTo ys = ⟨ys, p.index + xs.length, p.line, p.column + xs.length⟩ := by
  rw [goTo_append h]
  induction xs generalizing p with
  | nil =>
    rcases p with ⟨rest, index, line, column⟩
    cases h
    rfl
  | cons c xs ih =>
    rw [List.length_cons, advance, h, List.cons_append]
    dsimp only
    rw [if_neg (by simp [hbreak c List.mem_cons_self]),
      ih rfl fun d hd => hbreak d (List.mem_cons_of_mem c hd)]
    simp only [Place.mk.injEq, true_and]
    omega

end Place

/-! ## Scanning a flat mapping -/

namespace Scanner

variable {opened allowed : Bool} {ts : List Token} {t : Token} {fuel : Nat}
  {after blanks k key v value w : List Char} {p₀ : Place} {s s' : Scanner}

/-- A scanner between two entries of a flat mapping, or within one: its block is open or not. -/
def flat (opened : Bool) (p : Place) (ts : List Token) (allowed : Bool) : Scanner :=
  ⟨p, ts, if opened then [0] else [], none, [], allowed⟩

theorem toNext_eq {allowed' : Bool}
    (h : passBlanks s.inBrackets false (s.place.column = 0) s.keyAllowed s.place.rest =
      (rest, allowed')) :
    s.toNext = { s with place := s.place.goTo rest, keyAllowed := allowed' } := by
  rw [toNext, h]

theorem toNext_flat {allowed' : Bool}
    (h : passBlanks false false (p.column = 0) allowed p.rest = (rest, allowed')) :
    (flat opened p ts allowed).toNext = flat opened (p.goTo rest) ts allowed' :=
  toNext_eq (s := flat opened p ts allowed) h

theorem leaveBlocks_flat (opened : Bool) (p : Place) (ts : List Token) (allowed : Bool) :
    (flat opened p ts allowed).leaveBlocks = flat opened p ts allowed := by
  cases opened <;> rfl

theorem all_succ_flat {allowed' : Bool}
    (h : passBlanks false false (p.column = 0) allowed p.rest = (rest, allowed')) :
    all (fuel + 1) (flat opened p ts allowed) =
      match (p.goTo rest).rest with
      | [] => (flat opened (p.goTo rest) ts allowed').leaveDocument
      | c :: cs => (flat opened (p.goTo rest) ts allowed').next c cs >>= all fuel := by
  rw [all, toNext_flat h]
  show (match (leaveBlocks (flat opened (p.goTo rest) ts allowed')).place.rest with
    | [] => leaveDocument (leaveBlocks (flat opened (p.goTo rest) ts allowed'))
    | c :: cs => next (leaveBlocks (flat opened (p.goTo rest) ts allowed')) c cs >>= all fuel) = _
  rw [leaveBlocks_flat]
  rfl

/-- One more token. -/
theorem all_flat_cons {allowed' : Bool}
    (h : passBlanks false false (p.column = 0) allowed p.rest = (rest, allowed'))
    (hsuffix : rest <:+ p.rest) (hrest : rest = c :: cs) (hnext :
      (flat opened (p.goTo rest) ts allowed').next c cs = .ok s) :
    all (fuel + 1) (flat opened p ts allowed) = all fuel s := by
  rw [all_succ_flat h, Place.rest_goTo hsuffix, hrest]
  show next (flat opened (p.goTo (c :: cs)) ts allowed') c cs >>= all fuel = _
  rw [← hrest, hnext]
  rfl

/-- No more token. -/
theorem all_flat_nil {allowed' : Bool}
    (h : passBlanks false false (p.column = 0) allowed p.rest = ([], allowed')) :
    all (fuel + 1) (flat opened p ts allowed) =
      (flat opened (p.goTo []) ts allowed').leaveDocument := by
  rw [all_succ_flat h, Place.rest_goTo List.nil_suffix]

/-! ### Texts -/

/-- No mark for whole documents stands at the place. -/
def NoMarker (s : Scanner) : Prop := s.place.column = 0 → markerLine s.place.rest = false

theorem NoMarker.atMarker (h : s.NoMarker) :
    s.place.atMarker startMarker = false ∧ s.place.atMarker endMarker = false := by
  rw [Place.atMarker, Place.atMarker]
  by_cases hcolumn : s.place.column = 0
  · have hmarkers := h hcolumn
    rw [markerLine, Bool.or_eq_false_iff] at hmarkers
    rw [hmarkers.1, hmarkers.2, Bool.and_false]
    exact ⟨rfl, rfl⟩
  · simp [hcolumn]

theorem next_single (h : s.NoMarker) : s.next '\'' cs = s.inKey 1 (fun cs => do
      let (text, rest) ← readSingle .empty cs
      return (.text text false, rest)) := by
  simp [next, h.atMarker]

theorem next_double (h : s.NoMarker) : s.next '"' cs = s.inKey 1 (fun cs => do
      let (text, rest) ← readDouble .empty cs
      return (.text text false, rest)) := by
  simp [next, h.atMarker]

/-- A character that is no indicator begins a plain text, and so do three that are, if no blank
follows. -/
theorem beginsPlain_of_ink (hink : isInk c = true)
    (hbegins : c ∉ indicators ∨ (c ∈ ['-', '?', ':'] ∧ blankAhead cs = false)) :
    beginsPlain false c cs = true := by
  rw [beginsPlain]
  rcases hbegins with hc | ⟨hc, hahead⟩
  · have hmarked :
        ("#&*!|>'\"%@`,[]\x7b\x7d".toList.all fun d => indicators.contains d) = true := by decide
    have hmarks : "#&*!|>'\"%@`,[]\x7b\x7d".toList.contains c = false :=
      Bool.eq_false_iff.2 fun h => hc (List.contains_iff_mem.1
        (List.all_eq_true.1 hmarked c (List.contains_iff_mem.1 h)))
    rw [if_neg (by rintro rfl; exact hc (by decide)),
      if_neg (by rintro (rfl | rfl) <;> exact hc (by decide)), hink, hmarks]
    rfl
  · have hblank : cs.head?.any isBlank = false := by
      cases cs with
      | nil => rfl
      | cons d cs =>
        rw [blankAhead, Bool.not_eq_false', isInk, Bool.and_eq_true, Bool.not_eq_true'] at hahead
        exact hahead.1
    simp only [List.mem_cons, List.not_mem_nil, or_false] at hc
    rcases hc with rfl | rfl | rfl
    · rw [if_pos rfl, hblank]
      rfl
    · rw [if_neg (by decide), if_pos (.inl rfl), hahead]
      rfl
    · rw [if_neg (by decide), if_pos (.inr rfl), hahead]
      rfl

/-- A character that begins a plain text begins nothing else. -/
theorem next_plain (h : s.NoMarker) (houter : s.outer = []) (hink : isInk c = true)
    (hbegins : c ∉ indicators ∨ (c ∈ ['-', '?', ':'] ∧ blankAhead cs = false)) :
    s.next c cs = s.plainText := by
  have hbrackets : s.inBrackets = false := by
    rw [inBrackets, houter]
    rfl
  have hne : ∀ d ∈ indicators, d ∉ ['-', '?', ':'] → c ≠ d := by
    rintro d hd hnot rfl
    exact hbegins.elim (fun h => h hd) fun h => hnot h.1
  have hmark : ∀ d ∈ indicators, ¬ (c = d ∧ blankAhead cs = true) := by
    rintro d hd ⟨rfl, hblank⟩
    rcases hbegins with h | ⟨-, h⟩
    · exact h hd
    · rw [h] at hblank
      cases hblank
  have hplain : beginsPlain s.inBrackets c cs = true := by
    rw [hbrackets]
    exact beginsPlain_of_ink hink hbegins
  rw [next, if_neg fun h => hne '%' (by decide) (by decide) h.2, if_neg (by simp [h.atMarker]),
    if_neg (by simp [h.atMarker]), if_neg (hne '[' (by decide) (by decide)),
    if_neg (hne '{' (by decide) (by decide)), if_neg (hne ']' (by decide) (by decide)),
    if_neg (hne '}' (by decide) (by decide)), if_neg (hne ',' (by decide) (by decide)),
    if_neg (hmark '-' (by decide)),
    if_neg fun h => hmark '?' (by decide) (h.imp_right (Or.resolve_left · (by simp [hbrackets]))),
    if_neg fun h => hmark ':' (by decide) (h.imp_right (Or.resolve_left · (by simp [hbrackets]))),
    if_neg (hne '*' (by decide) (by decide)), if_neg (hne '&' (by decide) (by decide)),
    if_neg (hne '!' (by decide) (by decide)), if_neg fun h => hne '|' (by decide) (by decide) h.1,
    if_neg fun h => hne '>' (by decide) (by decide) h.1, if_neg (hne '\'' (by decide) (by decide)),
    if_neg (hne '"' (by decide) (by decide)), if_pos hplain]

/-- The scanner behind a text. -/
def took (s : Scanner) (text : List Char) (plain : Bool) (rest : List Char) (allowed : Bool) :
    Scanner :=
  { s.emit (.text (String.ofList text) plain) with
    place := s.place.goTo rest, keyAllowed := allowed }

/-- A text is taken as a whole, in whichever way it is written.  What a plain text leaves and
whether a key may begin there is up to what follows it, which `Stop` describes. -/
theorem next_written (Stop : Bool → List Char → Prop) (hw : IsWritten text w)
    (hcs : w ++ after = c :: cs) (hrest : s.place.rest = w ++ after) (hmarker : s.NoMarker)
    (houter : s.outer = []) (hsave : s.saveKey = .ok s') (hplace : s'.place = s.place)
    (houter' : s'.outer = []) (hindent : s'.indent ≤ 1) (hafter : EndsWord after)
    (hquoted : Stop false after)
    (hplain : ∀ (l : Lines) column fuel, l.gap = .blanks [] →
      ∃ (l' : Lines) (rest : List Char), readBehind s'.indent fuel l column after = .ok (l', rest) ∧
        l'.text = l.text ∧ Stop l'.broken rest) :
    ∃ plain rest allowed, s.next c cs = .ok (s'.took text plain rest allowed) ∧
      Stop allowed rest := by
  have hquote : after.head? ≠ some '\'' := by
    rcases hafter with h | ⟨cs, rfl, -⟩
    · cases after with
      | nil => nofun
      | cons d after =>
        intro hd
        cases hd
        cases h
    · nofun
  cases hw with
  | single hbreak =>
    cases hcs
    refine ⟨false, after, false, ?_, hquoted⟩
    have hread := readSingle_append (l := .empty) hbreak rfl hquote
    have hdrop : s'.place.rest.drop 1 = text.flatMap inSingle ++ '\'' :: after := by
      rw [hplace, hrest, List.cons_append, List.append_assoc]
      rfl
    rw [next_single hmarker, inKey, hsave]
    simp only [bind, Except.bind, hdrop, hread]
    rfl
  | @double pieces hpieces =>
    cases hcs
    refine ⟨false, after, false, ?_, hquoted⟩
    have hread : readDouble .empty (pieces.flatten ++ '"' :: after) = _ :=
      readDouble_append hpieces rfl
    have hdrop : s'.place.rest.drop 1 = pieces.flatten ++ '"' :: after := by
      rw [hplace, hrest, List.cons_append, List.append_assoc]
      rfl
    rw [next_double hmarker, inKey, hsave]
    simp only [bind, Except.bind, hdrop, hread]
    rfl
  | plain hbegins hwords =>
    obtain ⟨d, w, rfl⟩ := List.exists_cons_of_ne_nil fun h : text = [] => by subst h; exact hbegins
    rw [List.cons_append] at hcs
    obtain ⟨rfl, rfl⟩ := List.cons.inj hcs
    obtain ⟨hink, hcomment, -⟩ := (IsWritten.plain hbegins hwords).beginsKey after
    have hfirst : d ∉ indicators ∨ (d ∈ ['-', '?', ':'] ∧ blankAhead (w ++ after) = false) := by
      refine hbegins.2.imp_right (And.imp_right fun h => ?_)
      cases w with
      | nil => cases h
      | cons d w => exact h
    have hbrackets : s'.inBrackets = false := by
      rw [inBrackets, houter']
      rfl
    obtain ⟨l₁, column, fuel, htext, hgap, hread⟩ := readPlain_append (l := .empty)
      s.place.rest.length s.place.column hwords (fun h => hcomment (Option.some.inj h)) hafter rfl
      hindent (by rw [hrest, List.length_append]; omega)
    obtain ⟨l₂, rest, hbehind, htext₂, hstop⟩ := hplain l₁ column fuel hgap
    refine ⟨true, rest, l₂.broken, ?_, hstop⟩
    have hplainText : l₂.plainText = String.ofList (d :: w) := by
      rw [Lines.plainText, htext₂, htext]
      simp [Lines.empty, Lines.joined]
    rw [next_plain hmarker houter hink hfirst, plainText, hsave]
    simp only [bind, Except.bind, hbrackets, hplace]
    rw [hrest] at hread ⊢
    rw [hread, hbehind]
    simp only [hplainText, pure, Except.pure, took, hplace]

/-! ### Keys -/

/-- A scanner behind a key. -/
def keyed (opened : Bool) (p₀ p : Place) (ts : List Token) (t : Token) : Scanner :=
  ⟨p, t :: ts, if opened then [0] else [], some ⟨ts.length, p₀, opened⟩, [], false⟩

/-- The tokens before the first entry and those before the others. -/
def opening (opened : Bool) (ts : List Token) : List Token :=
  if opened then ts else .blockMapping :: ts

theorem indent_le (h : s.indents = if opened then [0] else []) : s.indent ≤ 1 := by
  rw [indent, h]
  cases opened
  · exact Nat.zero_le 1
  · exact Nat.le_refl 1

theorem saveKey_flat (hcolumn : p.column = 0) :
    (flat opened p ts true).saveKey =
      .ok { flat opened p ts true with possible := some ⟨ts.length, p, opened⟩ } := by
  cases opened <;>
    simp [saveKey, flat, inBrackets, dropKey, hcolumn, bind, Except.bind, pure, Except.pure]

theorem toNext_keyed (hp : p.rest = ':' :: cs) :
    (keyed opened p₀ p ts t).toNext = keyed opened p₀ p ts t := by
  have hpass : passBlanks false false (p.column = 0) false p.rest = (p.rest, false) := by
    rw [hp]
    exact passBlanks_key ⟨rfl, by decide, rfl⟩
  refine (toNext_eq (s := keyed opened p₀ p ts t) hpass).trans ?_
  show { keyed opened p₀ p ts t with place := p.goTo p.rest } = keyed opened p₀ p ts t
  rw [Place.goTo_self]
  rfl

theorem dropStale_keyed (hline : p.line = p₀.line) (hindex : p.index ≤ p₀.index + keyLimit) :
    (keyed opened p₀ p ts t).dropStale = .ok (keyed opened p₀ p ts t) := by
  have hfresh : ¬ (p₀.line < p.line ∨ p₀.index + keyLimit < p.index) := by omega
  have hstill : stillPossible p ⟨ts.length, p₀, opened⟩ = .ok (some ⟨ts.length, p₀, opened⟩) :=
    if_neg hfresh
  simp [dropStale, keyed, hstill, bind, Except.bind, pure, Except.pure]

theorem valueMark_keyed (hcolumn : p₀.column = 0) :
    (keyed opened p₀ p ts t).valueMark =
      .ok (flat true (p.advance 1) (.value :: t :: .key :: opening opened ts) false) := by
  have hone : ts.length + 1 - ts.length = 1 := Nat.add_sub_cancel_left ..
  have htwo : ts.length + 1 + 1 - ts.length = 2 := by omega
  cases opened <;>
    simp [valueMark, keyed, beginBlock, inBrackets, indent, mark, skip, emit, flat, opening,
      hcolumn, hone, htwo]

theorem all_succ_keyed (fuel : Nat) (opened : Bool) (ts : List Token) (t : Token)
    (hp : p.rest = ':' :: cs) (hcs : blankAhead cs = true) (hline : p.line = p₀.line)
    (hindex : p.index ≤ p₀.index + keyLimit)
    (hcolumn : p₀.column = 0) :
    all (fuel + 1) (keyed opened p₀ p ts t) =
      all fuel (flat true (p.advance 1) (.value :: t :: .key :: opening opened ts) false) := by
  have hleave : (keyed opened p₀ p ts t).leaveBlocks = keyed opened p₀ p ts t := by
    cases opened <;> rfl
  have hmarker : (keyed opened p₀ p ts t).NoMarker := fun _ => by
    show markerLine p.rest = false
    rw [hp]
    rfl
  have hnext : (keyed opened p₀ p ts t).next ':' cs = (keyed opened p₀ p ts t).valueMark := by
    simp [next, hmarker.atMarker, hcs]
  rw [all, toNext_keyed hp, dropStale_keyed hline hindex]
  show (match (leaveBlocks (keyed opened p₀ p ts t)).place.rest with
    | [] => leaveDocument (leaveBlocks (keyed opened p₀ p ts t))
    | c :: cs => next (leaveBlocks (keyed opened p₀ p ts t)) c cs >>= all fuel) = _
  rw [hleave]
  show (match p.rest with
    | [] => leaveDocument (keyed opened p₀ p ts t)
    | c :: cs => next (keyed opened p₀ p ts t) c cs >>= all fuel) = _
  rw [hp]
  show next (keyed opened p₀ p ts t) ':' cs >>= all fuel = _
  rw [hnext, valueMark_keyed hcolumn]
  rfl

/-! ### Entries -/

/-- From a place, blanks lead to a rest: to the beginning of a line, where a key may begin, or to
the end. -/
structure Arrives (p : Place) (allowed : Bool) (rest : List Char) : Prop where
  suffix : rest <:+ p.rest
  passes : ∃ allowed', passBlanks false false (p.column = 0) allowed p.rest = (rest, allowed') ∧
    (rest ≠ [] → allowed' = true)
  column : rest ≠ [] → (p.goTo rest).column = 0

theorem arrives_of_leads (h : Leads rest allowed p.rest) : Arrives p allowed rest where
  suffix := h.suffix
  passes := passBlanks_of_leads h _
  column hne := by
    obtain ⟨front, c, hrest, hc⟩ := h.exists_lineBreak hne
    exact Place.column_goTo hrest hc

theorem arrives_of_beginsKey (h : BeginsKey p.rest) (hcolumn : p.column = 0) :
    Arrives p true p.rest where
  suffix := List.suffix_rfl
  passes := ⟨true, passBlanks_key h, fun _ => rfl⟩
  column _ := by rw [Place.goTo_self, hcolumn]

/-- A key is taken at the beginning of a line. -/
theorem next_key (opened : Bool) (ts : List Token) (hkey : IsKey key k)
    (hp : p.rest = k ++ ':' :: cs) (hcolumn : p.column = 0) (hcs : blankAhead cs = true)
    (hfirst : k ++ ':' :: cs = c :: more) :
    ∃ plain, (flat opened p ts true).next c more =
      .ok (keyed opened p (p.goTo (':' :: cs)) ts (.text (String.ofList key) plain)) := by
  have hmarker : (flat opened p ts true).NoMarker := fun _ => by
    show markerLine p.rest = false
    rw [hp]
    exact hkey.markerLine_append cs
  obtain ⟨plain, rest, allowed', hnext, rfl, rfl⟩ := next_written
    (fun allowed rest => allowed = false ∧ rest = ':' :: cs) hkey.written hfirst hp hmarker
    rfl (saveKey_flat hcolumn) rfl rfl (indent_le rfl) (.inr ⟨cs, rfl, hcs⟩) ⟨rfl, rfl⟩
    fun l column fuel hgap => ⟨l, _, rfl, rfl, broken_of_gap hgap, rfl⟩
  exact ⟨plain, hnext⟩

/-- Behind a value, nothing keeps the scanner from the next key. -/
theorem next_value (ts : List Token) (hvalue : IsWritten value v) (hp : p.rest = v ++ after)
    (hcolumn : p.column ≠ 0) (hafter : blankAhead after = true) (hleads : Leads rest false after)
    (hfirst : v ++ after = c :: more) :
    ∃ plain q allowed', (flat true p ts false).next c more =
      .ok (flat true q (.text (String.ofList value) plain :: ts) allowed') ∧
        Arrives q allowed' rest := by
  have hsave : (flat true p ts false).saveKey = .ok (flat true p ts false) := rfl
  obtain ⟨plain, rest', allowed', hnext, hsuffix, hleft⟩ := next_written
    (fun allowed rest' => rest' <:+ after ∧ Left rest allowed rest') hvalue hfirst hp
    (fun h => absurd h hcolumn) rfl hsave rfl rfl (Nat.le_refl 1) (.inl hafter)
    ⟨List.suffix_rfl, .leads hleads⟩ fun l column fuel hgap =>
      readBehind_of_leads hleads hafter hgap
  have hrest : (p.goTo rest').rest = rest' :=
    Place.rest_goTo (hp ▸ hsuffix.trans (List.suffix_append v after))
  refine ⟨plain, p.goTo rest', allowed', hnext, ?_⟩
  cases hleft with
  | leads h => exact arrives_of_leads (hrest.symm ▸ h)
  | key hbegins hended =>
    obtain ⟨front, d, rfl, hd⟩ := hleads.exists_lineBreak (by rintro rfl; exact hbegins)
    have hfront : p.rest = (v ++ front) ++ d :: rest := by rw [hp, List.append_assoc]
    have hline : (p.goTo rest).column = 0 := Place.column_goTo hfront hd
    have harrives := arrives_of_beginsKey (p := p.goTo rest) (hrest.symm ▸ hbegins) hline
    rw [hrest] at harrives
    rw [hended]
    exact harrives

theorem passBlanks_blanks {lineStart : Bool} (hblanks : AreBlank blanks) (hrest : BeginsKey rest) :
    passBlanks false false lineStart false (blanks ++ rest) = (rest, false) := by
  induction blanks generalizing lineStart with
  | nil => exact passBlanks_key hrest
  | cons b blanks ih =>
    have hb := hblanks b List.mem_cons_self
    have hblank : b = ' ' ∨ (b = '\t' ∧ (false = true ∨ (!false) = true)) ∨
        (isByteOrderMark b = true ∧ lineStart = true) :=
      (hblanks.eq_or_eq List.mem_cons_self).imp_right fun h => .inl ⟨h, .inr rfl⟩
    rw [List.cons_append, passBlanks, if_neg (by simp [isBreak_of_isBlank hb]),
      if_neg Bool.false_ne_true, if_pos hblank]
    exact ih fun d hd => hblanks d (List.mem_cons_of_mem b hd)

/-- An entry takes three steps: its key, the colon and its value. -/
theorem all_entry (fuel : Nat) (opened : Bool) (ts : List Token)
    (hp : Arrives p allowed (k ++ ':' :: (blanks ++ (v ++ after))))
    (hkey : IsKey key k) (hblanks : AreBlank blanks) (hne : blanks ≠ [])
    (hvalue : IsWritten value v) (hafter : blankAhead after = true)
    (hleads : Leads rest false after) :
    ∃ keyPlain valuePlain q allowed', all (fuel + 3) (flat opened p ts allowed) =
        all fuel (flat true q (.text (String.ofList value) valuePlain :: .value ::
          .text (String.ofList key) keyPlain :: .key :: opening opened ts) allowed') ∧
      Arrives q allowed' rest := by
  have hahead : blankAhead (blanks ++ (v ++ after)) = true := by
    obtain ⟨b, blanks, rfl⟩ := List.exists_cons_of_ne_nil hne
    rw [List.cons_append, blankAhead, isInk_of_isBlank (hblanks b List.mem_cons_self)]
    rfl
  obtain ⟨c, more, hfirst⟩ := (hkey.written.beginsKey (':' :: (blanks ++ (v ++ after)))).exists_cons
  obtain ⟨d, more', hfirst'⟩ := (hvalue.beginsKey after).exists_cons
  -- The key.
  obtain ⟨hsuffix, ⟨allowed₁, hpass, hallowed⟩, hcolumn⟩ := hp
  have hsome : k ++ ':' :: (blanks ++ (v ++ after)) ≠ [] := hfirst ▸ List.cons_ne_nil c more
  cases hallowed hsome
  have hrest := Place.rest_goTo hsuffix
  obtain ⟨keyPlain, hkeyed⟩ :=
    next_key opened ts hkey hrest (hcolumn hsome) hahead hfirst
  generalize hp₁ : p.goTo (k ++ ':' :: (blanks ++ (v ++ after))) = p₁ at hrest hkeyed hcolumn
  -- The colon, on the line of the key.
  have hplace := Place.goTo_of_noBreak hrest hkey.written.noBreak
  generalize p₁.goTo (':' :: (blanks ++ (v ++ after))) = p₂ at hkeyed hplace
  have hrest₂ : p₂.rest = ':' :: (blanks ++ (v ++ after)) := by rw [hplace]
  have hline : p₂.line = p₁.line := by rw [hplace]
  have hindex : p₂.index ≤ p₁.index + keyLimit := by
    rw [hplace]
    exact Nat.add_le_add_left hkey.short p₁.index
  have hcolon := all_succ_keyed (fuel + 1) opened ts (.text (String.ofList key) keyPlain) hrest₂
    hahead hline hindex (hcolumn hsome)
  -- The value, which the blanks keep from the beginning of the line.
  have hrest₃ : (p₂.advance [':'].length).rest = blanks ++ (v ++ after) := Place.rest_advance hrest₂
  rw [List.length_singleton] at hrest₃
  generalize p₂.advance 1 = p₃ at hcolon hrest₃
  have hpass₃ : passBlanks false false (p₃.column = 0) false p₃.rest = (v ++ after, false) := by
    rw [hrest₃]
    exact passBlanks_blanks hblanks (hvalue.beginsKey after)
  have hplace₃ := Place.goTo_of_noBreak hrest₃ fun b hb => isBreak_of_isBlank (hblanks b hb)
  have hcolumn₃ : (p₃.goTo (v ++ after)).column ≠ 0 := by
    have hlength := List.length_pos_of_ne_nil hne
    rw [hplace₃]
    show p₃.column + blanks.length ≠ 0
    omega
  obtain ⟨valuePlain, q, allowed', hnext, hq⟩ := next_value
    (.value :: .text (String.ofList key) keyPlain :: .key :: opening opened ts) hvalue
    (by rw [hplace₃]) hcolumn₃ hafter hleads hfirst'
  refine ⟨keyPlain, valuePlain, q, allowed', ?_, hq⟩
  subst hp₁
  calc all (fuel + 3) (flat opened p ts allowed)
    _ = all (fuel + 2) _ := all_flat_cons hpass hsuffix hfirst hkeyed
    _ = all (fuel + 1) _ := hcolon
    _ = all fuel _ := all_flat_cons hpass₃ ⟨blanks, hrest₃.symm⟩ hfirst' hnext

/-- The tokens of an entry. -/
inductive EntryTokens : String × String → List Token → Prop where
  | of_texts {key value : String} (keyPlain valuePlain : Bool) : EntryTokens (key, value)
      [.key, .text key keyPlain, .value, .text value valuePlain]

theorem length_of_entryTokens {es : List (String × String)} {blocks : List (List Token)}
    (h : List.Forall₂ EntryTokens es blocks) : blocks.flatten.length = 4 * es.length := by
  induction h with
  | nil => rfl
  | cons hblock _ ih =>
    cases hblock
    rw [List.flatten_cons, List.length_append, ih]
    show 4 + 4 * _ = 4 * (_ + 1)
    omega

/-- From one key on, the tokens of the entries that are left come next, and the block ends. -/
theorem all_remains {es : List (String × String)} (fuel : Nat) (ts : List Token)
    (h : Remains es rest) (hp : Arrives p allowed rest) (hfuel : rest.length < fuel) :
    ∃ blocks s, all fuel (flat true p ts allowed) = .ok s ∧ List.Forall₂ EntryTokens es blocks ∧
      s.tokens = .blockEnd :: (blocks.flatten.reverse ++ ts) := by
  induction h generalizing p allowed fuel ts with
  | nil =>
    obtain ⟨fuel, rfl⟩ : ∃ n, fuel = n + 1 := ⟨fuel - 1, by omega⟩
    obtain ⟨allowed', hpass, -⟩ := hp.passes
    exact ⟨[], _, all_flat_nil hpass, .nil, rfl⟩
  | @cons key value es k blanks v after rest hkey hblanks hne hvalue hafter hleads _ ih =>
    rw [List.length_append, List.length_cons, List.length_append, List.length_append] at hfuel
    have hblank := List.length_pos_of_ne_nil hne
    have hlength := List.length_pos_of_ne_nil hvalue.ne_nil
    have hshorter := hleads.suffix.length_le
    obtain ⟨fuel, rfl⟩ : ∃ n, fuel = n + 3 := ⟨fuel - 3, by omega⟩
    obtain ⟨keyPlain, valuePlain, q, allowed', hentry, hq⟩ :=
      all_entry fuel true ts hp hkey hblanks hne hvalue hafter hleads
    rw [String.ofList_toList, String.ofList_toList] at hentry
    obtain ⟨blocks, s, hs, hblocks, htokens⟩ := ih fuel
      (.text value valuePlain :: .value :: .text key keyPlain :: .key :: ts) hq (by omega)
    refine ⟨_, s, hentry.trans hs, .cons (.of_texts keyPlain valuePlain) hblocks, ?_⟩
    rw [htokens, List.flatten_cons, List.reverse_append]
    simp

end Scanner

/-- The tokens of a flat mapping: none, or a block with those of its entries. -/
theorem tokens_of_isFlat {es : List (String × String)} (h : IsFlat [['\n']] es cs) :
    (es = [] ∧ tokens cs = .ok []) ∨
      ∃ blocks, List.Forall₂ Scanner.EntryTokens es blocks ∧
        tokens cs = .ok (.blockMapping :: (blocks.flatten ++ [.blockEnd])) := by
  obtain ⟨rest, hrest, hleft⟩ := exists_remains h
  have hp : Scanner.Arrives ⟨cs, 0, 0, 0⟩ true rest := by
    cases hleft with
    | key hbegins _ => exact Scanner.arrives_of_beginsKey hbegins rfl
    | leads h => exact Scanner.arrives_of_leads h
  have hstart : Scanner.ofChars cs = Scanner.flat false ⟨cs, 0, 0, 0⟩ [] true := rfl
  rw [tokens, hstart]
  cases hrest with
  | nil =>
    obtain ⟨allowed', hpass, -⟩ := hp.passes
    rw [Scanner.all_flat_nil hpass]
    exact .inl ⟨rfl, rfl⟩
  | @cons key value es k blanks v after rest hkey hblanks hne hvalue hafter hleads hrest =>
    right
    have hlength : rest.length < cs.length + 1 - 3 := by
      have hwhole := hp.suffix.length_le
      rw [List.length_append, List.length_cons, List.length_append, List.length_append] at hwhole
      have hblank := List.length_pos_of_ne_nil hne
      have hvalueLength := List.length_pos_of_ne_nil hvalue.ne_nil
      have hshorter := hleads.suffix.length_le
      have hcs : (Place.mk cs 0 0 0).rest.length = cs.length := rfl
      omega
    obtain ⟨keyPlain, valuePlain, q, allowed', hentry, hq⟩ :=
      Scanner.all_entry (cs.length + 1 - 3) false [] hp hkey hblanks hne hvalue hafter hleads
    rw [String.ofList_toList, String.ofList_toList] at hentry
    obtain ⟨blocks, s, hs, hblocks, htokens⟩ := Scanner.all_remains _ _ hrest hq hlength
    have hall := hentry.trans hs
    have hfuel : cs.length + 1 - 3 + 3 = cs.length + 1 := by omega
    rw [hfuel] at hall
    refine ⟨_, .cons (.of_texts keyPlain valuePlain) hblocks, ?_⟩
    rw [hall]
    simp [htokens, Scanner.opening, bind, Except.bind, pure, Except.pure]

/-! ## Reading the tokens of a flat mapping -/

namespace Reader

variable {fuel : Nat} {items keyPlain valuePlain : Bool} {key value : String} {ts : List Token}
  {anchors : List (String × Yaml)} {handles : List String} {ms : List (Yaml × Yaml)} {r : Reading}

theorem blockEntries_entry (h : blockEntries (fuel + 1) ⟨ts, anchors, handles⟩ = .ok (ms, r)) :
    blockEntries (fuel + 2)
        ⟨.key :: .text key keyPlain :: .value :: .text value valuePlain :: ts, anchors, handles⟩ =
      .ok ((.scalar key keyPlain, .scalar value valuePlain) :: ms, r) := by
  have hentry : blockEntries (fuel + 2)
      ⟨.key :: .text key keyPlain :: .value :: .text value valuePlain :: ts, anchors, handles⟩ =
        (blockEntries (fuel + 1) ⟨ts, anchors, handles⟩).bind fun read =>
          .ok ((.scalar key keyPlain, .scalar value valuePlain) :: read.1, read.2) := rfl
  rw [hentry, h]
  rfl

theorem node_block (h : blockEntries (fuel + 1) ⟨ts, anchors, handles⟩ = .ok (ms, r)) :
    node (fuel + 2) true items ⟨.blockMapping :: ts, anchors, handles⟩ = .ok (.mapping ms, r) := by
  have hnode : node (fuel + 2) true items ⟨.blockMapping :: ts, anchors, handles⟩ =
      ((blockEntries (fuel + 1) ⟨ts, anchors, handles⟩).bind fun read =>
        .ok (.mapping read.1, read.2)).bind fun read =>
          .ok (read.1, { read.2 with anchors := [] ++ read.2.anchors }) := rfl
  rw [hnode, h]
  rfl

theorem document_block
    (h : blockEntries (fuel + 1) ⟨ts, [], usualHandles⟩ = .ok (ms, ⟨[], [], usualHandles⟩)) :
    document (fuel + 2) ⟨.blockMapping :: ts, [], []⟩ =
      .ok (some (.mapping ms), ⟨[], [], usualHandles⟩) := by
  have hdocument : document (fuel + 2) ⟨.blockMapping :: ts, [], []⟩ =
      (node (fuel + 2) true false ⟨.blockMapping :: ts, [], usualHandles⟩).bind fun read =>
        document.finish (fuel + 2) read.1 read.2 := rfl
  rw [hdocument, node_block h]
  rfl

/-- The entries of a mapping are texts under texts. -/
def AreTexts (ms : List (Yaml × Yaml)) (es : List (String × String)) : Prop :=
  List.Forall₂ (fun m e => m.1.text? = some e.1 ∧ m.2.text? = some e.2) ms es

theorem blockEntries_of_entryTokens {es : List (String × String)} {blocks : List (List Token)}
    (h : List.Forall₂ Scanner.EntryTokens es blocks) (hfuel : es.length < fuel) :
    ∃ ms, AreTexts ms es ∧ blockEntries fuel ⟨blocks.flatten ++ [.blockEnd], anchors, handles⟩ =
      .ok (ms, ⟨[], anchors, handles⟩) := by
  induction h generalizing fuel with
  | nil =>
    obtain ⟨fuel, rfl⟩ : ∃ n, fuel = n + 1 := ⟨fuel - 1, by omega⟩
    exact ⟨[], .nil, rfl⟩
  | @cons e block es blocks hblock _ ih =>
    rw [List.length_cons] at hfuel
    obtain ⟨fuel, rfl⟩ : ∃ n, fuel = n + 2 := ⟨fuel - 2, by omega⟩
    have hless : es.length < fuel + 1 := by omega
    obtain ⟨ms, hms, hread⟩ := ih hless
    cases hblock with
    | of_texts keyPlain valuePlain => exact ⟨_, .cons ⟨rfl, rfl⟩ hms, blockEntries_entry hread⟩

end Reader

/-- What a document says if it is a flat mapping: a text under each of its keys.  A document without
a value has no entries. -/
inductive GivesTexts : Option Yaml → List (String × String) → Prop where
  | nothing : GivesTexts none []
  | mapping {ms : List (Yaml × Yaml)} {es : List (String × String)}
      (h : Reader.AreTexts ms es) : GivesTexts (some (.mapping ms)) es

/-- The mark in front of a document is no part of it. -/
theorem parse_eq (hprint : (normalizeBreaks cs).all isPrintable = true) {text : String}
    (htext : (text.toList = cs ∧ ∀ c more, cs = c :: more → isByteOrderMark c = false) ∨
      ∃ mark, isByteOrderMark mark = true ∧ text.toList = mark :: cs) :
    parse text = (tokens (normalizeBreaks cs) >>= fun ts =>
      return (← (Reader.document (3 * (ts.length + 1))).run ⟨ts, [], []⟩).1) := by
  rw [parse]
  rcases htext with ⟨htext, hmark⟩ | ⟨mark, hmark, htext⟩
  · rw [htext]
    cases cs with
    | nil => rfl
    | cons c cs =>
      simp only [hmark c cs rfl, Bool.false_eq_true, if_false, hprint, Bool.not_true]
  · rw [htext]
    simp only [hmark, if_true, hprint, Bool.not_true, Bool.false_eq_true, if_false]

/-- **What is written as a flat mapping is read as one**, with its entries in their order. -/
theorem parse_of_isFlatText {es : List (String × String)} {text : String}
    (h : IsFlatText es text) : ∃ document, parse text = .ok document ∧ GivesTexts document es := by
  obtain ⟨cs, hflat, htext⟩ := h
  obtain ⟨hfeeds, hprint⟩ := hflat.normalizeBreaks
  rw [parse_eq hprint (htext.imp_left fun h => ⟨h, fun c more hcs => (hcs ▸ hflat).noMark⟩)]
  rcases tokens_of_isFlat hfeeds with ⟨rfl, htokens⟩ | ⟨blocks, hblocks, htokens⟩
  · rw [htokens]
    exact ⟨none, rfl, .nothing⟩
  · have hlength := Scanner.length_of_entryTokens hblocks
    obtain ⟨fuel, hfuel⟩ : ∃ n,
        3 * ((Token.blockMapping :: (blocks.flatten ++ [.blockEnd])).length + 1) = n + 2 :=
      ⟨3 * blocks.flatten.length + 7, by
        rw [List.length_cons, List.length_append, List.length_singleton]
        omega⟩
    have hshort : es.length < fuel + 1 := by
      rw [List.length_cons, List.length_append, List.length_singleton] at hfuel
      omega
    obtain ⟨ms, hms, hread⟩ := Reader.blockEntries_of_entryTokens hblocks hshort
    refine ⟨some (.mapping ms), ?_, .mapping hms⟩
    rw [htokens]
    show ((Reader.document (3 * (_ + 1))).run ⟨_, [], []⟩).bind (fun read => .ok read.1) = _
    rw [hfuel]
    show (Reader.document (fuel + 2) ⟨_, [], []⟩).bind (fun read => .ok read.1) = _
    rw [Reader.document_block hread]
    rfl

end ImagePipeline.Yaml
