import ImagePipeline.Proofs.JsonRecord
import ImagePipeline.Proofs.WrittenText

/-!
# Flat mappings

The document that most people write is a flat mapping: on each line a key, a colon and a text, or
nothing, with comments where they may be.  Its lines are described here as they are written.  What
a line leaves unread belongs to no text, and leads to the next key or to the end.

* `IsLine`, `IsFlat`: the lines of a document with their entries, and the whole.
* `Leads`: what stands between a place and the next key.
* `Remains`: the same document key by key, which is how it is read.
* `passBlanks_of_leads`, `readBehind_of_leads`: two readers on the way to the next key.
-/

namespace ImagePipeline.Yaml

open Scanner (passBlanks)

variable {b c : Char} {after blanks comment cs gap line rest text : List Char}
  {allowed lineStart : Bool} {l : Lines} {column fuel indent : Nat}
  {es es' : List (String × String)}

/-! ## The grammar -/

/-- A comment up to the end of its line, or none. -/
inductive IsComment : List Char → Prop where
  | none : IsComment []
  | comment {text : List Char} (hbreak : ∀ c ∈ text, isBreak c = false) : IsComment ('#' :: text)

/-- The characters that write a key: not too many, and not those that separate documents. -/
structure IsKey (text cs : List Char) : Prop where
  written : IsWritten text cs
  short : cs.length ≤ Scanner.keyLimit
  noMarker : markerLine cs = false

/-- A line and the entry that it has, if any.  The value is set apart from the colon by blanks, and
so is a comment from the value. -/
inductive IsLine : List (String × String) → List Char → Prop where
  | filler {n : Nat} {comment : List Char} (hcomment : IsComment comment) :
      IsLine [] (List.replicate n ' ' ++ comment)
  | entry {key value : String} {k blanks v gap comment : List Char} (hkey : IsKey key.toList k)
      (hblanks : AreBlank blanks) (hne : blanks ≠ []) (hvalue : IsWritten value.toList v)
      (hgap : AreBlank gap) (hcomment : IsComment comment) (hapart : comment ≠ [] → gap ≠ []) :
      IsLine [(key, value)] (k ++ ':' :: (blanks ++ (v ++ (gap ++ comment))))

/-- A document of lines and its entries, where a line ends with one of some line breaks. -/
inductive IsFlat (breaks : List (List Char)) : List (String × String) → List Char → Prop where
  | last {es : List (String × String)} {line : List Char} (hline : IsLine es line)
      (hprint : ∀ c ∈ line, isPrintable c = true) : IsFlat breaks es line
  | cons {es es' : List (String × String)} {line lineBreak cs : List Char}
      (hline : IsLine es line) (hprint : ∀ c ∈ line, isPrintable c = true)
      (hbreak : lineBreak ∈ breaks) (hcs : IsFlat breaks es' cs) :
      IsFlat breaks (es ++ es') (line ++ (lineBreak ++ cs))

/-- The text of a flat mapping with the entries given.  A line ends with a line feed or with a
carriage return and a line feed, and a byte order mark may stand in front. -/
def IsFlatText (es : List (String × String)) (text : String) : Prop :=
  ∃ cs, IsFlat [['\n'], ['\r', '\n']] es cs ∧
    (text.toList = cs ∨ ∃ mark, isByteOrderMark mark = true ∧ text.toList = mark :: cs)

/-! ## From key to key -/

/-- A rest that begins with a key. -/
def BeginsKey : List Char → Prop
  | [] => False
  | c :: _ => isInk c = true ∧ c ≠ '#' ∧ isByteOrderMark c = false

/-- From a place, blanks, line breaks and comments lead to a rest: to the first key on a line below,
or to the end.  Once a line has ended, tabs do not count as blanks. -/
inductive Leads : (rest : List Char) → (lineEnded : Bool) → List Char → Prop where
  | done {b : Bool} : Leads [] b []
  | key {b : Bool} {c : Char} {rest : List Char} (hc : isBreak c = true)
      (hrest : BeginsKey rest) : Leads rest b (c :: rest)
  | lineBreak {b : Bool} {c : Char} {rest cs : List Char} (hc : isBreak c = true)
      (h : Leads rest true cs) : Leads rest b (c :: cs)
  | blank {b : Bool} {c : Char} {rest cs : List Char} (hc : c = ' ' ∨ (c = '\t' ∧ b = false))
      (h : Leads rest b cs) : Leads rest b (c :: cs)
  | comment {b : Bool} {text rest cs : List Char} (hbreak : ∀ c ∈ text, isBreak c = false)
      (hcs : lineEndAhead cs = true) (h : Leads rest b cs) : Leads rest b ('#' :: (text ++ cs))

/-- What is left of a flat mapping from a key on, and its entries. -/
inductive Remains : List (String × String) → List Char → Prop where
  | nil : Remains [] []
  | cons {key value : String} {es : List (String × String)} {k blanks v after rest : List Char}
      (hkey : IsKey key.toList k) (hblanks : AreBlank blanks) (hne : blanks ≠ [])
      (hvalue : IsWritten value.toList v) (hafter : blankAhead after = true)
      (hleads : Leads rest false after) (hrest : Remains es rest) :
      Remains ((key, value) :: es) (k ++ ':' :: (blanks ++ (v ++ after)))

/-- What writes a text begins with neither a blank nor a comment. -/
theorem IsWritten.beginsKey (h : IsWritten text cs) (after : List Char) :
    BeginsKey (cs ++ after) := by
  cases h with
  | plain hbegins hwords =>
    have hahead := hwords.blankAhead_append after
    cases cs with
    | nil => exact hbegins.elim
    | cons c cs =>
      rw [List.cons_append, blankAhead, Bool.not_eq_false'] at hahead
      refine ⟨hahead, ?_, hbegins.1⟩
      rintro rfl
      exact hbegins.2.elim (fun h => h (by decide)) fun h => absurd h.1 (by decide)
  | single _ => exact ⟨rfl, by decide, rfl⟩
  | double _ => exact ⟨rfl, by decide, rfl⟩

theorem BeginsKey.exists_cons (h : BeginsKey rest) : ∃ c cs, rest = c :: cs :=
  List.exists_cons_of_ne_nil fun hnil => by
    rw [hnil] at h
    exact h

theorem IsWritten.ne_nil (h : IsWritten text cs) : cs ≠ [] := by
  rintro rfl
  exact h.beginsKey []

theorem BeginsKey.blankAhead (h : BeginsKey rest) : blankAhead rest = false := by
  cases rest with
  | nil => exact h.elim
  | cons c rest => rw [Yaml.blankAhead, h.1]; rfl

/-- The first key that is left stands at the beginning of a line. -/
theorem Leads.exists_lineBreak (h : Leads rest allowed cs) (hne : rest ≠ []) :
    ∃ front c, cs = front ++ c :: rest ∧ isBreak c = true := by
  induction h with
  | done => exact absurd rfl hne
  | @key _ c rest hc _ => exact ⟨[], c, rfl, hc⟩
  | @lineBreak _ d _ _ _ _ ih =>
    obtain ⟨front, c, rfl, hc⟩ := ih hne
    exact ⟨d :: front, c, rfl, hc⟩
  | @blank _ d _ _ _ _ ih =>
    obtain ⟨front, c, rfl, hc⟩ := ih hne
    exact ⟨d :: front, c, rfl, hc⟩
  | @comment _ text _ _ _ _ _ ih =>
    obtain ⟨front, c, rfl, hc⟩ := ih hne
    exact ⟨'#' :: (text ++ front), c, by rw [List.cons_append, List.append_assoc], hc⟩

theorem Leads.suffix (h : Leads rest allowed cs) : rest <:+ cs := by
  by_cases hne : rest = []
  · rw [hne]
    exact List.nil_suffix
  · obtain ⟨front, c, rfl, -⟩ := h.exists_lineBreak hne
    exact ⟨front ++ [c], by rw [List.append_assoc, List.singleton_append]⟩

/-! ## What is written on a line -/

theorem AreWords.noBreak (h : AreWords cs) : ∀ c ∈ cs, isBreak c = false := by
  induction h with
  | word hw => exact fun c hc => isBreak_of_isInk (hw.ink c hc)
  | cons hw hblanks _ _ _ ih =>
    intro c hc
    rcases List.mem_append.1 hc with hc | hc
    · exact isBreak_of_isInk (hw.ink c hc)
    rcases List.mem_append.1 hc with hc | hc
    · exact isBreak_of_isBlank (hblanks c hc)
    · exact ih c hc

theorem isBreak_of_hexDigit? {d : Nat} (h : hexDigit? c = some d) : isBreak c = false := by
  cases hbreak : isBreak c with
  | false => rfl
  | true =>
    rw [isBreak, Bool.or_eq_true, Bool.or_eq_true, decide_eq_true_iff, decide_eq_true_iff,
      decide_eq_true_iff] at hbreak
    rcases hbreak with (rfl | hc) | hc
    · cases h
    · rw [hexDigit?, hc] at h
      cases h
    · rw [hexDigit?, hc] at h
      cases h

/-- What stands in the one of two lists has a counterpart in the other. -/
theorem exists_of_forall₂ {α β : Type} {R : α → β → Prop} {as : List α} {bs : List β} {a : α}
    (h : List.Forall₂ R as bs) (ha : a ∈ as) : ∃ b ∈ bs, R a b := by
  induction h with
  | nil => cases ha
  | cons hab _ ih =>
    rcases List.mem_cons.1 ha with rfl | ha
    · exact ⟨_, List.mem_cons_self, hab⟩
    · obtain ⟨b, hb, h⟩ := ih ha
      exact ⟨b, List.mem_cons_of_mem _ hb, h⟩

theorem PieceText.noBreak {piece : List Char} (h : PieceText c piece) :
    ∀ d ∈ piece, isBreak d = false := by
  cases h with
  | plain _ _ hbreak =>
    intro d hd
    rw [List.mem_singleton.1 hd]
    exact hbreak
  | @short e he =>
    have hletter : isBreak e = false := by
      cases hbreak : isBreak e with
      | false => rfl
      | true =>
        rw [shortEscape?_of_isBreak hbreak] at he
        cases he
    intro d hd
    rcases List.mem_pair.1 hd with rfl | rfl
    · rfl
    · exact hletter
  | @code mark n ds hmark _ hc =>
    have hletter : isBreak mark = false := by
      simp only [List.mem_cons, Prod.mk.injEq, List.not_mem_nil, or_false] at hmark
      rcases hmark with ⟨rfl, -⟩ | ⟨rfl, -⟩ | ⟨rfl, -⟩ <;> rfl
    obtain ⟨digits, hdigits, -⟩ := Option.bind_eq_some_iff.1 hc
    have hread := Json.mapM_eq_some_iff.1 hdigits
    intro d hd
    rcases List.mem_cons.1 hd with rfl | hd
    · rfl
    rcases List.mem_cons.1 hd with rfl | hd
    · exact hletter
    · obtain ⟨n, -, hn⟩ := exists_of_forall₂ hread hd
      exact isBreak_of_hexDigit? hn

theorem IsWritten.noBreak (h : IsWritten text cs) : ∀ c ∈ cs, isBreak c = false := by
  cases h with
  | plain _ hwords => exact hwords.noBreak
  | single hbreak =>
    intro c hc
    rcases List.mem_cons.1 hc with rfl | hc
    · rfl
    rcases List.mem_append.1 hc with hc | hc
    · obtain ⟨d, hd, hc⟩ := List.mem_flatMap.1 hc
      rw [inSingle] at hc
      split at hc
      · rcases List.mem_pair.1 hc with rfl | rfl <;> rfl
      · rw [List.mem_singleton.1 hc]
        exact hbreak d hd
    · rw [List.mem_singleton.1 hc]
      rfl
  | @double pieces hpieces =>
    intro c hc
    rcases List.mem_cons.1 hc with rfl | hc
    · rfl
    rcases List.mem_append.1 hc with hc | hc
    · obtain ⟨piece, hpiece, hc⟩ := List.mem_flatten.1 hc
      have hflipped := List.Forall₂.flip (R := flip PieceText) hpieces
      obtain ⟨d, -, hd⟩ := exists_of_forall₂ hflipped hpiece
      exact PieceText.noBreak hd c hc
    · rw [List.mem_singleton.1 hc]
      rfl

theorem markerAhead_append {marker : List Char} (hcolon : ':' ∉ marker)
    (h : markerAhead marker text = false) : markerAhead marker (text ++ ':' :: cs) = false := by
  rw [markerAhead, Option.any_eq_false] at h ⊢
  intro rest hrest
  rw [Text.afterPrefix?_eq_some_iff] at hrest
  rcases List.append_eq_append_iff.1 hrest with ⟨more, hmarker, hmore⟩ | ⟨more, htext, hmore⟩
  · cases more with
    | nil =>
      cases hmore
      rfl
    | cons d more =>
      cases hmore
      exact absurd (hmarker ▸ List.mem_append_right _ List.mem_cons_self) hcolon
  · cases more with
    | nil =>
      cases hmore
      rfl
    | cons d more =>
      cases hmore
      exact h (d :: more) (Text.afterPrefix?_eq_some_iff.2 htext)

/-- A key is no marker, for its colon is on the line. -/
theorem IsKey.markerLine_append (h : IsKey text cs) (rest : List Char) :
    markerLine (cs ++ ':' :: rest) = false := by
  have hmarker := h.noMarker
  rw [markerLine, Bool.or_eq_false_iff] at hmarker ⊢
  exact ⟨markerAhead_append (by decide) hmarker.1, markerAhead_append (by decide) hmarker.2⟩

/-! ## Passing over what is no text -/

theorem passBlanks_break (comment : Bool) (hc : isBreak c = true) :
    passBlanks false comment lineStart allowed (c :: cs) = passBlanks false false true true cs := by
  rw [passBlanks, if_pos hc, Bool.not_false, Bool.or_true]

/-- At the end of a line, its comment is over. -/
theorem passBlanks_lineEnd (hcs : lineEndAhead cs = true) :
    passBlanks false true false allowed cs = passBlanks false false false allowed cs := by
  cases cs with
  | nil => rfl
  | cons c cs => rw [passBlanks_break true hcs, passBlanks_break false hcs]

theorem passBlanks_comment (hbreak : ∀ c ∈ text, isBreak c = false) :
    passBlanks false true false allowed (text ++ cs) = passBlanks false true false allowed cs := by
  induction text with
  | nil => rfl
  | cons c text ih =>
    have hc := hbreak c List.mem_cons_self
    rw [List.cons_append, passBlanks, if_neg (by simp [hc]), if_pos rfl,
      ih fun d hd => hbreak d (List.mem_cons_of_mem c hd)]

theorem passBlanks_key (hcs : BeginsKey cs) :
    passBlanks false false lineStart allowed cs = (cs, allowed) := by
  cases cs with
  | nil => exact hcs.elim
  | cons c cs =>
    obtain ⟨hink, hcomment, hmark⟩ := hcs
    have hblank : ¬ (c = ' ' ∨ (c = '\t' ∧ (false = true ∨ (!allowed) = true)) ∨
        (isByteOrderMark c = true ∧ lineStart = true)) := by
      rintro (rfl | ⟨rfl, -⟩ | ⟨h, -⟩)
      · cases hink
      · cases hink
      · rw [hmark] at h
        cases h
    rw [passBlanks, if_neg (by simp [isBreak_of_isInk hink]), if_neg Bool.false_ne_true,
      if_neg hblank, if_neg hcomment]

/-- On the way to a key, nothing stops the passing of blanks, and a key may begin there. -/
theorem passBlanks_of_leads (h : Leads rest allowed cs) (lineStart : Bool) :
    ∃ allowed', passBlanks false false lineStart allowed cs = (rest, allowed') ∧
      (rest ≠ [] → allowed' = true) := by
  induction h generalizing lineStart with
  | done => exact ⟨_, rfl, fun h => absurd rfl h⟩
  | key hc hrest =>
    rw [passBlanks_break false hc, passBlanks_key hrest]
    exact ⟨true, rfl, fun _ => rfl⟩
  | lineBreak hc _ ih =>
    rw [passBlanks_break false hc]
    exact ih true
  | @blank b c _ _ hc _ ih =>
    have hbreak : isBreak c = false := by
      rcases hc with rfl | ⟨rfl, -⟩ <;> rfl
    have hblank : c = ' ' ∨ (c = '\t' ∧ (false = true ∨ (!b) = true)) ∨
        (isByteOrderMark c = true ∧ lineStart = true) :=
      hc.imp_right fun h => .inl ⟨h.1, .inr (by rw [h.2]; rfl)⟩
    rw [passBlanks, if_neg (by simp [hbreak]), if_neg Bool.false_ne_true, if_pos hblank]
    exact ih false
  | comment hbreak hcs _ ih =>
    rw [passBlanks, if_neg (by decide), if_neg Bool.false_ne_true,
      if_neg (by simp [isByteOrderMark]), if_pos rfl, passBlanks_comment hbreak,
      passBlanks_lineEnd hcs]
    exact ih false

/-- The ways in which the reader of a plain text leaves what leads to a key: it stops at the key, or
before that at a comment or at the end. -/
inductive Left (rest : List Char) (lineEnded : Bool) : List Char → Prop where
  | key (hrest : BeginsKey rest) (hended : lineEnded = true) : Left rest lineEnded rest
  | leads {cs : List Char} (h : Leads rest lineEnded cs) : Left rest lineEnded cs

theorem readGap_of_leads {b : Bool} (column : Nat) (h : Leads rest b cs) (hb : l.broken = b) :
    ∃ (l' : Lines) (column' : Nat) (cs' : List Char),
      readGap 1 l column cs = .ok (l', column', cs') ∧ l'.text = l.text ∧ cs' <:+ cs ∧
        Left rest l'.broken cs' ∧ (column' = 0 ∨ cs' = [] ∨ cs'.head? = some '#') := by
  induction h generalizing l column with
  | done => exact ⟨l, column, [], rfl, rfl, List.suffix_rfl, .leads .done, .inr (.inl rfl)⟩
  | @key b c rest hc hrest =>
    have hink : isInk c = false := by
      rw [isInk, hc, Bool.not_true, Bool.and_false]
    have htab : ¬ (c = '\t' ∧ l.broken = true ∧ column < 1) := by
      rintro ⟨rfl, -⟩
      cases hc
    obtain ⟨d, rest, rfl⟩ := List.exists_cons_of_ne_nil (l := rest) (by rintro rfl; exact hrest)
    refine ⟨l.pushGap c, 0, d :: rest, ?_, rfl, List.suffix_cons _ _,
      .key hrest (Lines.broken_pushGap_of_broken (.inr hc)), .inl rfl⟩
    rw [readGap, if_neg (by simp [hink]), if_neg htab, if_pos hc, readGap, if_pos hrest.1]
  | @lineBreak b c rest cs hc _ ih =>
    have hink : isInk c = false := by
      rw [isInk, hc, Bool.not_true, Bool.and_false]
    have htab : ¬ (c = '\t' ∧ l.broken = true ∧ column < 1) := by
      rintro ⟨rfl, -⟩
      cases hc
    obtain ⟨l', column', cs', hread, htext, hsuffix, hleft⟩ :=
      ih (l := l.pushGap c) 0 (Lines.broken_pushGap_of_broken (.inr hc))
    refine ⟨l', column', cs', ?_, htext, hsuffix.trans (List.suffix_cons _ _), hleft⟩
    rw [readGap, if_neg (by simp [hink]), if_neg htab, if_pos hc, hread]
  | @blank b c rest cs hc _ ih =>
    have hblank : isBlank c = true := by
      rcases hc with rfl | ⟨rfl, -⟩ <;> rfl
    have hbreak := isBreak_of_isBlank hblank
    have htab : ¬ (c = '\t' ∧ l.broken = true ∧ column < 1) := by
      rintro ⟨rfl, hbroken, -⟩
      rw [hb, (hc.resolve_left (by decide)).2] at hbroken
      cases hbroken
    have hbroken : (l.pushGap c).broken = b := by
      rw [← hb]
      cases hl : l.broken with
      | false => exact Lines.broken_pushGap hl hbreak
      | true => exact Lines.broken_pushGap_of_broken (.inl hl)
    obtain ⟨l', column', cs', hread, htext, hsuffix, hleft⟩ := ih (column + 1) hbroken
    refine ⟨l', column', cs', ?_, htext, hsuffix.trans (List.suffix_cons _ _), hleft⟩
    rw [readGap, if_neg (by simp [isInk_of_isBlank hblank]), if_neg htab, if_neg (by simp [hbreak]),
      hread]
  | comment hbreak hcs h ih =>
    refine ⟨l, column, _, ?_, rfl, List.suffix_rfl, .leads (.comment hbreak hcs (hb ▸ h)),
      .inr (.inr rfl)⟩
    rw [readGap]
    exact if_pos rfl

/-- A plain text at a comment, or at the end of all. -/
theorem readPlain_stop (h : cs = [] ∨ cs.head? = some '#') :
    readPlain false indent fuel l column cs = .ok (l, cs) := by
  cases fuel with
  | zero => rfl
  | succ fuel =>
    rw [readPlain]
    rcases h with rfl | h
    · split <;> rfl
    · rw [if_pos (.inr h)]

/-- Behind the value of an entry, a plain text ends on the way to the next key. -/
theorem readBehind_of_leads (h : Leads rest false after) (hafter : blankAhead after = true)
    (hgap : l.gap = .blanks []) :
    ∃ (l' : Lines) (cs' : List Char), readBehind 1 fuel l column after = .ok (l', cs') ∧
      l'.text = l.text ∧ cs' <:+ after ∧ Left rest l'.broken cs' := by
  cases after with
  | nil =>
    refine ⟨l, [], rfl, rfl, List.suffix_rfl, .leads ?_⟩
    rw [broken_of_gap hgap]
    exact h
  | cons c cs =>
    obtain ⟨l', column', cs', hread, htext, hsuffix, hleft, hstop⟩ :=
      readGap_of_leads column h (broken_of_gap hgap)
    refine ⟨l', cs', ?_, htext, hsuffix, hleft⟩
    have hink : isInk c = false := by
      rw [blankAhead, Bool.not_eq_true'] at hafter
      exact hafter
    simp only [readBehind, hink, Bool.false_eq_true, if_false, hread, bind, Except.bind, pure,
      Except.pure]
    rcases hstop with rfl | hstop
    · rw [if_pos Nat.zero_lt_one]
    · rw [readPlain_stop hstop, ite_self]

/-! ## From lines to keys -/

theorem leads_comment (hcomment : IsComment comment) (hcs : lineEndAhead cs = true)
    (h : Leads rest allowed cs) : Leads rest allowed (comment ++ cs) := by
  cases hcomment with
  | none => exact h
  | comment hbreak => exact .comment hbreak hcs h

theorem leads_blanks (hgap : ∀ c ∈ gap, c = ' ' ∨ (c = '\t' ∧ allowed = false))
    (h : Leads rest allowed cs) : Leads rest allowed (gap ++ cs) := by
  induction gap with
  | nil => exact h
  | cons c gap ih =>
    exact .blank (hgap c List.mem_cons_self) (ih fun d hd => hgap d (List.mem_cons_of_mem c hd))

theorem AreBlank.eq_or_eq (h : AreBlank gap) (hc : c ∈ gap) : c = ' ' ∨ c = '\t' := by
  have := h c hc
  rwa [isBlank, Bool.or_eq_true, decide_eq_true_iff, decide_eq_true_iff] at this

/-- Where a line without an entry leads. -/
theorem leads_filler {n : Nat} (hcomment : IsComment comment) (hcs : lineEndAhead cs = true)
    (h : Leads rest allowed cs) :
    Leads rest allowed (List.replicate n ' ' ++ comment ++ cs) := by
  rw [List.append_assoc]
  refine leads_blanks (fun c hc => .inl ?_) (leads_comment hcomment hcs h)
  exact List.eq_of_mem_replicate hc

/-- Where what stands behind a value leads. -/
theorem leads_after (hgap : AreBlank gap) (hcomment : IsComment comment)
    (hcs : lineEndAhead cs = true) (h : Leads rest false cs) :
    Leads rest false (gap ++ comment ++ cs) := by
  rw [List.append_assoc]
  exact leads_blanks (fun c hc => (hgap.eq_or_eq hc).imp_right fun h => ⟨h, rfl⟩)
    (leads_comment hcomment hcs h)

theorem blankAhead_after (hgap : AreBlank gap) (hcomment : IsComment comment)
    (hapart : comment ≠ [] → gap ≠ []) (hcs : lineEndAhead cs = true) :
    blankAhead (gap ++ comment ++ cs) = true := by
  cases gap with
  | cons c gap =>
    rw [List.cons_append, List.cons_append, blankAhead,
      isInk_of_isBlank (hgap c List.mem_cons_self)]
    rfl
  | nil =>
    cases hcomment with
    | comment _ => exact absurd rfl (hapart (List.cons_ne_nil _ _))
    | none =>
      cases cs with
      | nil => rfl
      | cons c cs =>
        have hc : isBreak c = true := hcs
        rw [List.nil_append, List.nil_append, blankAhead, isInk, hc, Bool.not_true, Bool.and_false]
        rfl

/-- A flat mapping from a line on: it begins with a key, or something leads to the first. -/
theorem exists_remains (h : IsFlat [['\n']] es cs) :
    ∃ rest, Remains es rest ∧ Left rest true cs := by
  induction h with
  | @last es line hline _ =>
    cases hline with
    | filler hcomment =>
      refine ⟨[], .nil, .leads ?_⟩
      rw [← List.append_nil (_ ++ _)]
      exact leads_filler hcomment rfl .done
    | entry hkey hblanks hne hvalue hgap hcomment hapart =>
      refine ⟨_, .cons hkey hblanks hne hvalue ?_ ?_ .nil, .key (hkey.written.beginsKey _) rfl⟩
      · rw [← List.append_nil (_ ++ _)]
        exact blankAhead_after hgap hcomment hapart rfl
      · rw [← List.append_nil (_ ++ _)]
        exact leads_after hgap hcomment rfl .done
  | @cons es es' line lineBreak cs hline _ hbreak _ ih =>
    obtain ⟨rest, hrest, hleft⟩ := ih
    cases List.mem_singleton.1 hbreak
    have hleads : ∀ b, Leads rest b ('\n' :: cs) := by
      intro b
      cases hleft with
      | key hbegins _ => exact .key rfl hbegins
      | leads h => exact .lineBreak rfl h
    cases hline with
    | filler hcomment => exact ⟨rest, hrest, .leads (leads_filler hcomment rfl (hleads true))⟩
    | entry hkey hblanks hne hvalue hgap hcomment hapart =>
      have hremains := Remains.cons hkey hblanks hne hvalue
        (blankAhead_after hgap hcomment hapart (rfl : lineEndAhead ('\n' :: cs) = true))
        (leads_after hgap hcomment rfl (hleads false)) hrest
      refine ⟨_, hremains, ?_⟩
      simp only [List.cons_append, List.append_assoc, List.nil_append]
      exact .key (hkey.written.beginsKey _) rfl

/-! ## Line breaks and marks -/

theorem normalizeBreaks_append (hprint : ∀ c ∈ line, isPrintable c = true) :
    normalizeBreaks (line ++ cs) = line ++ normalizeBreaks cs := by
  induction line with
  | nil => rfl
  | cons c line ih =>
    have hc := hprint c List.mem_cons_self
    have hreturn : c ≠ '\r' := by
      rintro rfl
      cases hc
    have hnext : c.toNat ≠ 0x85 := by
      intro h
      rw [isPrintable, h] at hc
      cases hc
    rw [List.cons_append, normalizeBreaks, if_neg hnext,
      ih fun d hd => hprint d (List.mem_cons_of_mem c hd), List.cons_append]
    all_goals
      intros
      contradiction

/-- The reader sees line feeds only, and no character that documents must not hold. -/
theorem IsFlat.normalizeBreaks (h : IsFlat [['\n'], ['\r', '\n']] es cs) :
    IsFlat [['\n']] es (normalizeBreaks cs) ∧
      (Yaml.normalizeBreaks cs).all isPrintable = true := by
  induction h with
  | @last es line hline hprint =>
    have hline' : Yaml.normalizeBreaks line = line := by
      have hnil : Yaml.normalizeBreaks (line ++ []) = line ++ Yaml.normalizeBreaks [] :=
        normalizeBreaks_append hprint
      rwa [List.append_nil, Yaml.normalizeBreaks, List.append_nil] at hnil
    rw [hline']
    exact ⟨.last hline hprint, List.all_eq_true.2 hprint⟩
  | @cons es es' line lineBreak cs hline hprint hbreak _ ih =>
    have hfeed : Yaml.normalizeBreaks (lineBreak ++ cs) = '\n' :: Yaml.normalizeBreaks cs := by
      rcases List.mem_pair.1 hbreak with rfl | rfl
      · rw [List.singleton_append, Yaml.normalizeBreaks, if_neg (by decide)]
        all_goals
          intros
          contradiction
      · rfl
    rw [normalizeBreaks_append hprint, hfeed]
    refine ⟨.cons hline hprint (List.mem_singleton.2 rfl) ih.1, ?_⟩
    rw [List.all_append, List.all_cons, ih.2, List.all_eq_true.2 hprint]
    rfl

theorem IsLine.noMark (h : IsLine es line) (hc : line.head? = some c) :
    isByteOrderMark c = false := by
  cases h with
  | @filler n comment hcomment =>
    cases n with
    | succ n =>
      cases hc
      rfl
    | zero =>
      cases hcomment with
      | none => cases hc
      | comment _ =>
        cases hc
        rfl
  | @entry _ _ k blanks v gap comment hkey _ _ _ _ _ _ =>
    have hbegins := hkey.written.beginsKey (':' :: (blanks ++ (v ++ (gap ++ comment))))
    generalize k ++ ':' :: (blanks ++ (v ++ (gap ++ comment))) = cs at hc hbegins
    cases cs with
    | nil => cases hc
    | cons d cs =>
      cases hc
      exact hbegins.2.2

/-- A document begins with no mark of its own. -/
theorem IsFlat.noMark (h : IsFlat [['\n'], ['\r', '\n']] es (c :: cs)) :
    isByteOrderMark c = false := by
  generalize hall : c :: cs = all at h
  cases h with
  | last hline _ => exact hline.noMark (by rw [← hall]; rfl)
  | @cons _ _ line lineBreak cs' hline _ hbreak _ =>
    cases line with
    | cons d line =>
      cases hall
      exact hline.noMark rfl
    | nil =>
      rcases List.mem_pair.1 hbreak with rfl | rfl
      · cases hall
        rfl
      · cases hall
        rfl

end ImagePipeline.Yaml
