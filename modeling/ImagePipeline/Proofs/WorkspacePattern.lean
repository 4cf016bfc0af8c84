import ImagePipeline.Cleanup
import ImagePipeline.Files.Pattern
import ImagePipeline.Proofs.PathResolution
import Mathlib.Tactic.ByContra

/-!
# The pattern of workspaces

The pattern of a pull request's workspaces is a path whose last name alone is wild.  Whatever the
job is called, that name ends as it is written: in the sign before the number, the number and a
star.

* `PatternToken.read_append_finish`: an end without wildcards but the last star is read as it is.
* `PathPattern.read_append`: what is read of a pattern whose last name alone is wild.
* `TakenForWorkspace`: the names that the pattern matches, `NamesWorkspace` those that the
  scheduler gives.  `takenForWorkspace_iff_prefix` compares the two: a workspace of another pull
  request is taken for one of this when the number of this begins that of the other.
-/

namespace ImagePipeline.Files

namespace PatternToken

variable {position : Nat} {inName : Bool} {c : Char} {cs name : List Char}

/-! ## Reading -/

/-- A character that is no wildcard. -/
def IsPlain (c : Char) : Prop := c ≠ '?' ∧ c ≠ '*' ∧ c ≠ '['

theorem isPlain_of_all {cs : List Char} (h : cs.all (fun c => !"?*[".toList.contains c) = true) :
    ∀ c ∈ cs, IsPlain c := by
  intro c hc
  have htest := List.all_eq_true.1 h c hc
  rw [Bool.not_eq_true', List.contains_eq_mem, decide_eq_false_iff_not] at htest
  simpa [IsPlain] using htest

theorem read_cons_of_isPlain (hc : IsPlain c) (rest : List Char) :
    read position inName (c :: rest) = (char c :: ·) <$> read (position + 1) (c != '/') rest := by
  obtain ⟨hany, hstar, hclass⟩ := hc
  rw [read]
  · exact hany
  · intro _ h
    exact absurd h hstar
  · intro _ h
    exact absurd h hstar
  · exact hstar
  · exact hclass

theorem read_star_cons (h : cs.head? ≠ some '*') :
    read position inName ('*' :: cs) = (sequence :: ·) <$> read (position + 1) true cs := by
  rw [read]
  · intro rest hrest
    exact h (by rw [hrest]; rfl)
  · intro rest hrest
    exact h (by rw [hrest]; rfl)

/-- Characters that are no wildcards stand for themselves. -/
theorem read_append_of_isPlain (position : Nat) (inName : Bool) (hcs : ∀ c ∈ cs, IsPlain c)
    (rest : List Char) :
    ∃ position' inName', read position inName (cs ++ rest) =
      (cs.map char ++ ·) <$> read position' inName' rest := by
  induction cs generalizing position inName with
  | nil => exact ⟨position, inName, (id_map _).symm⟩
  | cons c cs ih =>
    obtain ⟨position', inName', hread⟩ :=
      ih (position + 1) (c != '/') fun d hd => hcs d (List.mem_cons_of_mem _ hd)
    refine ⟨position', inName', ?_⟩
    rw [List.cons_append, read_cons_of_isPlain (hcs c List.mem_cons_self), hread]
    cases read position' inName' rest <;> rfl

theorem read_of_isPlain (hcs : ∀ c ∈ cs, IsPlain c) :
    read position inName cs = .ok (cs.map char) := by
  obtain ⟨position', inName', hread⟩ :=
    read_append_of_isPlain position inName hcs []
  rw [List.append_nil] at hread
  rw [hread, read]
  exact congrArg Except.ok (List.append_nil _)

/-- Plain characters with a star after them. -/
theorem read_append_star (hcs : ∀ c ∈ cs, IsPlain c) :
    read position inName (cs ++ ['*']) = .ok (cs.map char ++ [sequence]) := by
  obtain ⟨position', inName', hread⟩ :=
    read_append_of_isPlain position inName hcs ['*']
  rw [hread, read_star_cons (by decide), read]
  rfl

/-! ## Matching -/

@[simp] theorem matchName_sequence (cs : List Char) : matchName [sequence] cs = true := by
  induction cs with
  | nil => rw [matchName, matchName]; rfl
  | cons c cs ih => rw [matchName, ih, Bool.or_true]

theorem matchName_char_cons (c : Char) (ts : List PatternToken) (cs : List Char) :
    matchName (char c :: ts) cs = true ↔ ∃ rest, cs = c :: rest ∧ matchName ts rest = true := by
  cases cs with
  | nil =>
    rw [matchName]
    · constructor
      · intro hfalse
        cases hfalse
      · rintro ⟨_, hnil, -⟩
        cases hnil
    · intro heq
      cases heq
    · intro heq
      cases heq
  | cons d ds =>
    rw [matchName]
    · rw [Bool.and_eq_true, accepts, decide_eq_true_iff]
      constructor
      · rintro ⟨rfl, hds⟩
        exact ⟨ds, rfl, hds⟩
      · rintro ⟨rest, hcons, hrest⟩
        cases hcons
        exact ⟨rfl, hrest⟩
    · intro heq
      cases heq
    · intro heq
      cases heq

/-- Plain characters with a star after them match what begins with the characters. -/
theorem matchName_append_sequence :
    matchName (cs.map char ++ [sequence]) name = true ↔ cs <+: name := by
  induction cs generalizing name with
  | nil => simp
  | cons c cs ih =>
    rw [List.map_cons, List.cons_append, matchName_char_cons]
    constructor
    · rintro ⟨rest, rfl, hrest⟩
      exact List.cons_prefix_cons.2 ⟨rfl, ih.1 hrest⟩
    · rintro ⟨rest, rfl⟩
      exact ⟨cs ++ rest, rfl, ih.2 (List.prefix_append _ _)⟩

/-- What matches holds every character of the tokens. -/
theorem mem_of_matchName {ts : List PatternToken} (h : matchName ts cs = true)
    (hc : char c ∈ ts) : c ∈ cs := by
  fun_induction matchName ts cs with
  | case1 => exact absurd hc List.not_mem_nil
  | case2 ts ih =>
    rcases List.mem_cons.1 hc with hc | hc
    · cases hc
    · exact ih h hc
  | case3 ts d ds ihSkip ihTake =>
    rw [Bool.or_eq_true] at h
    rcases h with h | h
    · rcases List.mem_cons.1 hc with hc | hc
      · cases hc
      · exact ihSkip h hc
    · exact List.mem_cons_of_mem d (ihTake h hc)
  | case4 => cases h
  | case5 t ts d ds _ _ ih =>
    rw [Bool.and_eq_true] at h
    rcases List.mem_cons.1 hc with rfl | hc
    · have hd : d = c := by simpa [accepts] using h.1
      exact hd ▸ List.mem_cons_self
    · exact List.mem_cons_of_mem d (ih h.2 hc)
  | case6 => cases h

/-! ## The end of a pattern -/

/-- A cut that is found before an end without the separator leaves the end alone. -/
theorem cutChars_append {sep : Char} {front finish left right : List Char}
    (hfinish : sep ∉ finish) (h : Text.cutChars sep (front ++ finish) = some (left, right)) :
    ∃ rest, front = left ++ sep :: rest ∧ right = rest ++ finish := by
  obtain ⟨hsplit, -⟩ := Text.cutChars_eq_some_iff.1 h
  rcases List.append_eq_append_iff.1 hsplit with ⟨mid, rfl, hmid⟩ | ⟨mid, rfl, hmid⟩
  · exact absurd (hmid ▸ List.mem_append_right mid List.mem_cons_self) hfinish
  · cases mid with
    | nil =>
      rw [List.nil_append] at hmid
      exact absurd (hmid ▸ List.mem_cons_self) hfinish
    | cons d mid =>
      obtain ⟨rfl, rfl⟩ := List.cons.inj hmid
      exact ⟨mid, rfl, rfl⟩

/-- A class ends at the first closing bracket after its first character. -/
theorem readClass_eq_some {token : PatternToken}
    {after : { rest : List Char // rest.length < cs.length }}
    (h : readClass cs = some (token, after)) :
    ∃ first more inner, (cs = '!' :: first :: more ∨ (cs = first :: more ∧ first ≠ '!')) ∧
      Text.cutChars ']' more = some (inner, after.1) := by
  unfold readClass at h
  split at h
  next first more =>
    split at h
    next inner rest hcut =>
      cases h
      exact ⟨first, more, inner, .inl rfl, hcut⟩
    next => cases h
  next => cases h
  next first more hnext hlast =>
    split at h
    next inner rest hcut =>
      cases h
      refine ⟨first, more, inner, .inr ⟨rfl, ?_⟩, hcut⟩
      rintro rfl
      cases more with
      | nil => exact hlast rfl rfl
      | cons c more => exact hnext c more rfl rfl
    next => cases h
  next => cases h

/-- A class that is closed before such an end leaves it alone, too. -/
theorem readClass_append {first : Char} {finish : List Char} (hfirst : first ≠ '!')
    (hfinish : ']' ∉ finish) {token : PatternToken}
    {after : { rest : List Char // rest.length < (cs ++ first :: finish).length }}
    (hclose : ']' ≠ first) (h : readClass (cs ++ first :: finish) = some (token, after)) :
    ∃ rest, after.1 = rest ++ first :: finish ∧ rest.length < cs.length := by
  have hlong : ']' ∉ first :: finish := by
    rw [List.mem_cons, not_or]
    exact ⟨hclose, hfinish⟩
  have hshort {inner rest : List Char} : Text.cutChars ']' finish ≠ some (inner, rest) := by
    intro hcut
    obtain ⟨hsplit, -⟩ := Text.cutChars_eq_some_iff.1 hcut
    exact hfinish (hsplit ▸ List.mem_append_right _ List.mem_cons_self)
  obtain ⟨c, more, inner, hcs | ⟨hcs, hc⟩, hcut⟩ := readClass_eq_some h
  · match cs with
    | [] => exact absurd (List.cons.inj hcs).1 hfirst
    | [d] =>
      obtain ⟨-, rfl⟩ := List.cons.inj (List.cons.inj hcs).2
      exact absurd hcut hshort
    | d :: d' :: ds =>
      obtain ⟨-, rfl⟩ := List.cons.inj (List.cons.inj hcs).2
      obtain ⟨rest, rfl, hafter⟩ := cutChars_append hlong hcut
      exact ⟨rest, hafter, by simp only [List.length_cons, List.length_append]; omega⟩
  · match cs with
    | [] =>
      obtain ⟨-, rfl⟩ := List.cons.inj hcs
      exact absurd hcut hshort
    | d :: ds =>
      obtain ⟨-, rfl⟩ := List.cons.inj hcs
      obtain ⟨rest, rfl, hafter⟩ := cutChars_append hlong hcut
      exact ⟨rest, hafter, by simp only [List.length_cons, List.length_append]; omega⟩

theorem exists_of_map_eq_ok {token : PatternToken} {tokens : List PatternToken}
    {r : Except PatternError (List PatternToken)} (h : (token :: ·) <$> r = .ok tokens) :
    ∃ rest, r = .ok rest ∧ tokens = token :: rest := by
  cases r with
  | error error => cases h
  | ok rest =>
    cases h
    exact ⟨rest, rfl, rfl⟩

/-- Two stars are read only in front of a slash, or of nothing. -/
theorem eq_slash_of_read_stars {tokens : List PatternToken}
    (h : read position inName ('*' :: '*' :: c :: cs) = .ok tokens) :
    c = '/' ∧ (directories :: ·) <$> read (position + 3) false cs = .ok tokens := by
  by_cases hstar : c = '*'
  · subst hstar
    rw [read] at h
    cases h
  by_cases hslash : c = '/'
  · subst hslash
    rw [read] at h
    split at h
    · cases h
    · exact ⟨rfl, h⟩
  · rw [read] at h
    · split at h <;> cases h
    · exact hslash
    · intro rest hrest
      exact hstar (List.cons.inj hrest).1

/-- However a pattern begins, an end without wildcards but the last star is read as it is. -/
theorem read_append_finish {first : Char} {finish : List Char} (hfirst : first ≠ '!')
    (hplain : ∀ c ∈ first :: finish, IsPlain c) (hclose : ']' ∉ first :: finish)
    (hslash : first ≠ '/') {tokens : List PatternToken}
    (h : read position inName (cs ++ (first :: finish ++ ['*'])) = .ok tokens) :
    ∃ front, tokens = front ++ ((first :: finish).map char ++ [sequence]) := by
  rw [List.mem_cons, not_or] at hclose
  -- by the length of what stands before the end: a class takes more than one character
  induction hn : cs.length using Nat.strongRecOn generalizing cs position inName tokens with
  | ind n ih =>
    have step {token : PatternToken} {ds : List Char} {position' : Nat} {inName' : Bool}
        (hlength : ds.length < n)
        (hread : (token :: ·) <$> read position' inName' (ds ++ (first :: finish ++ ['*'])) =
          .ok tokens) :
        ∃ front, tokens = front ++ ((first :: finish).map char ++ [sequence]) := by
      obtain ⟨rest, hrest, rfl⟩ := exists_of_map_eq_ok hread
      obtain ⟨front, rfl⟩ := ih ds.length hlength hrest rfl
      exact ⟨token :: front, rfl⟩
    -- after one star or two, by what stands there
    have star {ds : List Char} (hlength : ds.length < n)
        (hread : read position inName ('*' :: (ds ++ (first :: finish ++ ['*']))) = .ok tokens) :
        ∃ front, tokens = front ++ ((first :: finish).map char ++ [sequence]) := by
      by_cases hsecond : (ds ++ (first :: finish ++ ['*'])).head? = some '*'
      · match ds with
        | [] => exact absurd (Option.some.inj hsecond) (hplain first List.mem_cons_self).2.1
        | [d] =>
          obtain rfl := Option.some.inj hsecond
          exact absurd (eq_slash_of_read_stars hread).1 hslash
        | d :: d' :: ds =>
          obtain rfl := Option.some.inj hsecond
          simp only [List.length_cons] at hlength
          exact step (by omega) (eq_slash_of_read_stars hread).2
      · rw [read_star_cons hsecond] at hread
        exact step hlength hread
    cases cs with
    | nil =>
      rw [List.nil_append, read_append_star hplain] at h
      cases h
      exact ⟨[], rfl⟩
    | cons c cs =>
      rw [List.length_cons] at hn
      rw [List.cons_append] at h
      by_cases hc : IsPlain c
      · rw [read_cons_of_isPlain hc] at h
        exact step (by omega) h
      have hwild : c = '?' ∨ c = '*' ∨ c = '[' := by
        simp only [IsPlain] at hc
        by_contra hnone
        simp only [not_or] at hnone
        exact hc hnone
      rcases hwild with rfl | rfl | rfl
      · rw [read] at h
        exact step (by omega) h
      · exact star (by omega) h
      · rw [read] at h
        split at h
        next token after hafter hclass =>
          have hfinish : ']' ∉ finish ++ ['*'] := by simpa using hclose.2
          obtain ⟨ds, rfl, hds⟩ := readClass_append hfirst hfinish hclose.1 hclass
          exact step (by omega) h
        next => cases h

end PatternToken

/-! ## Patterns with one wild name -/

namespace PathPattern

open PatternToken (IsPlain)

theorem literal?_char_cons (c : Char) (tokens : List PatternToken) :
    PatternToken.literal? (.char c :: tokens) =
      (PatternToken.literal? tokens).map fun name => String.ofList (c :: name.toList) := by
  unfold PatternToken.literal?
  rw [List.mapM_cons]
  cases List.mapM (m := Option) _ tokens with
  | none => rfl
  | some name =>
    show some (String.ofList (c :: name)) = some (String.ofList (c :: (String.ofList name).toList))
    rw [String.toList_ofList]

theorem literal?_map_char (cs : List Char) :
    PatternToken.literal? (cs.map .char) = some (String.ofList cs) := by
  induction cs with
  | nil => rfl
  | cons c cs ih =>
    rw [List.map_cons, literal?_char_cons, ih, Option.map_some, String.toList_ofList]

theorem literal?_eq_none {tokens : List PatternToken} (h : .sequence ∈ tokens) :
    PatternToken.literal? tokens = none := by
  induction tokens with
  | nil => cases h
  | cons token tokens ih =>
    cases token with
    | char c =>
      rcases List.mem_cons.1 h with h | h
      · cases h
      · rw [literal?_char_cons, ih h, Option.map_none]
    | _ => rfl

theorem nameRead_of_isPlain {name : String} (h : ∀ c ∈ name.toList, IsPlain c) :
    NamePattern.read name = .ok (.literal name) := by
  rw [NamePattern.read, PatternToken.read_of_isPlain h]
  simp only [bind, Except.bind, pure, Except.pure, literal?_map_char, String.ofList_toList]

theorem mapM_read_of_isPlain {names : List String}
    (h : ∀ name ∈ names, ∀ c ∈ name.toList, IsPlain c) :
    names.mapM NamePattern.read = .ok (names.map .literal) := by
  induction names with
  | nil => rfl
  | cons name names ih =>
    rw [List.mapM_cons, nameRead_of_isPlain (h name List.mem_cons_self),
      ih fun name' hname' => h name' (List.mem_cons_of_mem _ hname')]
    rfl

/-- A path without the slash that it may begin with. -/
def relative (path : String) : String :=
  if isAbsolute path then String.ofList path.toList.tail else path

theorem isAbsolute_append {front : String} (hfront : front ≠ "") (rest : String) :
    isAbsolute (front ++ rest) = isAbsolute front := by
  obtain ⟨c, cs, hcs⟩ := exists_toList_eq_cons hfront
  rw [isAbsolute, isAbsolute, String.toList_append, hcs]
  rfl

theorem relative_append {front : String} (hfront : front ≠ "") (rest : String) :
    relative (front ++ rest) = relative front ++ rest := by
  obtain ⟨c, cs, hcs⟩ := exists_toList_eq_cons hfront
  rw [relative, relative, isAbsolute_append hfront]
  split
  · rw [← String.toList_inj, String.toList_ofList, String.toList_append, String.toList_append,
      String.toList_ofList, hcs]
    rfl
  · rfl

theorem mem_of_mem_relative {path : String} {c : Char} (h : c ∈ (relative path).toList) :
    c ∈ path.toList := by
  rw [relative] at h
  split at h
  · rw [String.toList_ofList] at h
    exact List.mem_of_mem_tail h
  · exact h

theorem pathNames_relative (path : String) : pathNames (relative path) = pathNames path := by
  rw [relative]
  split
  next h =>
    obtain ⟨cs, hcs⟩ : ∃ cs, path.toList = '/' :: cs := by
      rw [isAbsolute, beq_iff_eq] at h
      exact List.head?_eq_some_iff.1 h
    have hpath : path = "" ++ "/" ++ String.ofList cs := by
      rw [← String.toList_inj, hcs, String.toList_append, String.toList_append,
        String.toList_ofList]
      simp
    have hempty : pathNames "" = [] := @pathNames_of_not_mem "" List.not_mem_nil
    rw [hcs, List.tail_cons]
    conv => rhs; rw [hpath]
    rw [pathNames_append_slash, hempty, List.nil_append]
  next => rfl

/-- A pattern that does not end in a slash is read name by name. -/
theorem read_eq {pattern : String} (hend : pattern.toList.getLast? ≠ some '/')
    (hlast : (Text.split '/' (relative pattern)).getLast? ≠ some "") :
    read pattern = PatternToken.read 0 false pattern.toList >>= fun _ =>
      (Text.split '/' (relative pattern)).mapM NamePattern.read >>= fun names =>
        pure ⟨isAbsolute pattern, names, false⟩ := by
  have hrelative : String.ofList (if pattern.toList.head? == some '/' then pattern.toList.tail
      else pattern.toList) = relative pattern := by
    rw [relative, isAbsolute]
    split
    · rfl
    · exact String.ofList_toList
  have honly : (pattern.toList.getLast? == some '/') = false := beq_eq_false_iff_ne.2 hend
  unfold read
  dsimp only
  rw [hrelative, honly, decide_eq_false hlast, Bool.false_and, if_neg Bool.false_ne_true]
  rfl

/-- A pattern whose names are plain but for the last. -/
theorem read_append {front last : String} (hfront : front ≠ "")
    (hplain : ∀ c ∈ front.toList, IsPlain c) (hlast : '/' ∉ last.toList) (hne : last ≠ "") :
    read (front ++ "/" ++ last) =
      PatternToken.read 0 false (front ++ "/" ++ last).toList >>= fun _ =>
        NamePattern.read last >>= fun pattern =>
          pure ⟨isAbsolute front, (Text.split '/' (relative front)).map .literal ++ [pattern],
            false⟩ := by
  have hpieces : Text.split '/' (relative (front ++ "/" ++ last)) =
      Text.split '/' (relative front) ++ [last] := by
    rw [String.append_assoc, relative_append hfront, ← String.append_assoc,
      show "/" = String.singleton '/' from rfl, Text.split_append_append,
      Text.split_of_not_mem hlast]
  have hend : (front ++ "/" ++ last).toList.getLast? ≠ some '/' := by
    intro hend
    rw [String.toList_append, List.getLast?_append] at hend
    cases hlastChar : last.toList.getLast? with
    | none => exact hne (String.toList_eq_nil_iff.1 (List.getLast?_eq_none_iff.1 hlastChar))
    | some c =>
      rw [hlastChar] at hend
      obtain rfl := Option.some.inj hend
      exact hlast (List.mem_of_getLast? hlastChar)
  have hwhole : (Text.split '/' (relative (front ++ "/" ++ last))).getLast? ≠ some "" := by
    rw [hpieces, List.getLast?_concat]
    exact fun h => hne (Option.some.inj h)
  have hfrontPlain : ∀ name ∈ Text.split '/' (relative front), ∀ c ∈ name.toList, IsPlain c :=
    fun name hname c hc => hplain c (mem_of_mem_relative (Text.mem_of_mem_split hname hc))
  have habsolute : isAbsolute (front ++ "/" ++ last) = isAbsolute front := by
    rw [String.append_assoc, isAbsolute_append hfront]
  rw [read_eq hend hwhole, hpieces, List.mapM_append, mapM_read_of_isPlain hfrontPlain, habsolute,
    List.mapM_cons, List.mapM_nil]
  cases NamePattern.read last <;> rfl

theorem exists_of_read_append {front last : String} (hfront : front ≠ "")
    (hplain : ∀ c ∈ front.toList, IsPlain c) (hlast : '/' ∉ last.toList) (hne : last ≠ "")
    {p : PathPattern} (h : read (front ++ "/" ++ last) = .ok p) :
    ∃ pattern, NamePattern.read last = .ok pattern ∧
      p = ⟨isAbsolute front, (Text.split '/' (relative front)).map .literal ++ [pattern],
        false⟩ := by
  rw [read_append hfront hplain hlast hne] at h
  cases hwhole : PatternToken.read 0 false (front ++ "/" ++ last).toList with
  | error error =>
    rw [hwhole] at h
    cases h
  | ok tokens =>
    rw [hwhole] at h
    cases hread : NamePattern.read last with
    | error error =>
      rw [hread] at h
      cases h
    | ok pattern =>
      rw [hread] at h
      cases h
      exact ⟨pattern, rfl, rfl⟩

/-- A name with a star in it is wild. -/
theorem nameRead_of_sequence {name : String} {tokens : List PatternToken}
    (h : PatternToken.read 0 false name.toList = .ok tokens) (hmem : .sequence ∈ tokens) :
    NamePattern.read name = .ok (.wild tokens) := by
  have hwild : tokens ≠ [.directories] := by
    rintro rfl
    simp at hmem
  rw [NamePattern.read, h]
  simp only [bind, Except.bind, pure, Except.pure, literal?_eq_none hmem, if_neg hwild]

/-- A pattern without wildcards but for a star at its end. -/
theorem read_append_star {dir front : String} (hdir : dir ≠ "")
    (hplainDir : ∀ c ∈ dir.toList, IsPlain c) (hplain : ∀ c ∈ front.toList, IsPlain c)
    (hslash : '/' ∉ front.toList) :
    read (dir ++ "/" ++ (front ++ "*")) =
      .ok ⟨isAbsolute dir, (Text.split '/' (relative dir)).map .literal ++
        [.wild (front.toList.map .char ++ [.sequence])], false⟩ := by
  have hname : PatternToken.read 0 false (front ++ "*").toList =
      .ok (front.toList.map .char ++ [.sequence]) := by
    rw [String.toList_append]
    exact PatternToken.read_append_star hplain
  have hwhole : PatternToken.read 0 false (dir ++ "/" ++ (front ++ "*")).toList =
      .ok ((dir ++ "/" ++ front).toList.map .char ++ [.sequence]) := by
    rw [← String.append_assoc, String.toList_append (s := dir ++ "/" ++ front)]
    refine PatternToken.read_append_star fun c hc => ?_
    rw [String.toList_append, String.toList_append, List.mem_append, List.mem_append] at hc
    rcases hc with (hc | hc) | hc
    · exact hplainDir c hc
    · exact PatternToken.isPlain_of_all (by decide) c hc
    · exact hplain c hc
  have hlast : '/' ∉ (front ++ "*").toList := by simp [hslash]
  have hne : front ++ "*" ≠ "" := fun h => absurd (String.append_eq_empty_iff.1 h).2 (by decide)
  rw [read_append hdir hplainDir hlast hne, hwhole, nameRead_of_sequence hname (by simp)]
  rfl

end PathPattern

end ImagePipeline.Files

namespace ImagePipeline

open Files
open Files.PatternToken (IsPlain)

/-! ## The names of workspaces -/

variable {job pr other name : String}

/-- The pattern of the names of a pull request's workspaces. -/
def workspaceNames (job pr : String) : String := job ++ "@pr_" ++ pr ++ "*"

/-- The cleanup takes a name for that of a workspace of the pull request. -/
def TakenForWorkspace (job pr name : String) : Prop :=
  ∃ tokens, PatternToken.read 0 false (workspaceNames job pr).toList = .ok tokens ∧
    PatternToken.matchName tokens name.toList = true

/-- The scheduler gives a name to a workspace of the pull request: the first one, or a further one
while that is in use. -/
def NamesWorkspace (job pr name : String) : Prop :=
  name = job ++ "@pr_" ++ pr ∨ ∃ suffix, name = job ++ "@pr_" ++ pr ++ "@" ++ suffix

/-- A number in a text: digits, at least one. -/
def IsNumber (pr : String) : Prop := pr ≠ "" ∧ ∀ c ∈ pr.toList, c.isDigit

theorem workspacePattern_eq (home job pr : String) :
    workspacePattern home job pr = home ++ "/workspace" ++ "/" ++ workspaceNames job pr := by
  simp only [workspacePattern, workspaceNames, String.append_assoc]
  rfl

theorem toList_workspaceNames (job pr : String) :
    (workspaceNames job pr).toList =
      job.toList ++ ('@' :: ('p' :: 'r' :: '_' :: pr.toList) ++ ['*']) := by
  simp [workspaceNames]

theorem isPlain_of_isDigit {c : Char} (h : c.isDigit) : IsPlain c := by
  refine ⟨?_, ?_, ?_⟩ <;>
  · rintro rfl
    cases h

/-- The characters that set the number off and the number are no wildcards. -/
theorem isPlain_mark (hpr : IsNumber pr) :
    ∀ c ∈ '@' :: 'p' :: 'r' :: '_' :: pr.toList, IsPlain c := by
  intro c hc
  simp only [List.mem_cons] at hc
  rcases hc with rfl | rfl | rfl | rfl | hc
  · exact ⟨by decide, by decide, by decide⟩
  · exact ⟨by decide, by decide, by decide⟩
  · exact ⟨by decide, by decide, by decide⟩
  · exact ⟨by decide, by decide, by decide⟩
  · exact isPlain_of_isDigit (hpr.2 c hc)

theorem not_mem_of_isNumber {c : Char} (hpr : IsNumber pr) (hc : c.isDigit = false) :
    c ∉ pr.toList := by
  intro hmem
  rw [hpr.2 c hmem] at hc
  cases hc

/-- However the job is called, the pattern of its workspaces is wild, and what matches it holds
the sign that sets the number off. -/
theorem read_workspaceNames (hpr : IsNumber pr) {pattern : NamePattern}
    (h : NamePattern.read (workspaceNames job pr) = .ok pattern) :
    ∃ tokens, PatternToken.read 0 false (workspaceNames job pr).toList = .ok tokens ∧
      pattern = .wild tokens ∧ .char '@' ∈ tokens := by
  rw [NamePattern.read] at h
  cases htokens : PatternToken.read 0 false (workspaceNames job pr).toList with
  | error error =>
    rw [htokens] at h
    cases h
  | ok tokens =>
    rw [htokens] at h
    obtain ⟨front, rfl⟩ : ∃ front, tokens = front ++
        (('@' :: 'p' :: 'r' :: '_' :: pr.toList).map .char ++ [.sequence]) := by
      rw [toList_workspaceNames] at htokens
      refine PatternToken.read_append_finish (by decide) (isPlain_mark hpr) ?_ (by decide) htokens
      have hclose := not_mem_of_isNumber hpr (show Char.isDigit ']' = false from rfl)
      simpa using hclose
    have hwild := PathPattern.nameRead_of_sequence htokens (by simp)
    rw [NamePattern.read, htokens] at hwild
    exact ⟨_, rfl, Except.ok.inj (h.symm.trans hwild), by simp⟩

/-- For a job without wildcards, the names taken are those that begin like the first workspace's. -/
theorem takenForWorkspace_iff (hjob : ∀ c ∈ job.toList, IsPlain c) (hpr : IsNumber pr) :
    TakenForWorkspace job pr name ↔ (job ++ "@pr_" ++ pr).toList <+: name.toList := by
  have hchars : (job ++ "@pr_" ++ pr).toList =
      job.toList ++ '@' :: 'p' :: 'r' :: '_' :: pr.toList := by simp
  have hplain : ∀ c ∈ (job ++ "@pr_" ++ pr).toList, IsPlain c := by
    intro c hc
    rw [hchars, List.mem_append] at hc
    exact hc.elim (hjob c) (isPlain_mark hpr c)
  have hread : PatternToken.read 0 false (workspaceNames job pr).toList =
      .ok ((job ++ "@pr_" ++ pr).toList.map .char ++ [.sequence]) := by
    rw [workspaceNames, String.toList_append, show "*".toList = ['*'] from rfl,
      PatternToken.read_append_star hplain]
  constructor
  · rintro ⟨tokens, htokens, hmatch⟩
    rw [hread] at htokens
    cases htokens
    exact PatternToken.matchName_append_sequence.1 hmatch
  · intro h
    exact ⟨_, hread, PatternToken.matchName_append_sequence.2 h⟩

/-- What begins a text with a separator after it, and holds none, begins the text itself. -/
theorem prefix_append_cons_iff {c : Char} {cs front rest : List Char} (hc : c ∉ cs) :
    cs <+: front ++ c :: rest ↔ cs <+: front := by
  constructor
  · intro h
    by_cases hlength : cs.length ≤ front.length
    · exact List.prefix_of_prefix_length_le h (List.prefix_append _ _) hlength
    · have hlong : front ++ [c] <+: front ++ c :: rest := by
        rw [List.prefix_append_right_inj]
        exact List.cons_prefix_cons.2 ⟨rfl, List.nil_prefix⟩
      have hmark : front ++ [c] <+: cs := by
        refine List.prefix_of_prefix_length_le hlong h ?_
        rw [List.length_append, List.length_singleton]
        omega
      exact absurd (hmark.mem (List.mem_append_right front List.mem_cons_self)) hc
  · exact fun h => h.trans (List.prefix_append _ _)

/-- So a workspace of another pull request is taken for one of this if the number of this begins
that of the other. -/
theorem takenForWorkspace_iff_prefix (hjob : ∀ c ∈ job.toList, IsPlain c) (hpr : IsNumber pr)
    (hname : NamesWorkspace job other name) :
    TakenForWorkspace job pr name ↔ pr.toList <+: other.toList := by
  have hmark : '@' ∉ pr.toList := not_mem_of_isNumber hpr rfl
  rw [takenForWorkspace_iff hjob hpr, String.toList_append]
  rcases hname with rfl | ⟨suffix, rfl⟩
  · rw [String.toList_append (s := job ++ "@pr_"), List.prefix_append_right_inj]
  · have hlong : (job ++ "@pr_" ++ other ++ "@" ++ suffix).toList =
        (job ++ "@pr_").toList ++ (other.toList ++ '@' :: suffix.toList) := by simp
    rw [hlong, List.prefix_append_right_inj, prefix_append_cons_iff hmark]

end ImagePipeline
