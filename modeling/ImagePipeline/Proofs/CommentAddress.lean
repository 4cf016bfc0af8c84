import ImagePipeline.Proofs.DecimalDigits
import ImagePipeline.Proofs.TextPieces
import ImagePipeline.Service.SourceHost
import Mathlib.Data.List.TakeWhile

/-!
# The address of the comments on a pull request

The address of a pull request ends in `/pulls/`, a number, and any slashes.  What stands before may
hold the same mark again, also overlapping with this one, but no digit and no slash of the number
can be a part of a mark further on.  So the address comes apart in one way only, and so does the
address of the comments that is made of its parts.

* `IsBare`: a text without the slashes at its end.
* `NamesPullRequest`: the parts of a pull request's address.
* `pullRequestParts?_eq_some_iff`: they are what is found.
* `commentsUrl_parts`: which addresses have comments, and under which address those are.
-/

namespace ImagePipeline.SourceHost

variable {url base before number : String} {cs : List Char}

/-- `base` is the text without the slashes at its end. -/
structure IsBare (url base : String) : Prop where
  /-- Only slashes are missing. -/
  slashes : ∃ n, url = base ++ String.ofList (List.replicate n '/')
  /-- None is left. -/
  last : base.toList.getLast? ≠ some '/'

/-- The text is the address of the pull request with a number: behind `before` there are
`/pulls/`, the number in decimal digits, and slashes or nothing. -/
structure NamesPullRequest (url before number : String) : Prop where
  number_ne : number ≠ ""
  digits : ∀ c ∈ number.toList, '0' ≤ c ∧ c ≤ '9'
  form : IsBare url (before ++ "/pulls/" ++ number)

/-! ## Slashes at the end -/

theorem stripEndChars_append_replicate (n : Nat) (hlast : cs.getLast? ≠ some '/') :
    Text.stripEndChars '/' (cs ++ List.replicate n '/') = cs := by
  have hrun : ∀ c ∈ List.replicate n '/', (c == '/') = true := fun c hc =>
    beq_iff_eq.2 (List.eq_of_mem_replicate hc)
  rw [Text.stripEndChars, List.reverse_append, List.reverse_replicate,
    List.dropWhile_append_of_pos hrun]
  cases hcs : cs.reverse with
  | nil => rw [List.dropWhile_nil, ← hcs, List.reverse_reverse]
  | cons c rest =>
    have hc : ¬ (c == '/') = true := by
      rw [← List.head?_reverse, hcs, List.head?_cons] at hlast
      exact fun heq => hlast (congrArg some (beq_iff_eq.1 heq))
    rw [List.dropWhile_cons_of_neg (p := fun x => x == '/') hc, ← hcs, List.reverse_reverse]

theorem getLast?_stripEndChars (cs : List Char) :
    (Text.stripEndChars '/' cs).getLast? ≠ some '/' := by
  rw [Text.stripEndChars, List.getLast?_reverse]
  intro h
  have hhead := List.head?_dropWhile_not (p := fun c => c == '/') (l := cs.reverse)
  rw [h] at hhead
  exact absurd hhead (by decide)

theorem isBare_iff : IsBare url base ↔ base.toList = Text.stripEndChars '/' url.toList := by
  constructor
  · rintro ⟨⟨n, rfl⟩, hlast⟩
    rw [String.toList_append, String.toList_ofList, stripEndChars_append_replicate n hlast]
  · intro h
    refine ⟨?_, ?_⟩
    · obtain ⟨n, hn⟩ := Text.exists_stripEndChars_append '/' url.toList
      refine ⟨n, ?_⟩
      rw [← String.toList_inj, String.toList_append, String.toList_ofList, h, ← hn]
    · rw [h]
      exact getLast?_stripEndChars _

theorem IsBare.unique {base' : String} (h : IsBare url base) (h' : IsBare url base') :
    base = base' :=
  String.toList_inj.1 ((isBare_iff.1 h).trans (isBare_iff.1 h').symm)

/-! ## The parts of an address -/

/-- Whether a character is a digit. -/
theorem isSome_digit?_iff {c : Char} : (Decimal.digit? c).isSome = true ↔ '0' ≤ c ∧ c ≤ '9' := by
  unfold Decimal.digit?
  split
  next h => exact iff_of_true rfl h
  next h => exact iff_of_false nofun h

theorem isBare_iff_reverse : IsBare url (before ++ "/pulls/" ++ number) ↔
    (Text.stripEndChars '/' url.toList).reverse =
      number.toList.reverse ++ ("/pulls/".toList.reverse ++ before.toList.reverse) := by
  rw [isBare_iff, ← List.reverse_inj, eq_comm, String.toList_append, String.toList_append,
    List.reverse_append, List.reverse_append]

/-- The parts that are found are those of a pull request's address, and no others. -/
theorem pullRequestParts?_eq_some_iff :
    pullRequestParts? url = some (before.toList, number.toList) ↔
      NamesPullRequest url before number := by
  unfold pullRequestParts?
  dsimp only
  generalize hbackwards : (Text.stripEndChars '/' url.toList).reverse = backwards
  constructor
  · intro h
    split at h
    next => cases h
    next hne =>
      obtain ⟨rest, hrest, hparts⟩ := Option.map_eq_some_iff.1 h
      obtain ⟨hbefore, hnumber⟩ := Prod.mk.inj hparts
      have hdigits : number.toList.reverse =
          backwards.takeWhile fun c => (Decimal.digit? c).isSome := by
        rw [← hnumber, List.reverse_reverse]
      refine ⟨?_, fun c hc => ?_, ?_⟩
      · rintro rfl
        exact hne (List.isEmpty_iff.2 hdigits.symm)
      · rw [← List.mem_reverse, hdigits] at hc
        have hdigit := List.mem_takeWhile_imp hc
        exact isSome_digit?_iff.1 hdigit
      · rw [isBare_iff_reverse, hbackwards, hdigits, ← hbefore, List.reverse_reverse,
          ← Text.afterPrefix?_eq_some_iff.1 hrest, List.takeWhile_append_dropWhile]
  · rintro ⟨hne, hdigits, hform⟩
    rw [isBare_iff_reverse, hbackwards] at hform
    subst hform
    have hall : ∀ c ∈ number.toList.reverse, (Decimal.digit? c).isSome = true := fun c hc =>
      isSome_digit?_iff.2 (hdigits c (List.mem_reverse.1 hc))
    have hmark : ¬ (Decimal.digit? '/').isSome = true := by decide
    have htake : (number.toList.reverse ++ ("/pulls/".toList.reverse ++ before.toList.reverse)
        ).takeWhile (fun c => (Decimal.digit? c).isSome) = number.toList.reverse := by
      rw [List.takeWhile_append_of_pos hall]
      exact List.append_right_eq_self.2 (List.takeWhile_cons_of_neg hmark)
    have hdrop : (number.toList.reverse ++ ("/pulls/".toList.reverse ++ before.toList.reverse)
        ).dropWhile (fun c => (Decimal.digit? c).isSome) =
          "/pulls/".toList.reverse ++ before.toList.reverse := by
      rw [List.dropWhile_append_of_pos hall]
      exact List.dropWhile_cons_of_neg hmark
    rw [htake, hdrop, Text.afterPrefix?_eq_some_iff.2 rfl, if_neg]
    · rw [Option.map_some, List.reverse_reverse, List.reverse_reverse]
    · rw [List.isEmpty_reverse, List.isEmpty_iff, String.toList_eq_nil_iff]
      exact hne

theorem pullRequestParts?_eq_none_iff :
    pullRequestParts? url = none ↔ ¬ ∃ before number, NamesPullRequest url before number := by
  constructor
  · rintro h ⟨before, number, hparts⟩
    exact nomatch h.symm.trans (pullRequestParts?_eq_some_iff.2 hparts)
  · intro h
    rw [Option.eq_none_iff_forall_ne_some]
    rintro ⟨before, number⟩ hparts
    rw [← String.toList_ofList (l := before), ← String.toList_ofList (l := number)] at hparts
    exact h ⟨_, _, pullRequestParts?_eq_some_iff.1 hparts⟩

namespace NamesPullRequest

variable {before' number' url' : String}

/-- An address comes apart in one way. -/
theorem unique (h : NamesPullRequest url before number)
    (h' : NamesPullRequest url before' number') : before = before' ∧ number = number' := by
  have hparts := (pullRequestParts?_eq_some_iff.2 h).symm.trans (pullRequestParts?_eq_some_iff.2 h')
  obtain ⟨hbefore, hnumber⟩ := Prod.mk.inj (Option.some.inj hparts)
  exact ⟨String.toList_inj.1 hbefore, String.toList_inj.1 hnumber⟩

theorem not_slash_mem (h : NamesPullRequest url before number) : '/' ∉ number.toList :=
  fun hmem => absurd (h.digits '/' hmem) (by decide)

/-- So does the address that is made of the parts. -/
theorem parts_eq (h : NamesPullRequest url before number)
    (h' : NamesPullRequest url' before' number')
    (hcomments : before ++ "/issues/" ++ number ++ "/comments" =
      before' ++ "/issues/" ++ number' ++ "/comments") : before = before' ∧ number = number' := by
  have hslash : (before ++ "/issues").toList ++ '/' :: number.toList =
      (before' ++ "/issues").toList ++ '/' :: number'.toList := by
    have heq := congrArg String.toList ((String.append_left_inj _).1 hcomments)
    simpa using heq
  -- there is no slash in the numbers, so both texts are cut at their last one
  have hcut {front back : List Char} (hback : '/' ∉ back) :
      Text.cutChars '/' (front ++ '/' :: back).reverse = some (back.reverse, front.reverse) := by
    refine Text.cutChars_eq_some_iff.2 ⟨?_, fun hmem => hback (List.mem_reverse.1 hmem)⟩
    rw [List.reverse_append, List.reverse_cons, List.append_assoc, List.singleton_append]
  have hparts := (hcut h.not_slash_mem).symm.trans (hslash ▸ hcut h'.not_slash_mem)
  obtain ⟨hnumber, hbefore⟩ := Prod.mk.inj (Option.some.inj hparts)
  rw [List.reverse_inj, String.toList_inj] at hnumber hbefore
  exact ⟨(String.append_left_inj _).1 hbefore, hnumber⟩

end NamesPullRequest

/-! ## The address of the comments -/

theorem commentsUrl_of_namesPullRequest (h : NamesPullRequest url before number) :
    commentsUrl url = .ok (before ++ "/issues/" ++ number ++ "/comments") := by
  unfold commentsUrl
  rw [pullRequestParts?_eq_some_iff.2 h]
  dsimp only
  rw [String.ofList_toList, String.ofList_toList]

theorem commentsUrl_eq_ok_iff {answer : String} : commentsUrl url = .ok answer ↔
    ∃ before number, NamesPullRequest url before number ∧
      answer = before ++ "/issues/" ++ number ++ "/comments" := by
  constructor
  · intro h
    by_cases hparts : ∃ before number, NamesPullRequest url before number
    · obtain ⟨before, number, hparts⟩ := hparts
      rw [commentsUrl_of_namesPullRequest hparts] at h
      exact ⟨before, number, hparts, (Except.ok.inj h).symm⟩
    · unfold commentsUrl at h
      rw [pullRequestParts?_eq_none_iff.2 hparts] at h
      cases h
  · rintro ⟨before, number, hparts, rfl⟩
    exact commentsUrl_of_namesPullRequest hparts

theorem commentsUrl_eq_error_iff {error : ServiceError} : commentsUrl url = .error error ↔
    (¬ ∃ before number, NamesPullRequest url before number) ∧ error = .invalidUrl url := by
  unfold commentsUrl
  rw [← pullRequestParts?_eq_none_iff]
  cases pullRequestParts? url with
  | none =>
    rw [Except.error.injEq, eq_comm]
    exact (and_iff_right rfl).symm
  | some parts => exact iff_of_false nofun fun h => nomatch h.1

/-- **Comment addresses.**  There are comments at an address if and only if it is that of a pull
request; it comes apart in one way, and the address of the comments is made of its parts.  Any
other text is refused as it stands.  Two addresses have the same comments if and only if they
differ in the slashes at their ends at most. -/
theorem commentsUrl_parts (url : String) :
    ((∃ answer, commentsUrl url = .ok answer) ↔
      ∃ before number, NamesPullRequest url before number) ∧
    (∀ before number, NamesPullRequest url before number →
      (∀ before' number', NamesPullRequest url before' number' →
        before = before' ∧ number = number') ∧
      commentsUrl url = .ok (before ++ "/issues/" ++ number ++ "/comments")) ∧
    ((¬ ∃ before number, NamesPullRequest url before number) →
      commentsUrl url = .error (.invalidUrl url)) ∧
    ∀ url' answer answer', commentsUrl url = .ok answer → commentsUrl url' = .ok answer' →
      (answer = answer' ↔ ∃ base, IsBare url base ∧ IsBare url' base) := by
  refine ⟨?_, fun before number h => ⟨fun _ _ h' => h.unique h', ?_⟩, fun h => ?_, ?_⟩
  · simp only [commentsUrl_eq_ok_iff]
    constructor
    · rintro ⟨answer, before, number, h, -⟩
      exact ⟨before, number, h⟩
    · rintro ⟨before, number, h⟩
      exact ⟨_, before, number, h, rfl⟩
  · exact commentsUrl_of_namesPullRequest h
  · exact commentsUrl_eq_error_iff.2 ⟨h, rfl⟩
  · intro url' answer answer' h h'
    obtain ⟨before, number, hparts, rfl⟩ := commentsUrl_eq_ok_iff.1 h
    obtain ⟨before', number', hparts', rfl⟩ := commentsUrl_eq_ok_iff.1 h'
    constructor
    · intro heq
      obtain ⟨rfl, rfl⟩ := hparts.parts_eq hparts' heq
      exact ⟨_, hparts.form, hparts'.form⟩
    · rintro ⟨base, hbase, hbase'⟩
      have hsame : NamesPullRequest url before' number' :=
        ⟨hparts'.number_ne, hparts'.digits, hparts'.form.unique hbase' ▸ hbase⟩
      obtain ⟨rfl, rfl⟩ := hparts.unique hsame
      rfl

end ImagePipeline.SourceHost
