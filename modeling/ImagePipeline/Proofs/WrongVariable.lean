import ImagePipeline.Proofs.DecimalDigits
import ImagePipeline.Proofs.SettingsSource
import Mathlib.Data.Nat.Digits.Defs

/-!
# Wrong variables

Two variables can keep a run from having settings: the number of the build and the flag of the
merge.  What is right for them is said of their texts here, without the functions that read them: a
numeral is an optional plus sign and decimal digits, however many, and a flag is one of six words.
A variable with a blank value is neither right nor wrong; it is not there.

* `IsNumeral`: a text is a numeral of a number.
* `WrongNumber`, `WrongFlag`: a variable is there, and its value is wrong.
* `ofVariables_congr`: blank values can be left out.
* `ofVariables_verdict`: when settings are refused, with which error, and what the number of the
  build is otherwise.
-/

namespace ImagePipeline

namespace Decimal

/-- The number of some digits is that of their positions. -/
theorem value_eq_ofDigits (ds : List Nat) : value ds = Nat.ofDigits 10 ds.reverse := by
  induction ds with
  | nil => rfl
  | cons d ds ih =>
    rw [value_cons, List.reverse_cons, Nat.ofDigits_append, Nat.ofDigits_singleton, ← ih,
      List.length_reverse]
    ring

end Decimal

namespace Settings

open Variable (given given_eq_some_iff)

variable {lookup : String → Option String} {endpoints : Endpoints} {s : Settings}
  {error : SettingsError} {text value : String} {n : Nat}

/-! ## What is right -/

/-- The text is a numeral of `n`: decimal digits, zeros in front allowed, and at most a plus sign
before them. -/
def IsNumeral (text : String) (n : Nat) : Prop :=
  ∃ ds : List Nat, ds ≠ [] ∧ (∀ d ∈ ds, d < 10) ∧ n = Nat.ofDigits 10 ds.reverse ∧
    (text.toList = ds.map Decimal.digitChar ∨ text.toList = '+' :: ds.map Decimal.digitChar)

/-- The words for the truth values. -/
def flagWords : List String := ["true", "1", "yes", "false", "0", "no"]

/-- The number of the build is given, and its value without the blanks around it is no numeral of
a number with 64 bits. -/
def WrongNumber (lookup : String → Option String) (value : String) : Prop :=
  given lookup Variable.buildNumber = some value ∧ ¬ ∃ n < 2 ^ 64, IsNumeral (Text.trim value) n

/-- The flag of the merge is given, and its value without the blanks around it is no word for a
truth value in any letter case. -/
def WrongFlag (lookup : String → Option String) (value : String) : Prop :=
  given lookup Variable.prMerged = some value ∧ Text.lower (Text.trim value) ∉ flagWords

/-! ## What is read -/

theorem digitChar_ne_plus {d : Nat} (hd : d < 10) : Decimal.digitChar d ≠ '+' := by
  revert hd
  revert d
  decide

/-- The text behind a plus sign, if there is one. -/
theorem unsigned_map_digitChar {ds : List Nat} (hds : ∀ d ∈ ds, d < 10) (hne : ds ≠ []) :
    (Text.afterPrefix? ['+'] (ds.map Decimal.digitChar)).getD (ds.map Decimal.digitChar) =
      ds.map Decimal.digitChar := by
  obtain ⟨d, rest, rfl⟩ := List.exists_cons_of_ne_nil hne
  have hd : '+' ≠ Decimal.digitChar d := (digitChar_ne_plus (hds d List.mem_cons_self)).symm
  rw [List.map_cons, Text.afterPrefix?, if_neg hd, Option.getD_none]

/-- A build number is read from the numerals of the numbers with 64 bits, and from no other
text. -/
theorem readBuildNumber?_eq_some_iff :
    readBuildNumber? text = some n ↔ IsNumeral (Text.trim text) n ∧ n < 2 ^ 64 := by
  unfold readBuildNumber? IsNumeral
  rw [Text.toList_trim]
  generalize Text.trimChars text.toList = cs
  dsimp only
  constructor
  · intro h
    generalize hunsigned : (Text.afterPrefix? ['+'] cs).getD cs = unsigned at h
    split at h
    next d ds hread =>
      obtain ⟨hds, hcs, -⟩ := Decimal.readDigits_eq_iff.1 hread
      rw [List.append_nil] at hcs
      split at h
      next hlt =>
        cases h
        refine ⟨⟨d :: ds, List.cons_ne_nil _ _, hds, Decimal.value_eq_ofDigits _, ?_⟩, hlt⟩
        rw [← hcs, ← hunsigned]
        cases hplus : Text.afterPrefix? ['+'] cs with
        | none => exact .inl rfl
        | some rest => exact .inr (Text.afterPrefix?_eq_some_iff.1 hplus)
      next => cases h
    next => cases h
  · rintro ⟨⟨ds, hne, hds, rfl, hcs⟩, hlt⟩
    have hunsigned : (Text.afterPrefix? ['+'] cs).getD cs = ds.map Decimal.digitChar := by
      rcases hcs with rfl | rfl
      · exact unsigned_map_digitChar hds hne
      · rfl
    have hread : Decimal.readDigits (ds.map Decimal.digitChar) = (ds, []) :=
      Decimal.readDigits_eq_iff.2 ⟨hds, (List.append_nil _).symm, nofun⟩
    rw [hunsigned, hread]
    obtain ⟨d, rest, rfl⟩ := List.exists_cons_of_ne_nil hne
    rw [← Decimal.value_eq_ofDigits] at hlt ⊢
    exact if_pos hlt

theorem readBuildNumber?_eq_none_iff :
    readBuildNumber? text = none ↔ ¬ ∃ n < 2 ^ 64, IsNumeral (Text.trim text) n := by
  rw [Option.eq_none_iff_forall_ne_some, not_exists]
  refine forall_congr' fun n => ?_
  rw [Ne, readBuildNumber?_eq_some_iff, and_comm]

/-- A text is a numeral of one number. -/
theorem IsNumeral.unique {m : Nat} (hm : IsNumeral text m) (hn : IsNumeral text n) : m = n := by
  obtain ⟨ds, hne, hds, rfl, hcs⟩ := hm
  obtain ⟨ds', hne', hds', rfl, hcs'⟩ := hn
  have hunsigned : ds.map Decimal.digitChar = ds'.map Decimal.digitChar := by
    rcases hcs with hcs | hcs <;> rcases hcs' with hcs' | hcs'
    · rw [← hcs, ← hcs']
    · rw [← unsigned_map_digitChar hds hne, ← hcs, hcs']
      rfl
    · rw [← unsigned_map_digitChar hds' hne', ← hcs', hcs]
      rfl
    · exact (List.cons.inj (hcs.symm.trans hcs')).2
  have hread {ds : List Nat} (hds : ∀ d ∈ ds, d < 10) :
      Decimal.readDigits (ds.map Decimal.digitChar) = (ds, []) :=
    Decimal.readDigits_eq_iff.2 ⟨hds, (List.append_nil _).symm, nofun⟩
  have hpair := (hread hds).symm.trans (hunsigned ▸ hread hds')
  rw [(Prod.mk.inj hpair).1]

theorem readFlag?_eq_none_iff :
    readFlag? text = none ↔ Text.lower (Text.trim text) ∉ flagWords := by
  rw [flagWords, show (["true", "1", "yes", "false", "0", "no"] : List String) =
    ["true", "1", "yes"] ++ ["false", "0", "no"] from rfl, List.mem_append, not_or]
  unfold readFlag?
  dsimp only
  split
  next h => exact iff_of_false nofun fun hnot => hnot.1 h
  next h =>
    split
    next h' => exact iff_of_false nofun fun hnot => hnot.2 h'
    next h' => exact iff_of_true rfl ⟨h, h'⟩

/-! ## What is refused -/

theorem checked_eq_error_iff {α : Type} {name : String} {read? : String → Option α}
    {given? : Option String} : checked name read? given? = .error error ↔
      ∃ value, given? = some value ∧ read? value = none ∧ error = .invalidVariable name value := by
  cases given? with
  | none =>
    refine iff_of_false (fun h => by cases h) ?_
    rintro ⟨_, hgiven, -⟩
    cases hgiven
  | some value =>
    cases hread : read? value with
    | none =>
      simp only [checked, hread]
      constructor
      · rintro ⟨⟩
        exact ⟨value, rfl, hread, rfl⟩
      · rintro ⟨_, ⟨⟩, -, rfl⟩
        rfl
    | some a =>
      simp only [checked, hread]
      refine iff_of_false (fun h => by cases h) ?_
      rintro ⟨_, ⟨⟩, hnone, -⟩
      cases hread.symm.trans hnone

/-- A variable with a blank value is none. -/
theorem given_given (lookup : String → Option String) : given (given lookup) = given lookup := by
  funext name
  rw [given, given, Option.filter_filter]
  simp only [Bool.and_self]

/-- Settings depend on the variables that are given. -/
theorem ofVariables_congr {lookup' : String → Option String} (h : given lookup' = given lookup) :
    ofVariables lookup' endpoints = ofVariables lookup endpoints := by
  have hname (name : String) : ((lookup' name).filter fun value => !Text.isBlankText value) =
      (lookup name).filter fun value => !Text.isBlankText value := congrFun h name
  unfold ofVariables
  simp only [hname]

/-- The build number is read first, then the flag; the first refusal is the result. -/
theorem ofVariables_cases (lookup : String → Option String) (endpoints : Endpoints) :
    let number := checked Variable.buildNumber readBuildNumber?
      (given lookup Variable.buildNumber)
    let merged := checked Variable.prMerged readFlag? (given lookup Variable.prMerged)
    (∃ error, number = .error error ∧ ofVariables lookup endpoints = .error error) ∨
      (∃ n error, number = .ok n ∧ merged = .error error ∧
        ofVariables lookup endpoints = .error error) ∨
      ∃ n m s, number = .ok n ∧ merged = .ok m ∧ ofVariables lookup endpoints = .ok s ∧
        s.build.number = n ∧ s.endpoints = endpoints := by
  intro number merged
  unfold ofVariables
  cases hnumber : number with
  | error error =>
    refine .inl ⟨error, rfl, ?_⟩
    simp only [number, given] at hnumber
    simp only [hnumber]
    rfl
  | ok n =>
    refine .inr ?_
    simp only [number, given] at hnumber
    cases hmerged : merged with
    | error error =>
      refine .inl ⟨n, error, rfl, rfl, ?_⟩
      simp only [merged, given] at hmerged
      simp only [hnumber, hmerged]
      rfl
    | ok m =>
      simp only [merged, given] at hmerged
      simp only [hnumber, hmerged]
      exact .inr ⟨n, m, _, rfl, rfl, rfl, rfl, rfl⟩

theorem checked_number_eq_error_iff :
    checked Variable.buildNumber readBuildNumber? (given lookup Variable.buildNumber) =
        .error error ↔
      ∃ value, WrongNumber lookup value ∧ error = .invalidVariable Variable.buildNumber value := by
  simp only [checked_eq_error_iff, WrongNumber, readBuildNumber?_eq_none_iff, and_assoc]

theorem checked_flag_eq_error_iff :
    checked Variable.prMerged readFlag? (given lookup Variable.prMerged) = .error error ↔
      ∃ value, WrongFlag lookup value ∧ error = .invalidVariable Variable.prMerged value := by
  simp only [checked_eq_error_iff, WrongFlag, readFlag?_eq_none_iff, and_assoc]

/-- Of two wrong variables the number of the build is the one that is named. -/
theorem ofVariables_eq_error_iff : ofVariables lookup endpoints = .error error ↔
    (∃ value, WrongNumber lookup value ∧ error = .invalidVariable Variable.buildNumber value) ∨
      (¬ ∃ value, WrongNumber lookup value) ∧
        ∃ value, WrongFlag lookup value ∧ error = .invalidVariable Variable.prMerged value := by
  have hright {n : Option Nat} (hn : checked Variable.buildNumber readBuildNumber?
      (given lookup Variable.buildNumber) = .ok n) : ¬ ∃ value, WrongNumber lookup value := by
    rintro ⟨value, hvalue⟩
    rw [checked_number_eq_error_iff.2 ⟨value, hvalue, rfl⟩] at hn
    cases hn
  rw [← checked_number_eq_error_iff, ← checked_flag_eq_error_iff]
  rcases ofVariables_cases lookup endpoints with ⟨refusal, hnumber, h⟩ |
    ⟨n, refusal, hnumber, hflag, h⟩ | ⟨n, m, s, hnumber, hflag, h, -⟩
  · obtain ⟨value, hvalue, -⟩ := checked_number_eq_error_iff.1 hnumber
    rw [h, hnumber, Except.error.injEq, Except.error.injEq]
    refine (or_iff_left ?_).symm
    rintro ⟨hnone, -⟩
    exact hnone ⟨value, hvalue⟩
  · rw [h, hnumber, hflag, Except.error.injEq, Except.error.injEq]
    refine ⟨fun heq => .inr ⟨hright hnumber, heq⟩, ?_⟩
    rintro (⟨⟨⟩⟩ | ⟨-, heq⟩)
    exact heq
  · rw [h, hnumber, hflag]
    exact iff_of_false nofun fun hor => hor.elim nofun fun hnone => nomatch hnone.2

theorem number_of_ofVariables (h : ofVariables lookup endpoints = .ok s) :
    s.build.number = (given lookup Variable.buildNumber).bind readBuildNumber? := by
  rcases ofVariables_cases lookup endpoints with ⟨refusal, -, hrefused⟩ |
    ⟨-, refusal, -, -, hrefused⟩ | ⟨n, m, s', hnumber, -, hs', rfl, -⟩
  · cases h.symm.trans hrefused
  · cases h.symm.trans hrefused
  · cases h.symm.trans hs'
    exact eq_bind_of_checked hnumber

theorem endpoints_of_ofVariables (h : ofVariables lookup endpoints = .ok s) :
    s.endpoints = endpoints := by
  rcases ofVariables_cases lookup endpoints with ⟨refusal, -, hrefused⟩ |
    ⟨-, refusal, -, -, hrefused⟩ | ⟨n, m, s', -, -, hs', -, hendpoints⟩
  · cases h.symm.trans hrefused
  · cases h.symm.trans hrefused
  · cases h.symm.trans hs'
    exact hendpoints

/-- **Settings from variables.**  Variables with blank values can be left out.  Settings are
refused if and only if one of two variables is wrong; the error names it and has its value as it
stands, and the number of the build comes before the flag.  Otherwise the number of the build is
the one that its variable denotes, which has 64 bits. -/
theorem ofVariables_verdict (lookup : String → Option String) (endpoints : Endpoints) :
    ofVariables (given lookup) endpoints = ofVariables lookup endpoints ∧
    ((∃ error, ofVariables lookup endpoints = .error error) ↔
      (∃ value, WrongNumber lookup value) ∨ ∃ value, WrongFlag lookup value) ∧
    (∀ error, ofVariables lookup endpoints = .error error ↔
      (∃ value, WrongNumber lookup value ∧ error = .invalidVariable "BUILD_NUMBER" value) ∨
        (¬ ∃ value, WrongNumber lookup value) ∧ ∃ value, WrongFlag lookup value ∧
          error = .invalidVariable "ONNX_MLIR_PR_MERGED" value) ∧
    ∀ s, ofVariables lookup endpoints = .ok s →
      (∀ n, s.build.number = some n ↔
        ∃ value, given lookup "BUILD_NUMBER" = some value ∧ IsNumeral (Text.trim value) n) ∧
      ∀ n ∈ s.build.number, n < 2 ^ 64 := by
  refine ⟨ofVariables_congr (given_given lookup), ?_, fun error => ofVariables_eq_error_iff, ?_⟩
  · simp only [ofVariables_eq_error_iff]
    constructor
    · rintro ⟨error, ⟨value, hvalue, -⟩ | ⟨-, value, hvalue, -⟩⟩
      · exact .inl ⟨value, hvalue⟩
      · exact .inr ⟨value, hvalue⟩
    · intro hwrong
      by_cases hnumber : ∃ value, WrongNumber lookup value
      · obtain ⟨value, hvalue⟩ := hnumber
        exact ⟨_, .inl ⟨value, hvalue, rfl⟩⟩
      · obtain ⟨value, hvalue⟩ := hwrong.resolve_left hnumber
        exact ⟨_, .inr ⟨hnumber, value, hvalue, rfl⟩⟩
  · intro s hs
    have hright : ¬ ∃ value, WrongNumber lookup value := by
      rintro ⟨value, hvalue⟩
      exact nomatch hs.symm.trans (ofVariables_eq_error_iff.2 (.inl ⟨value, hvalue, rfl⟩))
    rw [number_of_ofVariables hs]
    simp only [Option.bind_eq_some_iff, Option.mem_def, readBuildNumber?_eq_some_iff]
    refine ⟨fun n => ⟨?_, ?_⟩, ?_⟩
    · rintro ⟨value, hvalue, hn, -⟩
      exact ⟨value, hvalue, hn⟩
    · rintro ⟨value, hvalue, hn⟩
      -- the value is right, so it denotes a number with 64 bits, and it denotes only one
      have hsome : ∃ m < 2 ^ 64, IsNumeral (Text.trim value) m := by
        by_contra hnone
        exact hright ⟨value, hvalue, hnone⟩
      obtain ⟨m, hm, hnumeral⟩ := hsome
      exact ⟨value, hvalue, hn, hn.unique hnumeral ▸ hm⟩
    · rintro n ⟨value, -, -, hn⟩
      exact hn

end Settings

end ImagePipeline
