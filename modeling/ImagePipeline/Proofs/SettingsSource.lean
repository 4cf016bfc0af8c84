import ImagePipeline.Command.Basic

/-!
# What settings say about their source

Settings are what is left of the variables of a run: blank values are gone, an action has become a
name or a text, an outcome one of six.  What a command decides by a setting is said here by the text
of the variable.

* `Variable.given`: the value of a variable, unless it is blank.
* `Variable.Reads`: a variable has a value that is a word, blanks around it aside.
* `Settings.action_eq_iff`, `Settings.outcome_eq_iff`, `Settings.merged_iff`: three settings by the
  texts of their variables.
-/

namespace ImagePipeline

namespace Text

theorem trimChars_of_all_blank {cs : List Char} (h : cs.all isBlank = true) :
    trimChars cs = [] := by
  induction cs with
  | nil => rfl
  | cons c cs ih =>
    rw [List.all_cons, Bool.and_eq_true] at h
    rw [trimChars_cons_of_blank cs h.1, ih h.2]

/-- Nothing is left of a blank text. -/
theorem trim_of_isBlankText {text : String} (h : isBlankText text = true) : trim text = "" := by
  rw [trim, trimChars_of_all_blank h]

end Text

/-- No outcome has the empty name. -/
theorem BuildOutcome.read_of_isBlankText {text : String} (h : Text.isBlankText text = true) :
    read text = .unknown := by
  have hupper : Text.upper "" = "" := by simp [Text.upper]
  rw [read, Text.trim_of_isBlankText h, hupper]
  decide

/-- The actions with a name are those of their names. -/
theorem PullRequest.Action.ofText_eq_iff {a : Action} (ha : a ∈ known) {text : String} :
    ofText text = a ↔ text = a.text := by
  constructor
  · intro h
    unfold ofText at h
    cases hfind : known.find? (·.text == text) with
    | none =>
      -- a text without a name comes out as itself, and that has no name
      rw [hfind] at h
      subst h
      simp [known] at ha
    | some b =>
      rw [hfind] at h
      obtain rfl : b = a := h
      have hname := List.find?_some hfind
      exact (eq_of_beq hname).symm
  · rintro rfl
    exact ofText_text_of_mem ha

namespace Variable

variable {lookup : String → Option String} {name word value : String}

/-- The value of a variable; a blank one counts as none. -/
def given (lookup : String → Option String) (name : String) : Option String :=
  (lookup name).filter fun value => !Text.isBlankText value

theorem given_eq_some_iff :
    given lookup name = some value ↔ lookup name = some value ∧ Text.isBlankText value = false := by
  simp [given, Option.filter_eq_some_iff]

/-- The value of a variable is a word, blanks around it aside. -/
def Reads (lookup : String → Option String) (name word : String) : Prop :=
  ∃ value, lookup name = some value ∧ Text.trim value = word

/-- What a reader finds in no blank text it finds in a value if and only if it is given. -/
theorem exists_given_iff {α : Type} {read : String → α} {a : α}
    (hblank : ∀ text, Text.isBlankText text = true → read text ≠ a) :
    (∃ value, lookup name = some value ∧ read value = a) ↔
      (given lookup name).map read = some a := by
  rw [Option.map_eq_some_iff]
  refine exists_congr fun value => ?_
  rw [given_eq_some_iff, and_assoc]
  refine and_congr_right fun _ => ⟨fun hread => ⟨?_, hread⟩, And.right⟩
  exact Bool.eq_false_iff.2 fun h => hblank value h hread

end Variable

namespace Settings

open Variable (given Reads)

variable {lookup : String → Option String} {endpoints : Endpoints} {s : Settings}

theorem eq_bind_of_checked {α : Type} {name : String} {read? : String → Option α}
    {value : Option String} {result : Option α} (h : checked name read? value = .ok result) :
    result = value.bind read? := by
  cases value with
  | none =>
    cases h
    rfl
  | some text =>
    cases hread : read? text with
    | none =>
      simp only [checked, hread] at h
      cases h
    | some a =>
      simp only [checked, hread] at h
      cases h
      exact hread.symm

/-- What the settings of a source say about the pull request and about the end of the build. -/
structure From (lookup : String → Option String) (s : Settings) : Prop where
  user : s.dockerhubUser = given lookup Variable.dockerhubUser
  number : s.pr.number = given lookup Variable.prNumber
  action : s.pr.action = (given lookup Variable.prAction).map PullRequest.Action.read
  merged : s.pr.merged = ((given lookup Variable.prMerged).bind readFlag?).getD false
  outcome : s.build.outcome =
    ((given lookup Variable.buildResult).map BuildOutcome.read).getD .unknown

theorem from_of_ofVariables (h : ofVariables lookup endpoints = .ok s) : From lookup s := by
  unfold ofVariables at h
  cases hnumber : checked Variable.buildNumber readBuildNumber?
      (given lookup Variable.buildNumber) with
  | error error =>
    rw [given] at hnumber
    simp only [hnumber] at h
    cases h
  | ok number =>
    cases hmerged : checked Variable.prMerged readFlag? (given lookup Variable.prMerged) with
    | error error =>
      rw [given] at hnumber hmerged
      simp only [hnumber, hmerged] at h
      cases h
    | ok merged =>
      have hm := eq_bind_of_checked hmerged
      rw [given] at hnumber hmerged
      simp only [hnumber, hmerged] at h
      cases h
      exact ⟨rfl, rfl, rfl, congrArg (·.getD false) hm, rfl⟩

namespace From

variable (h : From lookup s)

include h

/-- The action of a run has a name if that is what its variable reads. -/
theorem action_eq_iff {a : PullRequest.Action} (ha : a ∈ PullRequest.Action.known) :
    Command.action s = a ↔ Reads lookup Variable.prAction a.text := by
  have hblank : ∀ text, Text.isBlankText text = true → Text.trim text ≠ a.text := by
    intro text htext
    rw [Text.trim_of_isBlankText htext]
    simp only [PullRequest.Action.known, List.mem_cons, List.not_mem_nil, or_false] at ha
    rcases ha with rfl | rfl | rfl | rfl | rfl <;> decide
  rw [Reads, Variable.exists_given_iff hblank, Command.action, h.action]
  cases given lookup Variable.prAction with
  | none =>
    constructor
    · rintro rfl
      simp [PullRequest.Action.known] at ha
    · intro hnone
      cases hnone
  | some text =>
    rw [Option.map_some, Option.getD_some, Option.map_some, Option.some_inj,
      PullRequest.Action.read, PullRequest.Action.ofText_eq_iff ha]

/-- The build has an outcome if that is what its variable reads. -/
theorem outcome_eq_iff {o : BuildOutcome} (ho : o ≠ .unknown) :
    s.build.outcome = o ↔ ∃ value, lookup Variable.buildResult = some value ∧
      BuildOutcome.read value = o := by
  have hblank : ∀ text, Text.isBlankText text = true → BuildOutcome.read text ≠ o := by
    intro text htext
    rw [BuildOutcome.read_of_isBlankText htext]
    exact ho.symm
  rw [Variable.exists_given_iff hblank, h.outcome]
  cases given lookup Variable.buildResult with
  | none => exact iff_of_false ho.symm nofun
  | some text => rw [Option.map_some, Option.getD_some, Option.some_inj]

theorem merged_iff : s.pr.merged = true ↔ ∃ value, lookup Variable.prMerged = some value ∧
    readFlag? value = some true := by
  have hblank : ∀ text, Text.isBlankText text = true → readFlag? text ≠ some true := by
    intro text htext
    rw [readFlag?, Text.trim_of_isBlankText htext]
    decide
  rw [Variable.exists_given_iff hblank, h.merged]
  cases given lookup Variable.prMerged with
  | none => exact iff_of_false nofun nofun
  | some text =>
    rw [Option.bind_some, Option.map_some, Option.some_inj]
    cases readFlag? text with
    | none => exact iff_of_false nofun nofun
    | some merged => exact ⟨congrArg some, Option.some.inj⟩

end From

end Settings

end ImagePipeline
