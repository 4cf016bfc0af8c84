import ImagePipeline.Build.Recipe
import Mathlib.Tactic.ByContra

/-!
# The commit that a script checks out

The clone script is searched for the word that checks out a commit.  A place where the word is
followed by anything but a digit of a commit is passed over, and behind the first other place all
the digits are taken.

* `Regex.search_eq`: a search tries one place after the other, if the expression does not look
  back; `Regex.firstRead_eq_some_iff` says which place that is.
* `Regex.run_literal`, `Regex.run_group_run`: what characters in a row match, and a group around a
  run of characters of a class.
* `FirstCommit`: the first commit of a text, said without an expression.
* `toolchainCommit_firstCommit`: what is told of a source tree.
-/

namespace ImagePipeline

namespace Regex

variable {α : Type} {r : Regex} {k : CharClass} {cs rest : List Char} {p : Progress}
  {next : Progress → Option α}

/-! ## The first place -/

/-- What is read at the first place of a text where something can be read. -/
def firstRead (here : List Char → Option (List Char)) : List Char → Option (List Char)
  | [] => here []
  | c :: cs => (here (c :: cs)).or (firstRead here cs)

variable {here : List Char → Option (List Char)} {found : List Char}

theorem firstRead_eq_none_iff :
    firstRead here cs = none ↔ ∀ front after, cs = front ++ after → here after = none := by
  induction cs with
  | nil =>
    constructor
    · intro h front after hsplit
      obtain ⟨-, rfl⟩ := List.append_eq_nil_iff.1 hsplit.symm
      exact h
    · exact fun h => h [] [] rfl
  | cons c cs ih =>
    rw [firstRead, Option.or_eq_none_iff, ih]
    constructor
    · rintro ⟨hfirst, hrest⟩ front after hsplit
      rcases List.cons_eq_append_iff.1 hsplit with ⟨-, rfl⟩ | ⟨front, -, rfl⟩
      · exact hfirst
      · exact hrest front after rfl
    · intro h
      refine ⟨h [] (c :: cs) rfl, fun front after hsplit => h (c :: front) after ?_⟩
      rw [hsplit, List.cons_append]

theorem firstRead_eq_some_iff :
    firstRead here cs = some found ↔ ∃ front after, cs = front ++ after ∧
      here after = some found ∧ ∀ front' after', cs = front' ++ after' →
        here after' ≠ none → front.length ≤ front'.length := by
  induction cs with
  | nil =>
    constructor
    · exact fun h => ⟨[], [], rfl, h, fun _ _ _ _ => Nat.zero_le _⟩
    · rintro ⟨front, after, hsplit, h, -⟩
      obtain ⟨-, rfl⟩ := List.append_eq_nil_iff.1 hsplit.symm
      exact h
  | cons c cs ih =>
    rw [firstRead, Option.or_eq_some_iff, ih]
    constructor
    · rintro (h | ⟨hnone, front, after, rfl, h, hfirst⟩)
      · exact ⟨[], c :: cs, rfl, h, fun _ _ _ _ => Nat.zero_le _⟩
      · refine ⟨c :: front, after, rfl, h, fun front' after' hsplit hread => ?_⟩
        rcases List.cons_eq_append_iff.1 hsplit with ⟨-, rfl⟩ | ⟨front', rfl, hrest⟩
        · exact absurd hnone hread
        · exact Nat.succ_le_succ (hfirst front' after' hrest hread)
    · rintro ⟨front, after, hsplit, h, hfirst⟩
      rcases List.cons_eq_append_iff.1 hsplit with ⟨-, rfl⟩ | ⟨front, rfl, rfl⟩
      · exact .inl h
      · refine .inr ⟨?_, front, after, rfl, h, fun front' after' hsplit' hread => ?_⟩
        · by_contra hread
          exact absurd (hfirst [] _ rfl hread) (Nat.not_succ_le_zero _)
        · have hplace := hfirst (c :: front') after' (by rw [hsplit', List.cons_append]) hread
          exact Nat.le_of_succ_le_succ hplace

/-- A search for an expression that does not look back tries one place after the other. -/
theorem search_eq (hhere : ∀ before cs, r.run ⟨0, before, cs, []⟩ (fun p => some p.groups) =
      (here cs).map fun found => [(1, found)]) (text : String) :
    r.search text = (firstRead here text.toList).map String.ofList := by
  have hfind (before : Option Char) (cs : List Char) :
      r.find before cs = (firstRead here cs).map fun found => [(1, found)] := by
    induction cs generalizing before with
    | nil =>
      unfold find
      rw [hhere, firstRead]
      cases here [] <;> rfl
    | cons c cs ih =>
      unfold find
      rw [hhere, firstRead]
      cases here (c :: cs) with
      | some found => rfl
      | none => exact ih (some c)
  rw [search, hfind]
  cases firstRead here text.toList <;> rfl

/-! ## Characters in a row -/

/-- Some characters in a row, and then something else. -/
def literal : List Char → Regex → Regex
  | [], r => r
  | c :: cs, r => sequence (char {} c) (literal cs r)

theorem run_chars_nil (hrest : p.rest = []) (k : CharClass) : (chars k).run p next = none := by
  rw [run, hrest]

theorem run_chars_cons {c : Char} (hrest : p.rest = c :: cs) (k : CharClass) :
    (chars k).run p next =
      if k.holds c then next ⟨p.position + 1, some c, cs, p.groups⟩ else none := by
  rw [run, hrest]

theorem holds_char (c d : Char) :
    CharClass.holds ⟨false, false, [.range c c]⟩ d = decide (d = c) := by
  have hrange : (c ≤ d ∧ d ≤ c) ↔ d = c :=
    ⟨fun h => Char.le_antisymm h.2 h.1, fun h => h ▸ ⟨Char.le_refl _, Char.le_refl _⟩⟩
  simp [CharClass.holds, ClassItem.holds, ← hrange]

/-- Characters in a row match themselves, and what comes after them goes on behind them. -/
theorem run_literal (hrest : p.rest = cs ++ rest) (r : Regex) (next : Progress → Option α) :
    ∃ q : Progress, q.rest = rest ∧ q.groups = p.groups ∧
      (literal cs r).run p next = r.run q next := by
  induction cs generalizing p with
  | nil => exact ⟨p, hrest, rfl, rfl⟩
  | cons c cs ih =>
    obtain ⟨q, hq, hgroups, hrun⟩ := @ih ⟨p.position + 1, some c, cs ++ rest, p.groups⟩ rfl
    refine ⟨q, hq, hgroups, ?_⟩
    rw [literal, run, char, run_chars_cons hrest, ← hrun]
    exact if_pos ((holds_char c c).trans (decide_eq_true rfl))

theorem run_literal_of_not_prefix (h : ¬ cs <+: p.rest) (r : Regex)
    (next : Progress → Option α) : (literal cs r).run p next = none := by
  induction cs generalizing p with
  | nil => exact absurd List.nil_prefix h
  | cons c cs ih =>
    cases hrest : p.rest with
    | nil => rw [literal, run, char, run_chars_nil hrest]
    | cons d ds =>
      rw [literal, run, char, run_chars_cons hrest, holds_char]
      split
      next hd =>
        obtain rfl := of_decide_eq_true hd
        exact ih fun hprefix => h (hrest ▸ List.cons_prefix_cons.2 ⟨rfl, hprefix⟩)
      next => rfl

/-! ## Runs of characters -/

/-- A greedy repetition takes all the characters of the class, if all that comes after it matches
anything. -/
theorem rounds_chars (hnext : ∀ q, (next q).isSome) {fuel : Nat} (hfuel : p.rest.length < fuel) :
    ∃ q : Progress, q.position = p.position + (p.rest.takeWhile k.holds).length ∧
      q.groups = p.groups ∧ rounds true (chars k).run next fuel p = next q := by
  induction fuel generalizing p with
  | zero => exact absurd hfuel (Nat.not_lt_zero _)
  | succ fuel ih =>
    cases hrest : p.rest with
    | nil =>
      refine ⟨p, rfl, rfl, ?_⟩
      rw [rounds, if_pos rfl, run_chars_nil hrest]
      rfl
    | cons c cs =>
      by_cases hc : k.holds c = true
      · rw [hrest, List.length_cons] at hfuel
        obtain ⟨q, hq, hgroups, hrounds⟩ :=
          @ih ⟨p.position + 1, some c, cs, p.groups⟩ (Nat.lt_of_succ_lt_succ hfuel)
        refine ⟨q, ?_, hgroups, ?_⟩
        · rw [hq, List.takeWhile_cons_of_pos hc, List.length_cons]
          dsimp only
          omega
        · obtain ⟨a, ha⟩ := Option.isSome_iff_exists.1 (hnext q)
          rw [rounds, if_pos rfl, run_chars_cons hrest, if_pos hc, if_pos (Nat.lt_succ_self _),
            hrounds, ha]
          rfl
      · refine ⟨p, ?_, rfl, ?_⟩
        · rw [List.takeWhile_cons_of_neg hc]
          rfl
        · rw [rounds, if_pos rfl, run_chars_cons hrest, if_neg hc]
          rfl

/-- A group around at least one character of a class keeps the whole run of them. -/
theorem run_group_run (number : Nat) (k : CharClass) (p : Progress) :
    (group number (sequence (chars k) (repeated true (chars k)))).run p (fun q => some q.groups) =
      if p.rest.takeWhile k.holds = [] then none
      else some ((number, p.rest.takeWhile k.holds) :: p.groups) := by
  rw [run, run]
  cases hrest : p.rest with
  | nil =>
    rw [run_chars_nil hrest]
    rfl
  | cons c cs =>
    rw [run_chars_cons hrest]
    by_cases hc : k.holds c = true
    · rw [if_pos hc, List.takeWhile_cons_of_pos hc, if_neg (List.cons_ne_nil _ _), run]
      obtain ⟨q, hposition, hgroups, hrounds⟩ := @rounds_chars _ k
        ⟨p.position + 1, some c, cs, p.groups⟩
        (fun q => some ((number, (c :: cs).take (q.position - p.position)) :: q.groups))
        (fun _ => rfl) _ (Nat.lt_succ_self _)
      refine hrounds.trans ?_
      have hlength : q.position - p.position = (cs.takeWhile k.holds).length + 1 := by
        rw [hposition]
        dsimp only
        omega
      have hrun := List.prefix_iff_eq_take.1 (List.takeWhile_prefix (l := cs) k.holds)
      rw [hlength, hgroups, List.take_succ_cons, ← hrun]
    · rw [if_neg hc, List.takeWhile_cons_of_neg hc, if_pos rfl]

end Regex

namespace Build

open Files (Tree Location joinPath)

variable {text front after commit : List Char}

/-! ## The first commit of a text -/

/-- The word that checks out what stands after it. -/
def checkoutWord : List Char := "git checkout ".toList

/-- A digit of a commit. -/
def IsCommitDigit (c : Char) : Prop := '0' ≤ c ∧ c ≤ '9' ∨ 'a' ≤ c ∧ c ≤ 'f'

instance : DecidablePred IsCommitDigit := fun _ => inferInstanceAs (Decidable (_ ∨ _))

/-- Behind `front`, a text checks out what begins with a digit of a commit. -/
def ChecksOut (text front after : List Char) : Prop :=
  text = front ++ checkoutWord ++ after ∧ ∃ c ∈ after.head?, IsCommitDigit c

/-- The digits with which a text begins, up to the first other character. -/
structure LeadingDigits (after commit : List Char) : Prop where
  digits : ∀ c ∈ commit, IsCommitDigit c
  ends : ∃ rest, after = commit ++ rest ∧ ∀ c ∈ rest.head?, ¬ IsCommitDigit c

/-- The digits after the first place where a text checks out a commit. -/
def FirstCommit (text commit : List Char) : Prop :=
  ∃ front after, ChecksOut text front after ∧
    (∀ front' after', ChecksOut text front' after' → front.length ≤ front'.length) ∧
    LeadingDigits after commit

theorem leadingDigits_iff :
    LeadingDigits after commit ↔ commit = after.takeWhile (decide <| IsCommitDigit ·) := by
  constructor
  · rintro ⟨hdigits, rest, rfl, hrest⟩
    have hnone : rest.takeWhile (decide <| IsCommitDigit ·) = [] := by
      cases rest with
      | nil => rfl
      | cons c rest =>
        exact List.takeWhile_cons_of_neg fun h => hrest c rfl (of_decide_eq_true h)
    rw [List.takeWhile_append_of_pos fun c hc => decide_eq_true (hdigits c hc), hnone,
      List.append_nil]
  · rintro rfl
    refine ⟨fun c hc => ?_, after.dropWhile (decide <| IsCommitDigit ·),
      List.takeWhile_append_dropWhile.symm, fun c hc hdigit => ?_⟩
    · exact of_decide_eq_true (List.all_eq_true.1 List.all_takeWhile c hc)
    · have hhead := List.head?_dropWhile_not (decide <| IsCommitDigit ·) after
      rw [Option.mem_def.1 hc] at hhead
      exact absurd (decide_eq_true hdigit) (by simpa using hhead)

theorem takeWhile_ne_nil_iff :
    after.takeWhile (decide <| IsCommitDigit ·) ≠ [] ↔ ∃ c ∈ after.head?, IsCommitDigit c := by
  cases after with
  | nil => simp
  | cons c after =>
    by_cases hc : IsCommitDigit c <;> simp [hc]

/-! ## What the search finds -/

/-- The digits of a commit as a class. -/
def commitDigits : Regex.CharClass := ⟨false, false, [.range '0' '9', .range 'a' 'f']⟩

/-- The pattern of the commit: the word, then at least one digit. -/
def checkout : Regex :=
  .literal checkoutWord (.group 1 (.sequence (.chars commitDigits)
    (.repeated true (.chars commitDigits))))

theorem read_checkoutPattern : Regex.read checkoutPattern = .ok checkout := rfl

theorem holds_commitDigits : commitDigits.holds = fun c => decide (IsCommitDigit c) := by
  funext c
  rw [Bool.eq_iff_iff, decide_eq_true_iff, IsCommitDigit]
  simp [commitDigits, Regex.CharClass.holds, Regex.ClassItem.holds]

/-- The digits that the word at the front of a text checks out, if there are any. -/
def commitHere (cs : List Char) : Option (List Char) :=
  if checkoutWord <+: cs then
    let digits := (cs.drop checkoutWord.length).takeWhile (decide <| IsCommitDigit ·)
    if digits = [] then none else some digits
  else none

theorem commitHere_append (after : List Char) :
    commitHere (checkoutWord ++ after) =
      if after.takeWhile (decide <| IsCommitDigit ·) = [] then none
      else some (after.takeWhile (decide <| IsCommitDigit ·)) := by
  rw [commitHere, if_pos (List.prefix_append _ _), List.drop_left]

theorem commitHere_eq_some_iff :
    commitHere text = some commit ↔ ∃ after, ChecksOut text [] after ∧
      LeadingDigits after commit := by
  constructor
  · intro h
    by_cases hword : checkoutWord <+: text
    · obtain ⟨after, rfl⟩ := hword
      rw [commitHere_append] at h
      split at h
      next => cases h
      next hne =>
        obtain rfl := Option.some.inj h
        exact ⟨after, ⟨rfl, takeWhile_ne_nil_iff.1 hne⟩, leadingDigits_iff.2 rfl⟩
    · rw [commitHere, if_neg hword] at h
      cases h
  · rintro ⟨after, ⟨rfl, hafter⟩, hdigits⟩
    rw [List.nil_append, commitHere_append, if_neg (takeWhile_ne_nil_iff.2 hafter),
      leadingDigits_iff.1 hdigits]

theorem commitHere_eq_none_iff :
    commitHere text = none ↔ ∀ after, ¬ ChecksOut text [] after := by
  constructor
  · intro h after hout
    have hsome := commitHere_eq_some_iff.2 ⟨after, hout, leadingDigits_iff.2 rfl⟩
    rw [h] at hsome
    cases hsome
  · intro h
    cases hhere : commitHere text with
    | none => rfl
    | some commit =>
      obtain ⟨after, hout, -⟩ := commitHere_eq_some_iff.1 hhere
      exact absurd hout (h after)

/-- The pattern matches where the word is followed by a digit, and keeps all the digits. -/
theorem run_checkout (before : Option Char) (cs : List Char) :
    checkout.run ⟨0, before, cs, []⟩ (fun p => some p.groups) =
      (commitHere cs).map fun commit => [(1, commit)] := by
  by_cases hword : checkoutWord <+: cs
  · obtain ⟨after, rfl⟩ := hword
    obtain ⟨q, hrest, hgroups, hrun⟩ := Regex.run_literal (p := ⟨0, before, _, []⟩) rfl
      (.group 1 (.sequence (.chars commitDigits) (.repeated true (.chars commitDigits))))
      (fun p => some p.groups)
    rw [checkout, hrun, Regex.run_group_run, hrest, hgroups, holds_commitDigits,
      commitHere_append]
    split <;> rfl
  · rw [checkout, Regex.run_literal_of_not_prefix hword, commitHere, if_neg hword]
    rfl

/-- A text checks out a commit behind `front` if what begins there does so at once. -/
theorem checksOut_iff :
    ChecksOut text front after ↔ ∃ cs, text = front ++ cs ∧ ChecksOut cs [] after := by
  constructor
  · rintro ⟨htext, hafter⟩
    exact ⟨checkoutWord ++ after, htext.trans (List.append_assoc _ _ _), rfl, hafter⟩
  · rintro ⟨_, rfl, rfl, hafter⟩
    exact ⟨(List.append_assoc _ _ _).symm, hafter⟩

/-- The commit at the first place that has one is the first commit of the text. -/
theorem firstRead_commitHere_eq_some_iff :
    Regex.firstRead commitHere text = some commit ↔ FirstCommit text commit := by
  rw [Regex.firstRead_eq_some_iff]
  constructor
  · rintro ⟨front, cs, htext, hhere, hfirst⟩
    obtain ⟨after, hout, hdigits⟩ := commitHere_eq_some_iff.1 hhere
    refine ⟨front, after, checksOut_iff.2 ⟨cs, htext, hout⟩, ?_, hdigits⟩
    intro front' after' hout'
    obtain ⟨cs', htext', hout'⟩ := checksOut_iff.1 hout'
    exact hfirst front' cs' htext' fun hnone => commitHere_eq_none_iff.1 hnone after' hout'
  · rintro ⟨front, after, hout, hfirst, hdigits⟩
    obtain ⟨cs, htext, hout⟩ := checksOut_iff.1 hout
    refine ⟨front, cs, htext, commitHere_eq_some_iff.2 ⟨after, hout, hdigits⟩, ?_⟩
    intro front' cs' htext' hread
    obtain ⟨commit', hcommit'⟩ := Option.ne_none_iff_exists'.1 hread
    obtain ⟨after', hout', -⟩ := commitHere_eq_some_iff.1 hcommit'
    exact hfirst front' after' (checksOut_iff.2 ⟨cs', htext', hout'⟩)

theorem firstRead_commitHere_eq_none_iff :
    Regex.firstRead commitHere text = none ↔ ∀ front after, ¬ ChecksOut text front after := by
  rw [Regex.firstRead_eq_none_iff]
  constructor
  · intro h front after hout
    obtain ⟨cs, htext, hout⟩ := checksOut_iff.1 hout
    exact commitHere_eq_none_iff.1 (h front cs htext) after hout
  · intro h front cs htext
    exact commitHere_eq_none_iff.2 fun after hout =>
      h front after (checksOut_iff.2 ⟨cs, htext, hout⟩)

/-! ## What a source tree tells -/

variable {t : Tree} {here : Location} {root : String}

/-- What the clone script of a source tree is searched for. -/
theorem toolchainCommit_of_readText {text : String}
    (hread : t.readText here (joinPath root cloneScript) = .ok text) :
    toolchainCommit t here root =
      match Regex.firstRead commitHere text.toList with
      | some commit => .ok (String.ofList commit)
      | none => .error (.patternMissing (joinPath root cloneScript) checkoutPattern none) := by
  rw [toolchainCommit, extract, hread]
  dsimp only
  rw [read_checkoutPattern]
  dsimp only
  rw [Regex.search_eq run_checkout]
  cases Regex.firstRead commitHere text.toList <;> rfl

/-- **The commit of a source tree.**  If the clone script is a text, its commit is the first one
that the text checks out, with all its digits, and there is none exactly if the text checks out
none.  A script that is no text, or cannot be read, is told of as such. -/
theorem toolchainCommit_firstCommit (t : Tree) (here : Location) (root : String) :
    (∀ text, t.readBytes here (joinPath root cloneScript) = .ok (Text.encode text) →
      (∀ commit, toolchainCommit t here root = .ok commit ↔
        FirstCommit text.toList commit.toList) ∧
      (toolchainCommit t here root =
          .error (.patternMissing (joinPath root cloneScript) checkoutPattern none) ↔
        ∀ front after, ¬ ChecksOut text.toList front after)) ∧
    (∀ bytes, t.readBytes here (joinPath root cloneScript) = .ok bytes →
      (∀ text, Text.encode text ≠ bytes) →
      toolchainCommit t here root =
        .error (.unreadable (joinPath root cloneScript) .notText)) ∧
    (∀ error, t.readBytes here (joinPath root cloneScript) = .error error →
      toolchainCommit t here root = .error (.unreadable (joinPath root cloneScript) error)) := by
  refine ⟨fun text hbytes => ?_, fun bytes hbytes hno => ?_, fun error hbytes => ?_⟩
  · have hread : t.readText here (joinPath root cloneScript) = .ok text := by
      simp only [Tree.readText, hbytes, bind, Except.bind, Text.decode_encode]
    rw [toolchainCommit_of_readText hread]
    constructor
    · intro commit
      rw [← firstRead_commitHere_eq_some_iff]
      cases Regex.firstRead commitHere text.toList with
      | none => exact ⟨nofun, nofun⟩
      | some found =>
        constructor
        · intro h
          rw [← Except.ok.inj h, String.toList_ofList]
        · intro h
          obtain rfl := Option.some.inj h
          exact congrArg Except.ok String.ofList_toList
    · rw [← firstRead_commitHere_eq_none_iff]
      cases Regex.firstRead commitHere text.toList with
      | none => exact ⟨fun _ => rfl, fun _ => rfl⟩
      | some found => exact ⟨nofun, nofun⟩
  · have hdecode : Text.decode bytes = none :=
      Option.eq_none_iff_forall_ne_some.2 fun text htext =>
        hno text (Text.encode_of_decode htext)
    have hread : t.readText here (joinPath root cloneScript) = .error .notText := by
      simp only [Tree.readText, hbytes, bind, Except.bind, hdecode]
    rw [toolchainCommit, extract, hread]
  · have hread : t.readText here (joinPath root cloneScript) = .error error := by
      simp only [Tree.readText, hbytes, bind, Except.bind]
    rw [toolchainCommit, extract, hread]

/-- A script in which the word stands twice in a row, one that is no text and none at all. -/
theorem toolchainCommit_firstCommit_repeated :
    let script (bytes : List UInt8) : Tree :=
      (Tree.empty.makeDirectories ["utils"]).put ["utils"] "clone-mlir.sh" (.file bytes)
    toolchainCommit (script (Text.encode "git checkout git checkout 0fg")) [] "/" = .ok "0f" ∧
      toolchainCommit (script (Text.encode "git checkout main")) [] "/" =
        .error (.patternMissing "/utils/clone-mlir.sh" "git checkout ([0-9a-f]+)" none) ∧
      toolchainCommit (script [0xFF]) [] "/" =
        .error (.unreadable "/utils/clone-mlir.sh" .notText) ∧
      toolchainCommit .empty [] "/" = .error (.unreadable "/utils/clone-mlir.sh" .notFound) := by
  intro script
  have hread (bytes : List UInt8) :
      (script bytes).readBytes [] (joinPath "/" cloneScript) = .ok bytes := rfl
  have hpath : joinPath "/" cloneScript = "/utils/clone-mlir.sh" := by decide
  rw [← hpath]
  refine ⟨?_, ?_, ?_, ?_⟩
  · obtain ⟨hcommit, -⟩ := (toolchainCommit_firstCommit
      (script (Text.encode "git checkout git checkout 0fg")) [] "/").1 _ (hread _)
    exact (hcommit "0f").2 (firstRead_commitHere_eq_some_iff.1 (by decide +kernel))
  · obtain ⟨-, hnone⟩ := (toolchainCommit_firstCommit
      (script (Text.encode "git checkout main")) [] "/").1 _ (hread _)
    exact hnone.2 (firstRead_commitHere_eq_none_iff.1 (by decide +kernel))
  · have hdecode : Text.decode [0xFF] = none := by decide +kernel
    refine (toolchainCommit_firstCommit (script _) [] "/").2.1 _ (hread _) fun text htext => ?_
    rw [← htext, Text.decode_encode] at hdecode
    cases hdecode
  · exact (toolchainCommit_firstCommit .empty [] "/").2.2 .notFound rfl

end Build

end ImagePipeline
