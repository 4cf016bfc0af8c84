import ImagePipeline.Proofs.PatternSearch
import ImagePipeline.Proofs.PrepareTranscript

/-!
# Removing the workspaces of a pull request

The cleanup before a build removes what matches the pattern of workspaces from the directory where
the scheduler keeps them, if the pull request is closed.

* `find?_removeMatching_of_not_taken`: everything else stays.
* `find?_removeMatching_of_taken`: whatever matches goes.
* `Command.prepare_of_yields`: a cleanup removes workspaces or leaves the files alone.
* `Command.prepare_workspace`: when a workspace of another pull request stays, and when it goes.
  They are not always kept apart: `Command.prepare_not_isolated`.
-/

namespace ImagePipeline

open Files
open Files.PatternToken (IsPlain isPlain_of_all)

variable {t : Tree} {here workspaces : Location} {home job pr other name : String}

/-! ## The directory of workspaces -/

theorem workspaceDirectory_ne_empty (home : String) : home ++ "/workspace" ≠ "" := by
  intro h
  exact absurd (String.append_eq_empty_iff.1 h).2 (by decide)

/-- The names on the path of the directory, as the pattern has them. -/
theorem split_workspaceDirectory (home : String) :
    ∃ pieces, Text.split '/' (PathPattern.relative (home ++ "/workspace")) =
        pieces ++ ["workspace"] ∧ pieces.filter (· ≠ "") = pathNames home := by
  by_cases hhome : home = ""
  · subst hhome
    exact ⟨[], by decide, by decide⟩
  · refine ⟨Text.split '/' (PathPattern.relative home), ?_, ?_⟩
    · rw [PathPattern.relative_append hhome, show "/workspace" = "/" ++ "workspace" from rfl,
        ← String.append_assoc, show "/" = String.singleton '/' from rfl, Text.split_append_append,
        show Text.split '/' "workspace" = ["workspace"] by decide]
    · exact PathPattern.pathNames_relative home

/-- The names in the directory lead where the path of it leads. -/
theorem follow_workspaceDirectory
    (h : t.locate here true (home ++ "/workspace") = .ok workspaces) :
    t.follow true linkLimit (Search.base here (isAbsolute (home ++ "/workspace")))
      (pathNames home ++ ["workspace"]) = .ok workspaces := by
  have hdirectory : home ++ "/workspace" = home ++ "/" ++ "workspace" := by
    rw [String.append_assoc]
    rfl
  rw [Tree.locate, if_neg (workspaceDirectory_ne_empty home), hdirectory,
    steps_append_slash home (by decide), show steps "workspace" = ["workspace"] by decide] at h
  rw [Search.base, hdirectory]
  exact h

/-! ## The search -/

/-- The pattern of workspaces: literal names to the directory, then a wild one that holds the sign
before the number. -/
theorem exists_of_read_workspacePattern (hpr : IsNumber pr)
    (hhome : ∀ c ∈ home.toList, IsPlain c) (hjob : '/' ∉ job.toList) {p : PathPattern}
    (hread : PathPattern.read (workspacePattern home job pr) = .ok p) :
    ∃ tokens, PatternToken.read 0 false (workspaceNames job pr).toList = .ok tokens ∧
      .char '@' ∈ tokens ∧
      p = ⟨isAbsolute (home ++ "/workspace"),
        (Text.split '/' (PathPattern.relative (home ++ "/workspace"))).map .literal ++
          [.wild tokens], false⟩ := by
  have hfront : ∀ c ∈ (home ++ "/workspace").toList, IsPlain c := by
    intro c hc
    rw [String.toList_append, List.mem_append] at hc
    rcases hc with hc | hc
    · exact hhome c hc
    · exact isPlain_of_all (by decide) c hc
  have hnames : '/' ∉ (workspaceNames job pr).toList := by
    have hpr' := not_mem_of_isNumber hpr (show Char.isDigit '/' = false from rfl)
    rw [toList_workspaceNames]
    simp [hjob, hpr']
  have hne : workspaceNames job pr ≠ "" := by
    intro h
    have hchars := toList_workspaceNames job pr
    rw [h] at hchars
    exact absurd hchars.symm (by simp)
  rw [workspacePattern_eq] at hread
  obtain ⟨pattern, hpattern, rfl⟩ := PathPattern.exists_of_read_append
    (workspaceDirectory_ne_empty home) hfront hnames hne hread
  obtain ⟨tokens, htokens, rfl, hmark⟩ := read_workspaceNames hpr hpattern
  exact ⟨tokens, htokens, hmark, rfl⟩

/-- A name that holds the sign before the number is not the directory itself or the one around
it. -/
theorem not_accepts_dots {tokens : List PatternToken} (hmark : .char '@' ∈ tokens) :
    ∀ name ∈ ["..", "."], (NamePattern.wild tokens).accepts name = false := by
  intro name hname
  have hno : '@' ∉ name.toList := by
    simp only [List.mem_cons, List.not_mem_nil, or_false] at hname
    rcases hname with rfl | rfl <;> decide
  exact Bool.eq_false_iff.2 fun h => hno (PatternToken.mem_of_matchName h hmark)

theorem standsFor_start (t : Tree) (here : Location) (absolute : Bool) :
    Search.StandsFor t here absolute (if absolute then "/" else ".") [] := by
  cases absolute with
  | true => exact Search.standsFor_root t here
  | false => exact Search.standsFor_dot t here

/-- The search finds nothing, or lists the directory of workspaces; from the root it does list
it. -/
theorem lists_workspaces {tokens : List PatternToken} (hmark : .char '@' ∈ tokens)
    (hworkspaces : t.locate here true (home ++ "/workspace") = .ok workspaces) {p : PathPattern}
    (hp : p = ⟨isAbsolute (home ++ "/workspace"),
      (Text.split '/' (PathPattern.relative (home ++ "/workspace"))).map .literal ++
        [.wild tokens], false⟩) :
    (∃ path, Search.Lists t here (isAbsolute (home ++ "/workspace")) tokens workspaces path
      (Search.start t here p)) ∨
    (Search.start t here p = [] ∧ (isAbsolute (home ++ "/workspace") = true →
      t.find? workspaces ≠ some .directory)) := by
  obtain ⟨pieces, hsplit, hpieces⟩ := split_workspaceDirectory home
  have hslash : ∀ piece ∈ pieces, '/' ∉ piece.toList := by
    intro piece hpiece
    exact Text.not_mem_of_mem_split (hsplit ▸ List.mem_append_left _ hpiece)
  have hway : t.follow true linkLimit (Search.base here (isAbsolute (home ++ "/workspace")))
      ([] ++ pieces.filter (· ≠ "") ++ ["workspace"]) = .ok workspaces := by
    rw [hpieces]
    exact follow_workspaceDirectory hworkspaces
  have hstart : Search.start t here p = Search.enter t here
      ⟨if isAbsolute (home ++ "/workspace") then "/" else ".", true⟩
      (pieces.map .literal ++ [.literal "workspace", .wild tokens]) := by
    rw [hp, hsplit, List.map_append, List.append_assoc]
    rfl
  rw [hstart]
  have hdots := not_accepts_dots hmark
  generalize isAbsolute (home ++ "/workspace") = absolute at hway ⊢
  have hstands (t' : Tree) : Search.StandsFor t' here absolute
      (Search.Place.mk (if absolute then "/" else ".") true).path [] :=
    standsFor_start t' here absolute
  by_cases hroot : absolute = true ∧ t.find? workspaces = some .directory
  · obtain ⟨rfl, hdirectory⟩ := hroot
    exact .inl (Search.lists_of_follow hdots hslash (by decide) hstands rfl hway hdirectory)
  · rcases Search.enter_literals_wild hdots hslash (by decide) (hstands t) hway with hnil | hlists
    · exact .inr ⟨hnil, fun habsolute hdirectory => hroot ⟨habsolute, hdirectory⟩⟩
    · exact .inl hlists

theorem length_children_le_bound (t : Tree) (l : Location) (p : PathPattern) :
    (t.children l).length ≤ Search.bound t p := by
  have hchildren : (t.children l).length ≤ t.entries.length := List.length_filterMap_le _ _
  have hpow : t.entries.length + 2 ≤ (t.entries.length + 2) ^ (linkLimit + 2) :=
    Nat.le_self_pow (by decide) _
  calc (t.children l).length
    _ ≤ t.entries.length + 2 := Nat.le_add_right_of_le hchildren
    _ ≤ (t.entries.length + 2) ^ (linkLimit + 2) := hpow
    _ ≤ Search.bound t p := Nat.le_mul_of_pos_right _ (Nat.succ_pos _)

/-- The search for the workspaces of a pull request clears their directory of what it takes for
them. -/
theorem clears_workspaces {tokens : List PatternToken} (hmark : .char '@' ∈ tokens)
    (hworkspaces : t.locate here true (home ++ "/workspace") = .ok workspaces) {p : PathPattern}
    (hp : p = ⟨isAbsolute (home ++ "/workspace"),
      (Text.split '/' (PathPattern.relative (home ++ "/workspace"))).map .literal ++
        [.wild tokens], false⟩) :
    ∃ entries, Removal.Clears tokens workspaces entries t
        (Removal.sweep here p.onlyDirectories (Search.bound t p) t (Search.start t here p) []) ∧
      (isAbsolute (home ++ "/workspace") = true → ∀ name ∈ t.children workspaces,
        name ∈ entries) := by
  have honly : p.onlyDirectories = false := by rw [hp]
  rw [honly]
  rcases lists_workspaces hmark hworkspaces hp with ⟨path, hlists⟩ | ⟨hnil, hdirectory⟩
  · refine ⟨(t.children workspaces).mergeSort fun a b => decide (a ≤ b), ?_,
      fun _ name hname => List.mem_mergeSort.2 hname⟩
    rw [hlists.items_eq]
    refine Removal.clears_sweep hlists.ne_empty hlists.ne_dot ?_ _ ?_ (Tree.within_refl t) ?_
    · rw [hlists.isAbsolute_eq]
      exact hlists.follow_eq
    · intro name hname
      obtain ⟨entry, hentry⟩ := Option.isSome_iff_exists.1
        (Tree.mem_children_iff.1 (List.mem_mergeSort.1 hname))
      exact (Tree.placed_of_find? hentry).1
    · rw [List.length_mergeSort]
      exact length_children_le_bound t workspaces p
  · have hswept : Removal.sweep here false (Search.bound t p) t [] [] = (t, .ok []) := by
      cases Search.bound t p <;> rfl
    rw [hnil, hswept]
    refine ⟨[], .of_unchanged fun _ _ => rfl, fun habsolute name hname => ?_⟩
    obtain ⟨entry, hentry⟩ := Option.isSome_iff_exists.1 (Tree.mem_children_iff.1 hname)
    exact absurd (Tree.placed_of_find? hentry).2 (hdirectory habsolute)

theorem removeMatching_of_read {pattern : String} {p : PathPattern}
    (h : PathPattern.read pattern = .ok p) (t : Tree) (here : Location) :
    removeMatching t here pattern =
      ((Removal.sweep here p.onlyDirectories (Search.bound t p) t (Search.start t here p) []).1,
        (Removal.sweep here p.onlyDirectories (Search.bound t p) t
          (Search.start t here p) []).2.mapError .file) := by
  rw [removeMatching, h]

/-- Removing the workspaces of a pull request leaves everything as it was but what it takes for
them. -/
theorem find?_removeMatching_of_not_taken (hpr : IsNumber pr)
    (hhome : ∀ c ∈ home.toList, IsPlain c) (hjob : '/' ∉ job.toList)
    (hworkspaces : t.locate here true (home ++ "/workspace") = .ok workspaces) {l : Location}
    (hl : ∀ name, TakenForWorkspace job pr name → ¬ (name :: workspaces) <:+ l) :
    (removeMatching t here (workspacePattern home job pr)).1.find? l = t.find? l := by
  cases hread : PathPattern.read (workspacePattern home job pr) with
  | error error => rw [removeMatching, hread]
  | ok p =>
    rw [removeMatching_of_read hread]
    obtain ⟨tokens, htokens, hmark, hp⟩ := exists_of_read_workspacePattern hpr hhome hjob hread
    obtain ⟨entries, hclears, -⟩ := clears_workspaces hmark hworkspaces hp
    generalize Removal.sweep here p.onlyDirectories (Search.bound t p) t
      (Search.start t here p) [] = swept at hclears ⊢
    exact hclears.kept l fun name hname => hl name ⟨tokens, htokens, hname⟩

/-- It takes all of that away if it succeeds and the home directory is given from the root. -/
theorem find?_removeMatching_of_taken (hpr : IsNumber pr)
    (hhome : ∀ c ∈ home.toList, IsPlain c) (hjob : '/' ∉ job.toList)
    (hworkspaces : t.locate here true (home ++ "/workspace") = .ok workspaces)
    (habsolute : isAbsolute (home ++ "/workspace") = true) {removed : List String}
    (hremoved : (removeMatching t here (workspacePattern home job pr)).2 = .ok removed)
    (hname : TakenForWorkspace job pr name) :
    (removeMatching t here (workspacePattern home job pr)).1.find? (name :: workspaces) =
      none := by
  cases hread : PathPattern.read (workspacePattern home job pr) with
  | error error =>
    rw [removeMatching, hread] at hremoved
    cases hremoved
  | ok p =>
    rw [removeMatching_of_read hread] at hremoved ⊢
    obtain ⟨tokens, htokens, hmark, hp⟩ := exists_of_read_workspacePattern hpr hhome hjob hread
    obtain ⟨entries, hclears, hentries⟩ := clears_workspaces hmark hworkspaces hp
    obtain ⟨tokens', htokens', hmatch⟩ := hname
    rw [htokens] at htokens'
    cases htokens'
    generalize Removal.sweep here p.onlyDirectories (Search.bound t p) t
      (Search.start t here p) [] = swept at hclears hremoved ⊢
    have hpaths : swept.2 = .ok removed := by
      cases hresult : swept.2 with
      | error error =>
        rw [hresult] at hremoved
        cases hremoved
      | ok paths =>
        rw [hresult] at hremoved
        cases hremoved
        rfl
    by_cases hchild : name ∈ t.children workspaces
    · exact hclears.gone removed hpaths name (hentries habsolute name hchild) hmatch
    · rw [Tree.mem_children_iff, Option.not_isSome_iff_eq_none] at hchild
      exact hclears.within.find?_eq_none hchild

/-! ## The cleanup before a build -/

namespace Command

open Program

variable {s : Settings} {env : Environment}

/-- The cleanup before a build leaves the files alone, or removes the workspaces of a closed pull
request. -/
theorem prepare_of_yields {t' : Tree} {es : List Exchange} {r : Except Failure Unit}
    (h : (prepare s env).Yields t es t' r) :
    (t' = t ∧ (r = .ok () → action s ≠ .closed)) ∨
      ∃ pr home job, s.requirePrNumber = .ok pr ∧ s.requireJenkinsHome = .ok home ∧
        s.requireJobName = .ok job ∧
        t' = (removeMatching t env.here (workspacePattern home job pr)).1 ∧
        (r = .ok () → ∃ removed,
          (removeMatching t env.here (workspacePattern home job pr)).2 = .ok removed) := by
  cases prepareLog_of_yields h with
  | quiet => exact .inl ⟨rfl, nofun⟩
  | unlisted => exact .inl ⟨rfl, nofun⟩
  | stopped => exact .inl ⟨rfl, nofun⟩
  | removed hpr hids himages hsettled hcleared =>
    cases hcleared with
    | kept hopen => exact .inl ⟨rfl, fun _ => hopen⟩
    | unknown => exact .inl ⟨rfl, nofun⟩
    | @swept home job hclosed hhome hjob =>
      refine .inr ⟨_, home, job, require_of_eq_some hpr, require_of_eq_some hhome,
        require_of_eq_some hjob, rfl, fun hr => ?_⟩
      cases hremoved : (removeMatching t env.here (workspacePattern home job _)).2 with
      | ok removed => exact ⟨removed, rfl⟩
      | error error =>
        rw [hremoved] at hr
        cases hr

/-! ## What another pull request keeps -/

/-- An entry that has the name of a workspace of another pull request stays, with all below it,
unless the pattern matches its name.  One that the pattern matches goes with a closed pull request.
For a job without wildcards the pattern matches it if the number begins that of the other. -/
theorem prepare_workspace {server : Server} {w : World}
    (hpr : s.requirePrNumber = .ok pr) (hnumber : IsNumber pr)
    (hhome : s.requireJenkinsHome = .ok home) (hplain : ∀ c ∈ home.toList, IsPlain c)
    (hjob : s.requireJobName = .ok job)
    (hworkspaces : w.tree.locate env.here true (home ++ "/workspace") = .ok workspaces)
    (hname : NamesWorkspace job other name)
    (hentry : (w.tree.find? (name :: workspaces)).isSome) :
    (¬ TakenForWorkspace job pr name → ∀ l, name :: workspaces <:+ l →
      ((prepare s env).run server w).2.tree.find? l = w.tree.find? l) ∧
    (TakenForWorkspace job pr name → action s = .closed →
      isAbsolute (home ++ "/workspace") = true → ((prepare s env).run server w).1 = .ok () →
      ((prepare s env).run server w).2.tree.find? (name :: workspaces) = none) ∧
    ((∀ c ∈ job.toList, IsPlain c) →
      (TakenForWorkspace job pr name ↔ pr.toList <+: other.toList)) := by
  have hslash : '/' ∉ job.toList := by
    obtain ⟨entry, hfind⟩ := Option.isSome_iff_exists.1 hentry
    obtain ⟨-, -, -, hslash⟩ := isName_iff.1 (Tree.placed_of_find? hfind).1
    intro hmem
    rcases hname with rfl | ⟨suffix, rfl⟩ <;> exact hslash (by simp [hmem])
  have hrun := prepare_of_yields (yields_run server w (prepare s env))
  refine ⟨fun htaken l hl => ?_, fun htaken hclosed habsolute hok => ?_,
    fun hplainJob => takenForWorkspace_iff_prefix hplainJob hnumber hname⟩
  · rcases hrun with ⟨htree, -⟩ | ⟨pr', home', job', hpr', hhome', hjob', htree, -⟩
    · rw [htree]
    · cases hpr.symm.trans hpr'
      cases hhome.symm.trans hhome'
      cases hjob.symm.trans hjob'
      rw [htree]
      refine find?_removeMatching_of_not_taken hnumber hplain hslash hworkspaces ?_
      intro name' hname' hsuffix
      -- there is one entry of the directory on the way to `l`
      have hsame : name' :: workspaces = name :: workspaces :=
        (List.suffix_of_suffix_length_le hsuffix hl (Nat.le_refl _)).eq_of_length rfl
      exact htaken ((List.cons.inj hsame).1 ▸ hname')
  · rcases hrun with ⟨-, hopen⟩ | ⟨pr', home', job', hpr', hhome', hjob', htree, hremoved⟩
    · exact absurd hclosed (hopen hok)
    · cases hpr.symm.trans hpr'
      cases hhome.symm.trans hhome'
      cases hjob.symm.trans hjob'
      obtain ⟨removed, hremoved⟩ := hremoved hok
      rw [htree]
      exact find?_removeMatching_of_taken hnumber hplain hslash hworkspaces habsolute hremoved
        htaken

/-! A cleanup for the pull request 1 where others have workspaces. -/

namespace Overlap

/-- The settings of the closed pull request 1. -/
def settings : Settings where
  dockerSocket := some "tcp://localhost:2375"
  cpuArch := Settings.hostArch
  dockerhubUser := none
  dockerhubToken := none
  githubToken := none
  build := ⟨none, some "/home", some "job", none, .unknown⟩
  pr := ⟨some "1", some .closed, false, .push, none⟩
  endpoints := {}

def environment : Environment := ⟨"/", fun _ => none⟩

/-- An engine without images. -/
def server : Server := fun _ => .reply ⟨200, none, .text "[]"⟩

/-- The scheduler with some workspaces. -/
def world (names : List String) : World :=
  ⟨[], "", names.foldl (fun t name => t.makeDirectories [name, "workspace", "home"]) .empty⟩

/-- What the cleanup leaves behind. -/
def after (names : List String) : World :=
  ((prepare settings environment).run server (world names)).2

theorem run_ok : ((prepare settings environment).run server (world ["job@pr_12"])).1 = .ok () :=
  eq_ok_of_toOption (by decide +kernel)

end Overlap

/-- The workspace of 12 goes, and the one of 999 stays. -/
theorem prepare_workspace_overlap :
    (Overlap.after ["job@pr_12"]).tree.find? ["job@pr_12", "workspace", "home"] = none ∧
      ∀ l, ["job@pr_999@tmp", "workspace", "home"] <:+ l →
        (Overlap.after ["job@pr_12", "job@pr_999@tmp"]).tree.find? l =
          (Overlap.world ["job@pr_12", "job@pr_999@tmp"]).tree.find? l := by
  have hnumber : IsNumber "1" := ⟨by decide, List.all_eq_true.1 (by decide)⟩
  have hhome : ∀ c ∈ "/home".toList, IsPlain c := isPlain_of_all (by decide)
  have hjob : ∀ c ∈ "job".toList, IsPlain c := isPlain_of_all (by decide)
  obtain ⟨-, hgone, htaken⟩ := @prepare_workspace ["workspace", "home"] "/home" "job" "1" "12"
    "job@pr_12" Overlap.settings Overlap.environment Overlap.server (Overlap.world ["job@pr_12"])
    rfl hnumber rfl hhome rfl rfl (.inl (by decide)) (by decide)
  obtain ⟨hkept, -, hfree⟩ := @prepare_workspace ["workspace", "home"] "/home" "job" "1" "999"
    "job@pr_999@tmp" Overlap.settings Overlap.environment Overlap.server
    (Overlap.world ["job@pr_12", "job@pr_999@tmp"]) rfl hnumber rfl hhome rfl rfl
    (.inr ⟨"tmp", by decide⟩) (by decide)
  exact ⟨hgone ((htaken hjob).2 (by decide)) rfl (by decide) Overlap.run_ok,
    hkept fun h => absurd ((hfree hjob).1 h) (by decide)⟩

/-- So different numbers do not keep the workspaces of two pull requests apart. -/
theorem prepare_not_isolated :
    ¬ ∀ (s : Settings) (env : Environment) (server : Server) (w : World)
        (pr other home job name : String) (workspaces : Location),
      s.requirePrNumber = .ok pr → s.requireJenkinsHome = .ok home →
      s.requireJobName = .ok job → action s = .closed → IsNumber pr → IsNumber other →
      pr ≠ other → w.tree.locate env.here true (home ++ "/workspace") = .ok workspaces →
      NamesWorkspace job other name → (w.tree.find? (name :: workspaces)).isSome →
      (((prepare s env).run server w).2.tree.find? (name :: workspaces)).isSome := by
  intro hisolated
  have hkept := hisolated Overlap.settings Overlap.environment Overlap.server
    (Overlap.world ["job@pr_12"]) "1" "12" "/home" "job" "job@pr_12" ["workspace", "home"]
    rfl rfl rfl rfl ⟨by decide, List.all_eq_true.1 (by decide)⟩
    ⟨by decide, List.all_eq_true.1 (by decide)⟩ (by decide) rfl (.inl (by decide)) (by decide)
  have hgone : ((prepare Overlap.settings Overlap.environment).run Overlap.server
      (Overlap.world ["job@pr_12"])).2.tree.find? ["job@pr_12", "workspace", "home"] = none := by
    decide +kernel
  rw [hgone] at hkept
  cases hkept

end Command

end ImagePipeline
