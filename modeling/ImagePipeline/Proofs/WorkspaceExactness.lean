import ImagePipeline.Proofs.WorkspaceRemoval

/-!
# What a removal of workspaces removes

The pattern of workspaces names a directory, up to its last slash, and how the names of the entries
begin that go.  A removal takes these entries away and nothing else, as long as the path of the
directory leads there without them.

* `Tree.removeAll`: a tree without some entries of a directory.
* `Removal.sweep_listing`: going over what is listed takes the entries that match out one by one,
  and each of them is found.
* `Search.start_eq_listing`, `Search.start_eq_nil`: a search behind literal names lists the
  directory that they lead to, and finds nothing if they lead to none.
* `removeMatching_workspacePattern`: the two together.  `removeMatching_not_exact` is a directory
  whose path leads through one of the entries that go.
-/

namespace ImagePipeline

namespace Files

variable {t t' : Tree} {here d l : Location} {path name : String} {names : List String}

namespace Tree

/-! ## Several entries of a directory -/

/-- The tree without some entries of a directory. -/
def removeAll (t : Tree) (d : Location) (names : List String) : Tree :=
  names.foldl (fun t name => t.remove (name :: d)) t

@[simp] theorem removeAll_nil (t : Tree) (d : Location) : t.removeAll d [] = t := rfl

@[simp] theorem removeAll_cons (t : Tree) (d : Location) (name : String) (names : List String) :
    t.removeAll d (name :: names) = (t.remove (name :: d)).removeAll d names := rfl

theorem within_removeAll (t : Tree) (d : Location) (names : List String) :
    (t.removeAll d names).Within t := by
  induction names generalizing t with
  | nil => exact within_refl t
  | cons name names ih => exact (ih (t.remove (name :: d))).trans (within_remove t (name :: d))

theorem find?_removeAll_of_mem (hmem : name ∈ names) (h : name :: d <:+ l) :
    (t.removeAll d names).find? l = none := by
  induction names generalizing t with
  | nil => cases hmem
  | cons first names ih =>
    rw [removeAll_cons]
    rcases List.mem_cons.1 hmem with rfl | hmem
    · exact (within_removeAll _ d names).find?_eq_none
        (find?_remove_of_suffix (List.cons_ne_nil _ _) h)
    · exact ih hmem

theorem find?_removeAll_of_not_suffix (h : ∀ name ∈ names, ¬ name :: d <:+ l) :
    (t.removeAll d names).find? l = t.find? l := by
  induction names generalizing t with
  | nil => rfl
  | cons first names ih =>
    rw [removeAll_cons, ih fun name hname => h name (List.mem_cons_of_mem _ hname)]
    exact find?_remove_of_not_suffix (h first List.mem_cons_self)

/-- The order in which entries are taken out does not matter. -/
theorem within_removeAll_of_subset {names' : List String} (h : ∀ name ∈ names', name ∈ names) :
    (t.removeAll d names).Within (t.removeAll d names') := by
  intro l entry hentry
  rw [find?_removeAll_of_not_suffix]
  · exact within_removeAll t d names l entry hentry
  · intro name hname hsuffix
    rw [find?_removeAll_of_mem (h name hname) hsuffix] at hentry
    cases hentry

/-- What stands below an entry is not there without it. -/
theorem isSome_of_suffix (hsuffix : d <:+ l) (h : (t.find? l).isSome) : (t.find? d).isSome := by
  induction l with
  | nil => rwa [List.suffix_nil.1 hsuffix]
  | cons name parent ih =>
    rcases List.suffix_cons_iff.1 hsuffix with rfl | hsuffix
    · exact h
    · obtain ⟨entry, hentry⟩ := Option.isSome_iff_exists.1 h
      exact ih hsuffix (by rw [(placed_of_find? hentry).2]; rfl)

theorem nodup_children (t : Tree) (l : Location) : (t.children l).Nodup := by
  rw [children, List.Nodup, List.pairwise_filterMap]
  refine List.Pairwise.imp ?_ (List.pairwise_map.1 t.unique)
  rintro ⟨place, _⟩ ⟨place', _⟩ hne name hname _ hname' rfl
  refine hne ?_
  cases place with
  | nil => cases hname
  | cons first parent =>
    cases place' with
    | nil => cases hname'
    | cons first' parent' =>
      obtain ⟨hparent, hfirst⟩ := Option.ite_none_right_eq_some.1 hname
      obtain ⟨hparent', hfirst'⟩ := Option.ite_none_right_eq_some.1 hname'
      cases hfirst
      cases hfirst'
      rw [hparent, hparent']

/-- The tree without the entries of a directory whose names begin with a text. -/
def without (t : Tree) (d : Location) (front : String) : Tree :=
  t.removeAll d ((t.children d).filter fun name => front.toList.isPrefixOf name.toList)

/-! ## Paths to a directory -/

/-- A path leads to a directory. -/
structure LeadsTo (t : Tree) (here : Location) (path : String) (d : Location) : Prop where
  /-- It is walked from a directory. -/
  start : t.find? (if isAbsolute path then [] else here) = some .directory
  locate_eq : t.locate here true path = .ok d
  directory : t.find? d = some .directory

theorem LeadsTo.of_within (hwithin : t'.Within t) (h : t'.LeadsTo here path d) :
    t.LeadsTo here path d where
  start := hwithin _ _ h.start
  locate_eq := by
    have hlocate := h.locate_eq
    rw [locate] at hlocate ⊢
    split at hlocate
    · cases hlocate
    next hne =>
      rw [if_neg hne]
      exact follow_of_within hwithin hlocate
  directory := hwithin _ _ h.directory

theorem LeadsTo.ne_empty (h : t.LeadsTo here path d) : path ≠ "" := by
  rintro rfl
  cases h.locate_eq

/-- A path to a directory that is continued by the name of an entry there leads to the entry. -/
theorem LeadsTo.locate_entry (h : t.LeadsTo here path d) (hentry : (t.find? (name :: d)).isSome) :
    t.locate here false (joinPath path name) = .ok (name :: d) := by
  obtain ⟨entry, hfind⟩ := Option.isSome_iff_exists.1 hentry
  have hname := (placed_of_find? hfind).1
  obtain ⟨fewer, -, hrest⟩ :=
    exists_follow_append h.start (follow_of_locate h.start h.locate_eq) h.directory
  have harrived : t.descend false d [name] = .arrived (name :: d) := by
    rw [descend_singleton hname, if_pos hentry]
  rw [locate_joinPath h.ne_empty hname, hrest]
  unfold follow
  rw [harrived]

end Tree

/-! ## Names that begin with a text -/

namespace PatternToken

/-- The tokens for the names that begin with a text. -/
def beginning (front : String) : List PatternToken := front.toList.map char ++ [sequence]

theorem matchName_beginning {front : String} :
    matchName (beginning front) name.toList = true ↔ front.toList <+: name.toList :=
  matchName_append_sequence

end PatternToken

/-- A removal has taken the entries of a directory away whose names begin with a text, and nothing
else. -/
structure TakesAway (t : Tree) (here d : Location) (front : String) (after : Tree)
    (removed : List String) : Prop where
  /-- Each of these entries is told once, by a path that led to it. -/
  told : ∃ names : List String, names.Nodup ∧
    (∀ name, name ∈ names ↔ (t.find? (name :: d)).isSome ∧ front.toList <+: name.toList) ∧
    removed.map (t.locate here false) = names.map fun name => .ok (name :: d)
  /-- It is gone with all below it. -/
  gone : ∀ name l, front.toList <+: name.toList → name :: d <:+ l → after.find? l = none
  kept : ∀ l, (∀ name, front.toList <+: name.toList → ¬ name :: d <:+ l) →
    after.find? l = t.find? l

/-! ## Going over a directory -/

namespace Removal

variable {tokens : List PatternToken} {entries removed : List String} {fuel : Nat}

/-- The names that tokens match. -/
def matching (tokens : List PatternToken) (entries : List String) : List String :=
  entries.filter fun name => PatternToken.matchName tokens name.toList

/-- If a directory can be reached without the entries that match, each of them is found and taken
out. -/
theorem sweep_listing (hdot : path ≠ ".") (hnodup : entries.Nodup)
    (hentries : ∀ name ∈ entries, (t'.find? (name :: d)).isSome)
    (hleads : (t'.removeAll d (matching tokens entries)).LeadsTo here path d)
    (hfuel : entries.length ≤ fuel) :
    sweep here false fuel t' (Search.listing t here path tokens entries) removed =
      (t'.removeAll d (matching tokens entries),
        .ok (removed.reverse ++ (matching tokens entries).map (joinPath path))) := by
  induction entries generalizing t' fuel removed with
  | nil =>
    have hswept : sweep here false fuel t' (Search.listing t here path tokens []) removed =
        (t', .ok removed.reverse) := by
      cases fuel <;> rfl
    rw [hswept, show matching tokens [] = [] from rfl, Tree.removeAll_nil, List.map_nil,
      List.append_nil]
  | cons name entries ih =>
    obtain ⟨hnot, hnodup⟩ := List.nodup_cons.1 hnodup
    obtain ⟨hname, hrest⟩ := List.forall_mem_cons.1 hentries
    obtain ⟨fuel, rfl⟩ := Nat.exists_eq_add_of_le' (Nat.le_trans (Nat.succ_pos _) hfuel)
    have hfuel := Nat.le_of_succ_le_succ hfuel
    rw [Search.listing, List.map_cons, ← Search.listing]
    by_cases hmatch : PatternToken.matchName tokens name.toList = true
    · have hmatching : matching tokens (name :: entries) = name :: matching tokens entries :=
        List.filter_cons_of_pos hmatch
      rw [hmatching, Tree.removeAll_cons] at hleads ⊢
      have hbefore := (hleads.of_within (Tree.within_removeAll _ d _)).of_within
        (Tree.within_remove t' (name :: d))
      have hpath : (Search.placeOf t here (Search.inside path name)).path = joinPath path name :=
        Search.inside_of_ne hdot
      have hremove : t'.removePath here (joinPath path name) = (t'.remove (name :: d), .ok ()) := by
        obtain ⟨entry, hfind⟩ := Option.isSome_iff_exists.1 hname
        rw [Tree.removePath_joinPath hbefore.ne_empty (Tree.placed_of_find? hfind).1,
          hbefore.locate_entry hname]
      have hothers : ∀ name' ∈ entries, ((t'.remove (name :: d)).find? (name' :: d)).isSome := by
        intro name' hname'
        rw [Tree.find?_remove_of_not_suffix]
        · exact hrest name' hname'
        · intro hsuffix
          have hsame := hsuffix.eq_of_length rfl
          exact hnot ((List.cons.inj hsame).1 ▸ hname')
      rw [← hpath] at hremove
      rw [sweep_of_removed hmatch hremove, ih hnodup hothers hleads hfuel, hpath,
        List.reverse_cons, List.map_cons, List.append_assoc, List.singleton_append]
    · have hmatching : matching tokens (name :: entries) = matching tokens entries :=
        List.filter_cons_of_neg hmatch
      rw [hmatching] at hleads ⊢
      rw [sweep_of_not_match hmatch, ih hnodup hrest hleads hfuel]

/-- All entries of a directory that begin with a text are taken out, if it can be reached without
them. -/
theorem takesAway_sweep {front : String} (hdot : path ≠ ".") (hperm : entries.Perm (t.children d))
    (hleads : (t.without d front).LeadsTo here path d) (hfuel : entries.length ≤ fuel) :
    ∃ removed,
      (sweep here false fuel t
        (Search.listing t here path (PatternToken.beginning front) entries) []).2 = .ok removed ∧
      TakesAway t here d front
        (sweep here false fuel t
          (Search.listing t here path (PatternToken.beginning front) entries) []).1 removed := by
  have hentries : ∀ name, name ∈ entries ↔ (t.find? (name :: d)).isSome := fun name => by
    rw [hperm.mem_iff, Tree.mem_children_iff]
  have hmatching : ∀ name, name ∈ matching (PatternToken.beginning front) entries ↔
      (t.find? (name :: d)).isSome ∧ front.toList <+: name.toList := fun name => by
    rw [matching, List.mem_filter, PatternToken.matchName_beginning, hentries]
  have hnodup := hperm.nodup_iff.2 (Tree.nodup_children t d)
  -- the search goes over the entries in another order than the tree has them in
  have hless : (t.without d front).Within
      (t.removeAll d (matching (PatternToken.beginning front) entries)) := by
    refine Tree.within_removeAll_of_subset fun name hname => ?_
    obtain ⟨hmem, hprefix⟩ := (hmatching name).1 hname
    exact List.mem_filter.2 ⟨Tree.mem_children_iff.2 hmem, List.isPrefixOf_iff_prefix.2 hprefix⟩
  have hafter := hleads.of_within hless
  have hbefore := hafter.of_within (Tree.within_removeAll t d _)
  rw [sweep_listing hdot hnodup (fun name hname => (hentries name).1 hname) hafter hfuel]
  refine ⟨_, rfl, ⟨_, hnodup.filter _, hmatching, ?_⟩, fun name l hprefix hsuffix => ?_,
    fun l hl => ?_⟩
  · rw [List.reverse_nil, List.nil_append, List.map_map]
    refine List.map_congr_left fun name hname => ?_
    exact hbefore.locate_entry ((hmatching name).1 hname).1
  · by_cases hentry : (t.find? (name :: d)).isSome
    · exact Tree.find?_removeAll_of_mem ((hmatching name).2 ⟨hentry, hprefix⟩) hsuffix
    · refine (Tree.within_removeAll t d _).find?_eq_none ?_
      rw [← Option.not_isSome_iff_eq_none]
      exact fun hl => hentry (Tree.isSome_of_suffix hsuffix hl)
  · exact Tree.find?_removeAll_of_not_suffix fun name hname => hl name ((hmatching name).1 hname).2

end Removal

/-! ## The search behind literal names -/

namespace Search

variable {tokens : List PatternToken} {dir : String}

/-- The pattern of what tokens match in a directory. -/
def patternIn (dir : String) (tokens : List PatternToken) : PathPattern :=
  ⟨isAbsolute dir, (Text.split '/' (PathPattern.relative dir)).map .literal ++ [.wild tokens],
    false⟩

/-- A path is searched as it is walked, unless it begins with dots in the working directory and
goes on with two slashes in a row. -/
def IsSearched (dir : String) : Prop :=
  isAbsolute dir = true ∨ ((Text.split '/' dir).dropWhile (· = ".")).head? ≠ some ""

theorem not_slash_of_mem_relative :
    ∀ piece ∈ Text.split '/' (PathPattern.relative dir), '/' ∉ piece.toList :=
  fun _ hpiece => Text.not_mem_of_mem_split hpiece

theorem begins_relative (h : IsSearched dir) :
    Begins (if isAbsolute dir then "/" else ".") (Text.split '/' (PathPattern.relative dir)) := by
  intro hdot
  rw [PathPattern.relative]
  split at hdot
  · exact absurd hdot (by decide)
  next habsolute =>
    rw [if_neg habsolute]
    exact h.resolve_left habsolute

/-- The path that stands for the names of another leads to the directory that the other leads
to. -/
theorem StandsFor.leadsTo (hstands : StandsFor t here (isAbsolute dir) path (pathNames dir))
    (h : t.LeadsTo here dir d) : t.LeadsTo here path d where
  start := by
    rw [hstands.isAbsolute_eq]
    exact h.start
  locate_eq :=
    hstands.locate_eq h.start (Tree.follow_of_locate h.start h.locate_eq) h.directory
  directory := h.directory

/-- A directory that a path leads to is listed. -/
theorem start_eq_listing
    (hdots : ∀ name ∈ ["..", "."], (NamePattern.wild tokens).accepts name = false)
    (hsearched : IsSearched dir) (hname : ∃ piece ∈ Text.split '/' dir, piece ≠ ".")
    (h : t.LeadsTo here dir d) :
    ∃ path, path ≠ "." ∧ (∀ t' : Tree, t'.LeadsTo here dir d → t'.LeadsTo here path d) ∧
      start t here (patternIn dir tokens) =
        listing t here path tokens ((t.children d).mergeSort fun a b => decide (a ≤ b)) := by
  have hnames : [] ++ (Text.split '/' (PathPattern.relative dir)).filter (· ≠ "") =
      pathNames dir :=
    PathPattern.pathNames_relative dir
  have hway := Tree.follow_of_locate h.start h.locate_eq
  obtain ⟨place, hstands, hplace, hdot, henter⟩ :=
    @enter_literals_of_follow t here (isAbsolute dir) [] [.wild tokens]
      ⟨if isAbsolute dir then "/" else ".", true⟩ _ not_slash_of_mem_relative "." [] d
      (fun t' => standsFor_start t' here (isAbsolute dir)) (begins_relative hsearched) h.start rfl
      (by rw [hnames]; exact Tree.follow_append_dot h.start hway h.directory)
  rw [hnames] at hstands
  refine ⟨place.path, fun heq => ?_, fun t' h' => (hstands t').leadsTo h', ?_⟩
  · obtain ⟨hbegin, hall⟩ := hdot heq
    obtain ⟨piece, hpiece, hne⟩ := hname
    dsimp only at hbegin
    split at hbegin
    · exact absurd hbegin (by decide)
    next habsolute =>
      rw [PathPattern.relative, if_neg habsolute] at hall
      exact hne (hall piece hpiece)
  · have hpath := (hstands t).leadsTo h
    rw [← enter_wild_of_locate hdots hplace hpath.locate_eq hpath.directory, ← henter]
    rfl

/-- Nothing is found where there is no directory. -/
theorem start_eq_nil (hne : dir ≠ "")
    (hdots : ∀ name ∈ ["..", "."], (NamePattern.wild tokens).accepts name = false)
    (hstart : t.find? (if isAbsolute dir then [] else here) = some .directory)
    (h : t.isDirectory here dir = false) : start t here (patternIn dir tokens) = [] := by
  have hstands := standsFor_start t here (isAbsolute dir)
  have hbegin : t.isDirectory here (if isAbsolute dir then "/" else ".") = true :=
    (Tree.isDirectory_iff_of_locate (hstands.locate_eq hstart rfl hstart)).2 hstart
  show enter t here ⟨if isAbsolute dir then "/" else ".", true⟩
    ((Text.split '/' (PathPattern.relative dir)).map .literal ++ [.wild tokens]) = []
  rcases @enter_literals t here (isAbsolute dir) [] [.wild tokens]
    ⟨if isAbsolute dir then "/" else ".", true⟩ _ not_slash_of_mem_relative hstands with
    hnil | ⟨place, hplace, hfound, henter⟩
  · exact hnil
  have hnot : ¬ place.directory = true := by
    intro hdirectory
    have hpath : t.isDirectory here place.path = true := by
      rcases hfound with rfl | hfound
      · exact hbegin
      · rw [← hfound, hdirectory]
    obtain ⟨e, hlocate, he⟩ := Tree.exists_locate_of_isDirectory hpath
    have hnames := Tree.follow_of_locate (by rw [hplace.isAbsolute_eq]; exact hstart) hlocate
    have hway := hplace.follow_eq []
    rw [List.append_nil, List.append_nil, List.nil_append, show
      (Text.split '/' (PathPattern.relative dir)).filter (· ≠ "") = pathNames dir from
      PathPattern.pathNames_relative dir] at hway
    rw [hplace.isAbsolute_eq] at hnames
    have hdir := Tree.locate_of_follow hne hstart (hway.symm.trans hnames) he
    rw [(Tree.isDirectory_iff_of_locate hdir).2 he] at h
    cases h
  rw [henter, enter_wild t here place hdots, if_neg hnot]

end Search

end Files

open Files
open Files.PatternToken (IsPlain)

/-! ## Removing workspaces -/

variable {home job pr dir front : String}

/-- The last slash of the pattern comes before the job's name for the number, and behind the
directory of workspaces. -/
theorem of_workspacePattern_eq (hpr : '/' ∉ pr.toList) (hslash : '/' ∉ front.toList)
    (h : workspacePattern home job pr = dir ++ "/" ++ front ++ "*") :
    (∀ c, c ∈ dir.toList ∨ c ∈ front.toList →
      c ∈ (home ++ "/workspace/" ++ job ++ "@pr_" ++ pr).toList) ∧
    '@' ∈ front.toList ∧ "workspace" ∈ Text.split '/' dir := by
  have hwhole : (home ++ "/workspace/" ++ job ++ "@pr_" ++ pr).toList =
      dir.toList ++ '/' :: front.toList := by
    rw [workspacePattern, ← String.toList_inj, String.toList_append (t := "*"),
      String.toList_append (t := "*")] at h
    rw [List.append_cancel_right h]
    simp
  refine ⟨fun c hc => ?_, ?_, ?_⟩
  · rw [hwhole]
    rcases hc with hc | hc
    · exact List.mem_append_left _ hc
    · exact List.mem_append_right _ (List.mem_cons_of_mem _ hc)
  · have hmark : '/' ∉ '@' :: 'p' :: 'r' :: '_' :: pr.toList := by simp [hpr]
    have hnumber : '@' :: 'p' :: 'r' :: '_' :: pr.toList <:+ dir.toList ++ '/' :: front.toList := by
      rw [← hwhole]
      exact ⟨(home ++ "/workspace/" ++ job).toList, by simp⟩
    rcases List.suffix_or_suffix_of_suffix hnumber (List.suffix_append _ _) with hshort | hlong
    · rcases List.suffix_cons_iff.1 hshort with heq | hsuffix
      · exact absurd (heq ▸ List.mem_cons_self) hmark
      · exact hsuffix.mem List.mem_cons_self
    · exact absurd (hlong.mem List.mem_cons_self) hmark
  · have hpieces : Text.split '/' home ++ ["workspace"] ++
        Text.split '/' (job ++ "@pr_" ++ pr) = Text.split '/' dir ++ [front] := by
      have hlast := Text.split_append_append '/' dir front
      rw [Text.split_of_not_mem hslash] at hlast
      rw [← hlast, show ["workspace"] = Text.split '/' "workspace" by decide,
        ← Text.split_append_append, ← Text.split_append_append]
      congr 1
      rw [← String.toList_inj]
      simpa using hwhole
    obtain ⟨pieces, last, hsplit⟩ : ∃ pieces last,
        Text.split '/' (job ++ "@pr_" ++ pr) = pieces ++ [last] := by
      obtain ⟨first, more, hmore⟩ := exists_split_eq_cons (job ++ "@pr_" ++ pr)
      rw [hmore]
      exact ⟨_, _, (List.dropLast_concat_getLast (List.cons_ne_nil first more)).symm⟩
    rw [hsplit, ← List.append_assoc] at hpieces
    rw [← List.append_inj_left' hpieces rfl]
    simp

/-- The pattern without wildcards but for the star at its end. -/
theorem read_workspacePattern (hhome : ∀ c ∈ home.toList, IsPlain c)
    (hjob : ∀ c ∈ job.toList, IsPlain c) (hplain : ∀ c ∈ pr.toList, IsPlain c)
    (hpr : '/' ∉ pr.toList) (hslash : '/' ∉ front.toList)
    (h : workspacePattern home job pr = dir ++ "/" ++ front ++ "*") :
    PathPattern.read (workspacePattern home job pr) =
      .ok (Search.patternIn dir (PatternToken.beginning front)) := by
  obtain ⟨hchars, -, hworkspace⟩ := of_workspacePattern_eq hpr hslash h
  have hall : ∀ c ∈ (home ++ "/workspace/" ++ job ++ "@pr_" ++ pr).toList, IsPlain c := by
    intro c hc
    simp only [String.toList_append, List.mem_append] at hc
    rcases hc with (((hc | hc) | hc) | hc) | hc
    · exact hhome c hc
    · exact PatternToken.isPlain_of_all (by decide) c hc
    · exact hjob c hc
    · exact PatternToken.isPlain_of_all (by decide) c hc
    · exact hplain c hc
  have hdir : dir ≠ "" := by
    rintro rfl
    exact absurd hworkspace (by decide)
  rw [h, @String.append_assoc (dir ++ "/")]
  exact PathPattern.read_append_star hdir (fun c hc => hall c (hchars c (.inl hc)))
    (fun c hc => hall c (hchars c (.inr hc))) hslash

namespace Leftovers

/-- A workspace with a file in it, and beside it an entry of another name. -/
def tree (name : String) (entry : Entry) : Tree :=
  (((Tree.empty.makeDirectories ["job@pr_1", "workspace", "home"]).put
    ["job@pr_1", "workspace", "home"] "x" (.file [])).put [] "kept" (.file [])).put
    ["workspace", "home"] name entry

/-- What is left of it. -/
def after (home name : String) (entry : Entry) : Tree × Except RemovalError (List String) :=
  removeMatching (tree name entry) [] (workspacePattern home "job" "1")

/-- A path to the directory through a workspace. -/
def through : String := "/home/workspace/job@pr_1/../../workspace"

theorem start_through :
    Search.start (tree "job@pr_12" .directory) []
        (Search.patternIn through (PatternToken.beginning "job@pr_1")) =
      Search.listing (tree "job@pr_12" .directory) [] through (PatternToken.beginning "job@pr_1")
        ["job@pr_1", "job@pr_12"] := by
  have hstart : Search.start (tree "job@pr_12" .directory) []
        (Search.patternIn through (PatternToken.beginning "job@pr_1")) =
      Search.enter (tree "job@pr_12" .directory) [] ⟨through, true⟩
        [.wild (PatternToken.beginning "job@pr_1")] := by
    rfl
  have hsorted : (["job@pr_1", "job@pr_12"].mergeSort fun a b => decide (a ≤ b)) =
      ["job@pr_1", "job@pr_12"] :=
    List.mergeSort_of_pairwise (by decide)
  rw [hstart, Search.enter_wild_of_locate (not_accepts_dots (by decide)) rfl
    (show (tree "job@pr_12" .directory).locate [] true through = .ok ["workspace", "home"] from rfl)
    rfl]
  exact congrArg _ hsorted

end Leftovers

end ImagePipeline
