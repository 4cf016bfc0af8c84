import ImagePipeline.Files.Removal
import ImagePipeline.Proofs.TextPieces

/-!
# Where paths lead

The way a path leads depends on the names in it only, and on the entries on the way.

* `pathNames`: the names on a path; `pathNames_joinPath` and `steps_joinPath` for a path that is
  continued by another.
* `Tree.Within`: a tree that has lost entries of another.  `follow_of_within`: whatever can still
  be reached in it is where it was before.
* `descend_append_cons`, `follow_of_append_cons`: what a way with more steps after it comes to, and
  that it leads to a directory on the way if it can be walked to its end.  `exists_follow_append`:
  what comes after a way to a directory is walked from there.
* `locate_of_follow`, `follow_of_locate`: a path leads to a directory where its names lead.
* `follow_append_singleton`: a path that ends in a name, a link there not followed, leads to the
  entry of that name in the directory that the rest of the path leads to.
* `removePath_joinPath_eq`: removing such a path takes away that entry.
-/

namespace ImagePipeline.Files

/-! ## The names on a path -/

/-- The names on a path; what stands between two slashes in a row is none. -/
def pathNames (path : String) : List String := (Text.split '/' path).filter (· ≠ "")

theorem isName_iff {name : String} :
    isName name = true ↔ name ≠ "" ∧ name ≠ "." ∧ name ≠ ".." ∧ '/' ∉ name.toList := by
  simp [isName, and_assoc]

theorem exists_toList_eq_cons {s : String} (h : s ≠ "") : ∃ c cs, s.toList = c :: cs := by
  refine List.exists_cons_of_ne_nil fun hnil => h ?_
  rw [← String.toList_inj, hnil]
  rfl

theorem isAbsolute_of_not_mem {name : String} (h : '/' ∉ name.toList) :
    isAbsolute name = false := by
  rw [isAbsolute, beq_eq_false_iff_ne]
  intro hhead
  exact h (List.mem_of_mem_head? hhead)

theorem pathNames_of_not_mem {name : String} (h : '/' ∉ name.toList) :
    pathNames name = [name].filter (· ≠ "") := by
  rw [pathNames, Text.split_of_not_mem h]

theorem pathNames_append_slash (a b : String) :
    pathNames (a ++ "/" ++ b) = pathNames a ++ pathNames b := by
  rw [pathNames, show "/" = String.singleton '/' from rfl, Text.split_append_append,
    List.filter_append, pathNames, pathNames]

/-- A path that ends in a slash is another with a slash after it. -/
theorem exists_append_slash {path : String} (h : path.toList.getLast? = some '/') :
    ∃ front, path = front ++ "/" := by
  obtain ⟨front, hfront⟩ := List.getLast?_eq_some_iff.1 h
  refine ⟨String.ofList front, ?_⟩
  rw [← String.toList_inj, hfront, String.toList_append, String.toList_ofList]
  rfl

variable {base name path : String}

/-- A path that is continued by another ends in a slash and that other. -/
theorem exists_joinPath_eq (hbase : base ≠ "") (hpath : isAbsolute path = false) :
    ∃ front, joinPath base path = front ++ "/" ++ path ∧ pathNames front = pathNames base := by
  rw [joinPath, hpath, if_neg Bool.false_ne_true]
  split
  next h =>
    obtain ⟨front, rfl⟩ := exists_append_slash (h.resolve_left hbase)
    have hempty : pathNames "" = [] := @pathNames_of_not_mem "" List.not_mem_nil
    refine ⟨front, rfl, ?_⟩
    rw [← String.append_empty (s := front ++ "/"), pathNames_append_slash, hempty,
      List.append_nil]
  next h => exact ⟨base, rfl, rfl⟩

theorem pathNames_joinPath (hbase : base ≠ "") (hname : '/' ∉ name.toList) :
    pathNames (joinPath base name) = pathNames base ++ [name].filter (· ≠ "") := by
  obtain ⟨front, hjoin, hfront⟩ := exists_joinPath_eq hbase (isAbsolute_of_not_mem hname)
  rw [hjoin, pathNames_append_slash, hfront, pathNames_of_not_mem hname]

theorem isAbsolute_joinPath (hbase : base ≠ "") (hpath : isAbsolute path = false) :
    isAbsolute (joinPath base path) = isAbsolute base := by
  obtain ⟨c, cs, hcs⟩ := exists_toList_eq_cons hbase
  rw [joinPath, hpath, if_neg Bool.false_ne_true]
  split
  · rw [isAbsolute, isAbsolute, String.toList_append, hcs]
    rfl
  · rw [isAbsolute, isAbsolute, String.toList_append, String.toList_append, hcs]
    rfl

theorem joinPath_ne_empty (hbase : base ≠ "") (hpath : isAbsolute path = false) :
    joinPath base path ≠ "" := by
  obtain ⟨front, hjoin, -⟩ := exists_joinPath_eq hbase hpath
  rw [hjoin]
  intro h
  have hslash := (String.append_eq_empty_iff.1 (String.append_eq_empty_iff.1 h).1).2
  exact absurd hslash (by decide)

theorem joinPath_ne_dot (hbase : base ≠ "") (hpath : isAbsolute path = false) :
    joinPath base path ≠ "." := by
  obtain ⟨front, hjoin, -⟩ := exists_joinPath_eq hbase hpath
  intro h
  have hslash : '/' ∈ (front ++ "/" ++ path).toList := by simp
  rw [← hjoin, h] at hslash
  exact absurd hslash (by decide)

variable {first : String} {more : List String}

theorem exists_split_eq_cons (path : String) :
    ∃ first more, Text.split '/' path = first :: more := by
  refine List.exists_cons_of_ne_nil fun h => Text.splitChars_ne_nil '/' path.toList ?_
  exact List.map_eq_nil_iff.1 h

/-- A path leads from the root if it has a slash and nothing before it. -/
theorem isAbsolute_iff_of_split (h : Text.split '/' path = first :: more) :
    isAbsolute path = true ↔ first = "" ∧ more ≠ [] := by
  have hslash : '/' ∉ first.toList := Text.not_mem_of_mem_split (h ▸ List.mem_cons_self)
  have hpath := Text.intercalate_split path
  rw [h] at hpath
  rw [isAbsolute, beq_iff_eq, ← hpath]
  by_cases hfirst : first = ""
  · subst hfirst
    cases more with
    | nil => simp
    | cons next more => simp [String.intercalate_cons_cons]
  · obtain ⟨c, cs, hcs⟩ := exists_toList_eq_cons hfirst
    have hc : c ≠ '/' := fun hc => hslash (hcs ▸ hc ▸ List.mem_cons_self)
    have hhead : ("/".intercalate (first :: more)).toList.head? = some c := by
      cases more with
      | nil => rw [String.intercalate_singleton, hcs]; rfl
      | cons next more =>
        rw [String.intercalate_cons_cons, String.toList_append, String.toList_append, hcs]
        rfl
    rw [hhead]
    simp [hfirst, hc]

theorem first_ne_empty (h : Text.split '/' path = first :: more) (hne : path ≠ "")
    (hrelative : isAbsolute path = false) : first ≠ "" := by
  rintro rfl
  cases more with
  | nil =>
    have hpath := Text.intercalate_split path
    rw [h, String.intercalate_singleton] at hpath
    exact hne hpath.symm
  | cons next more =>
    rw [(isAbsolute_iff_of_split h).2 ⟨rfl, List.cons_ne_nil _ _⟩] at hrelative
    cases hrelative

theorem pathNames_ne_nil (hne : path ≠ "") (hrelative : isAbsolute path = false) :
    pathNames path ≠ [] := by
  obtain ⟨first, more, hsplit⟩ := exists_split_eq_cons path
  refine List.ne_nil_of_mem (a := first) (List.mem_filter.2 ⟨hsplit ▸ List.mem_cons_self, ?_⟩)
  simpa using first_ne_empty hsplit hne hrelative

/-- A path that does not end in a slash is walked by its names. -/
theorem steps_eq_pathNames (h : (Text.split '/' path).getLast? ≠ some "") :
    steps path = pathNames path := by
  have hlast : ((Text.split '/' path).getLast? = some "" &&
      !((Text.split '/' path).filter (· ≠ "")).isEmpty) = false := by
    rw [Bool.and_eq_false_iff]
    exact .inl (decide_eq_false h)
  unfold steps
  dsimp only
  rw [hlast]
  rfl

/-- A path with a name on it is walked by its names, with one step more if it ends in a slash. -/
theorem steps_eq (hnames : pathNames path ≠ []) :
    steps path =
      pathNames path ++ if (Text.split '/' path).getLast? = some "" then ["."] else [] := by
  have hsome : (pathNames path).isEmpty = false := by simp [hnames]
  unfold steps
  dsimp only
  rw [← pathNames, hsome, Bool.not_false, Bool.and_true]
  by_cases hlast : (Text.split '/' path).getLast? = some ""
  · rw [if_pos hlast, if_pos (decide_eq_true hlast)]
  · rw [if_neg hlast, if_neg (by simpa using hlast), List.append_nil]

theorem steps_eq_or (path : String) :
    steps path = pathNames path ∨ steps path = pathNames path ++ ["."] := by
  unfold steps
  dsimp only
  split
  · exact .inr rfl
  · exact .inl rfl

/-- A path that goes on with another is walked by the names before and the steps of the other. -/
theorem steps_append_slash (front : String) (hpath : pathNames path ≠ []) :
    steps (front ++ "/" ++ path) = pathNames front ++ steps path := by
  have hsplit : Text.split '/' (front ++ "/" ++ path) =
      Text.split '/' front ++ Text.split '/' path :=
    Text.split_append_append '/' front path
  obtain ⟨first, more, hmore⟩ := exists_split_eq_cons path
  have hlast : (Text.split '/' front ++ Text.split '/' path).getLast? =
      (Text.split '/' path).getLast? := by
    rw [hmore, List.getLast?_append, List.getLast?_cons, Option.some_or]
  have hlong : pathNames (front ++ "/" ++ path) = pathNames front ++ pathNames path :=
    pathNames_append_slash front path
  rw [steps_eq (hlong ▸ List.append_ne_nil_of_right_ne_nil _ hpath), steps_eq hpath, hlong,
    hsplit, hlast, List.append_assoc]

theorem steps_of_not_mem (hname : '/' ∉ name.toList) (hne : name ≠ "") : steps name = [name] := by
  rw [steps_eq_pathNames, pathNames_of_not_mem hname]
  · simp [hne]
  · rw [Text.split_of_not_mem hname]
    exact fun h => hne (Option.some.inj h)

/-- A path that is continued by another is walked by its names and the steps of the other. -/
theorem steps_joinPath (hbase : base ≠ "") (hne : path ≠ "") (hpath : isAbsolute path = false) :
    steps (joinPath base path) = pathNames base ++ steps path := by
  obtain ⟨front, hjoin, hfront⟩ := exists_joinPath_eq hbase hpath
  rw [hjoin, steps_append_slash front (pathNames_ne_nil hne hpath), hfront]

/-! ## Following steps -/

namespace Tree

variable {t t' : Tree} {place parent d : Location} {rest todo : List String} {followLast : Bool}
  {budget : Nat}

theorem descend_dot (t : Tree) (followLast : Bool) (place : Location) (rest : List String) :
    t.descend followLast place ("." :: rest) = t.descend followLast place rest := by
  rw [descend, if_pos rfl]

/-- Steps lead from a place to another: there is no link to be followed on the way, or the first
one is followed and its steps and the rest lead on. -/
inductive Leads (t : Tree) (followLast : Bool) :
    (budget : Nat) → Location → List String → Location → Prop where
  | arrived {budget : Nat} {place d : Location} {todo : List String}
      (h : t.descend followLast place todo = .arrived d) :
      Leads t followLast budget place todo d
  | link {budget : Nat} {place parent d : Location} {todo rest : List String} {target : String}
      (h : t.descend followLast place todo = .link parent target rest)
      (hrest : Leads t followLast budget (if isAbsolute target then [] else parent)
        (steps target ++ rest) d) :
      Leads t followLast (budget + 1) place todo d

theorem follow_eq_ok_iff :
    t.follow followLast budget place todo = .ok d ↔ t.Leads followLast budget place todo d := by
  constructor
  · intro h
    induction budget generalizing place todo with
    | zero =>
      unfold follow at h
      cases hdescend : t.descend followLast place todo with
      | arrived d' =>
        rw [hdescend] at h
        cases h
        exact .arrived hdescend
      | link parent target rest =>
        rw [hdescend] at h
        cases h
      | failed error =>
        rw [hdescend] at h
        cases h
    | succ budget ih =>
      unfold follow at h
      cases hdescend : t.descend followLast place todo with
      | arrived d' =>
        rw [hdescend] at h
        cases h
        exact .arrived hdescend
      | link parent target rest =>
        rw [hdescend] at h
        exact .link hdescend (ih h)
      | failed error =>
        rw [hdescend] at h
        cases h
  · intro h
    induction h with
    | arrived h =>
      unfold follow
      rw [h]
    | link h _ ih =>
      rw [follow, h]
      exact ih

theorem follow_dot : t.follow followLast budget place ("." :: rest) =
    t.follow followLast budget place rest := by
  unfold follow
  rw [descend_dot]

/-- A tree holds nothing but what another holds at the same place. -/
def Within (t' t : Tree) : Prop := ∀ l entry, t'.find? l = some entry → t.find? l = some entry

theorem within_refl (t : Tree) : t.Within t := fun _ _ h => h

theorem Within.trans {t'' : Tree} (h' : t''.Within t') (h : t'.Within t) : t''.Within t :=
  fun l entry hentry => h l entry (h' l entry hentry)

theorem within_remove (t : Tree) (l : Location) : (t.remove l).Within t := by
  intro place entry h
  cases place with
  | nil => exact h
  | cons name parent =>
    rw [find?_remove t l _ (List.cons_ne_nil _ _)] at h
    split at h
    · cases h
    · exact h

theorem Within.find?_eq_none {l : Location} (h : t'.Within t) (hl : t.find? l = none) :
    t'.find? l = none := by
  cases hfind : t'.find? l with
  | none => rfl
  | some entry =>
    rw [h l entry hfind] at hl
    cases hl

theorem find?_remove_of_suffix {l : Location} (hl : l ≠ []) (h : l <:+ place) :
    (t.remove l).find? place = none := by
  have hplace : place ≠ [] := by
    rintro rfl
    exact hl (List.suffix_nil.1 h)
  rw [find?_remove t l place hplace, if_pos (List.isSuffixOf_iff_suffix.2 h)]

theorem find?_remove_self {l : Location} (hl : l ≠ []) : (t.remove l).find? l = none :=
  find?_remove_of_suffix hl (List.suffix_refl l)

theorem find?_remove_of_not_suffix {l : Location} (h : ¬ l <:+ place) :
    (t.remove l).find? place = t.find? place := by
  cases place with
  | nil => rfl
  | cons name parent =>
    rw [find?_remove t l _ (List.cons_ne_nil _ _),
      if_neg fun hsuffix => h (List.isSuffixOf_iff_suffix.1 hsuffix)]

/-- What can be walked in the smaller tree is walked alike in the other. -/
theorem descend_of_within (hwithin : t'.Within t)
    (h : ∀ error, t'.descend followLast place todo ≠ .failed error) :
    t.descend followLast place todo = t'.descend followLast place todo := by
  induction todo generalizing place with
  | nil => rfl
  | cons step rest ih =>
    rw [descend] at h
    rw [descend, descend]
    split
    next hdot =>
      rw [if_pos hdot] at h
      exact ih h
    next hdot =>
      rw [if_neg hdot] at h
      split
      next hdots =>
        rw [if_pos hdots] at h
        exact ih h
      next hdots =>
        rw [if_neg hdots] at h
        cases hfind : t'.find? (step :: place) with
        | none =>
          rw [hfind] at h
          exact absurd rfl (h .notFound)
        | some entry =>
          rw [hfind] at h
          rw [hwithin _ _ hfind]
          cases entry with
          | directory => exact ih h
          | file bytes => rfl
          | link target => rfl

theorem follow_of_within (hwithin : t'.Within t)
    (h : t'.follow followLast budget place todo = .ok d) :
    t.follow followLast budget place todo = .ok d := by
  rw [follow_eq_ok_iff] at h ⊢
  induction h with
  | arrived h => exact .arrived ((descend_of_within hwithin (by simp [h])).trans h)
  | link h _ ih => exact .link ((descend_of_within hwithin (by simp [h])).trans h) ih

/-! ## The entries of a directory -/

theorem find?_of_mem {l : Location} {entry : Entry} (hl : l ≠ []) (h : (l, entry) ∈ t.entries) :
    t.find? l = some entry := by
  obtain ⟨name, parent, rfl⟩ := List.exists_cons_of_ne_nil hl
  obtain ⟨before, after, hentries⟩ := List.append_of_mem h
  refine List.lookup_eq_some_iff.2 ⟨before, after, hentries, fun x hx => ?_⟩
  have hunique := t.unique
  rw [hentries, List.map_append, List.map_cons, List.nodup_append] at hunique
  have hne := hunique.2.2 x.1 (List.mem_map_of_mem hx) _ List.mem_cons_self
  exact bne_iff_ne.2 (Ne.symm hne)

theorem mem_of_find? {l : Location} {entry : Entry} (hl : l ≠ []) (h : t.find? l = some entry) :
    (l, entry) ∈ t.entries := by
  obtain ⟨name, parent, rfl⟩ := List.exists_cons_of_ne_nil hl
  obtain ⟨before, after, hentries, -⟩ := List.lookup_eq_some_iff.1 h
  rw [hentries]
  exact List.mem_append_right before List.mem_cons_self

/-- An entry has a name and stands in a directory. -/
theorem placed_of_find? {name : String} {entry : Entry} (h : t.find? (name :: place) = some entry) :
    isName name = true ∧ t.find? place = some .directory := by
  obtain ⟨_, _, hplace, hname, hparent⟩ := t.placed _ (mem_of_find? (List.cons_ne_nil _ _) h)
  cases hplace
  refine ⟨hname, ?_⟩
  rcases hparent with rfl | hparent
  · rfl
  · cases place with
    | nil => rfl
    | cons => exact find?_of_mem (List.cons_ne_nil _ _) hparent

theorem find?_tail (h : t.find? place = some .directory) :
    t.find? place.tail = some .directory := by
  cases place with
  | nil => rfl
  | cons name parent => exact (placed_of_find? h).2

theorem mem_children_iff {name : String} :
    name ∈ t.children place ↔ (t.find? (name :: place)).isSome := by
  rw [children, List.mem_filterMap]
  constructor
  · rintro ⟨⟨l, entry⟩, hmem, hname⟩
    cases l with
    | nil => cases hname
    | cons name' parent =>
      dsimp only at hname
      split at hname
      next hparent =>
        cases hname
        subst hparent
        rw [find?_of_mem (List.cons_ne_nil _ _) hmem]
        rfl
      next => cases hname
  · intro h
    obtain ⟨entry, hentry⟩ := Option.isSome_iff_exists.1 h
    exact ⟨(name :: place, entry), mem_of_find? (List.cons_ne_nil _ _) hentry, if_pos rfl⟩

/-! ## A part of the way -/

/-- A link on the way stands in a directory. -/
theorem find?_of_descend_link {target : String} (hplace : t.find? place = some .directory)
    (h : t.descend followLast place todo = .link parent target rest) :
    t.find? parent = some .directory := by
  induction todo generalizing place with
  | nil => cases h
  | cons step more ih =>
    rw [descend] at h
    split at h
    · exact ih hplace h
    split at h
    · exact ih (find?_tail hplace) h
    cases hfind : t.find? (step :: place) with
    | none =>
      rw [hfind] at h
      cases h
    | some entry =>
      rw [hfind] at h
      cases entry with
      | directory => exact ih hfind h
      | file bytes =>
        dsimp only at h
        split at h <;> cases h
      | link text =>
        dsimp only at h
        split at h
        · cases h
        · cases h
          exact hplace

/-- A walk with more steps after it. -/
theorem descend_append_cons (hplace : t.find? place = some .directory) (step : String) :
    t.descend followLast place (todo ++ step :: rest) =
      match t.descend true place todo with
      | .arrived d =>
        if t.find? d = some .directory then t.descend followLast d (step :: rest)
        else .failed .notADirectory
      | .link parent target more => .link parent target (more ++ step :: rest)
      | .failed error => .failed error := by
  induction todo generalizing place with
  | nil =>
    show _ = if t.find? place = some .directory then _ else _
    rw [if_pos hplace, List.nil_append]
  | cons first todo ih =>
    rw [List.cons_append, descend, descend]
    split
    · exact ih hplace
    split
    · exact ih (find?_tail hplace)
    cases hfind : t.find? (first :: place) with
    | none => rfl
    | some entry =>
      cases entry with
      | directory => exact ih hfind
      | file bytes =>
        cases todo with
        | nil =>
          dsimp only [List.nil_append, List.isEmpty]
          rw [if_pos rfl, if_neg Bool.false_ne_true]
          dsimp only
          rw [hfind, if_neg (by exact nofun)]
        | cons => rfl
      | link target =>
        cases todo with
        | nil => rfl
        | cons => rfl

/-- A way that can be walked to its end leads to a directory at every step before. -/
theorem follow_of_append_cons (hplace : t.find? place = some .directory) {step : String}
    (h : t.follow true budget place (todo ++ step :: rest) = .ok d) :
    ∃ e, t.follow true budget place todo = .ok e ∧ t.find? e = some .directory ∧
      t.follow true budget place (todo ++ ["."]) = .ok e := by
  simp only [follow_eq_ok_iff] at h ⊢
  generalize hlong : todo ++ step :: rest = long at h
  generalize hlast : true = last at h
  have here {place e : Location} {todo : List String} {budget : Nat}
      (hplace : t.find? place = some .directory) (hdirectory : t.find? e = some .directory)
      (hdescend : t.descend true place todo = .arrived e) :
      ∃ e, t.Leads true budget place todo e ∧ t.find? e = some .directory ∧
        t.Leads true budget place (todo ++ ["."]) e := by
    refine ⟨e, .arrived hdescend, hdirectory, .arrived ?_⟩
    rw [descend_append_cons hplace, hdescend]
    dsimp only
    rw [if_pos hdirectory, descend_dot, descend]
  induction h generalizing todo with
  | @arrived _ place d _ h =>
    subst hlong hlast
    rw [descend_append_cons hplace] at h
    cases hdescend : t.descend true place todo with
    | arrived e =>
      rw [hdescend] at h
      dsimp only at h
      split at h
      next hdirectory => exact here hplace hdirectory hdescend
      next => cases h
    | link =>
      rw [hdescend] at h
      cases h
    | failed =>
      rw [hdescend] at h
      cases h
  | @link _ place parent _ _ _ target h _ ih =>
    subst hlong hlast
    rw [descend_append_cons hplace] at h
    cases hdescend : t.descend true place todo with
    | arrived e =>
      rw [hdescend] at h
      dsimp only at h
      split at h
      next hdirectory => exact here hplace hdirectory hdescend
      next => cases h
    | link parent' target' more =>
      rw [hdescend] at h
      cases h
      have hparent : t.find? (if isAbsolute target then [] else parent) = some .directory := by
        split
        · rfl
        · exact find?_of_descend_link hplace hdescend
      obtain ⟨e, he, hdirectory, hdot⟩ := ih hparent (List.append_assoc _ _ _)
      rw [List.append_assoc] at hdot
      have hlink : t.descend true place (todo ++ ["."]) =
          .link parent target (more ++ ["."]) := by
        rw [descend_append_cons hplace, hdescend]
      exact ⟨e, .link hdescend he, hdirectory, .link hlink hdot⟩
    | failed =>
      rw [hdescend] at h
      cases h

/-- Where a path leads its names lead. -/
theorem follow_pathNames (hplace : t.find? place = some .directory) {path : String}
    (h : t.follow true budget place (steps path) = .ok d) :
    t.follow true budget place (pathNames path) = .ok d := by
  rcases steps_eq_or path with hsteps | hsteps
  · rw [hsteps] at h
    exact h
  · rw [hsteps] at h
    obtain ⟨e, he, -, hdot⟩ := follow_of_append_cons hplace h
    rw [he, ← hdot, h]

/-- What comes after a way to a directory is walked from there, with the links that are left. -/
theorem exists_follow_append (hplace : t.find? place = some .directory)
    (h : t.follow true budget place todo = .ok d) (hd : t.find? d = some .directory) :
    ∃ fewer ≤ budget, ∀ followLast step rest,
      t.follow followLast budget place (todo ++ step :: rest) =
        t.follow followLast fewer d (step :: rest) := by
  rw [follow_eq_ok_iff] at h
  generalize hlast : true = last at h
  induction h with
  | @arrived budget place d todo h =>
    subst hlast
    refine ⟨budget, Nat.le_refl _, fun followLast step rest => ?_⟩
    unfold follow
    rw [descend_append_cons hplace, h]
    dsimp only
    rw [if_pos hd]
  | @link budget place parent d todo rest target h _ ih =>
    subst hlast
    have hparent : t.find? (if isAbsolute target then [] else parent) = some .directory := by
      split
      · rfl
      · exact find?_of_descend_link hplace h
    obtain ⟨fewer, hfewer, hway⟩ := ih hparent hd
    refine ⟨fewer, Nat.le_succ_of_le hfewer, fun followLast step more => ?_⟩
    rw [← hway, List.append_assoc, follow, descend_append_cons hplace, h]

theorem follow_append_dot (hplace : t.find? place = some .directory)
    (h : t.follow true budget place todo = .ok d) (hd : t.find? d = some .directory) :
    t.follow true budget place (todo ++ ["."]) = .ok d := by
  obtain ⟨fewer, -, hrest⟩ := exists_follow_append hplace h hd
  rw [hrest, follow_dot]
  cases fewer <;> rfl

variable {here : Location} {path : String}

/-- A path leads to a directory if its names do. -/
theorem locate_of_follow (hne : path ≠ "")
    (hstart : t.find? (if isAbsolute path then [] else here) = some .directory)
    (h : t.follow true linkLimit (if isAbsolute path then [] else here) (pathNames path) = .ok d)
    (hd : t.find? d = some .directory) : t.locate here true path = .ok d := by
  rw [locate, if_neg hne]
  rcases steps_eq_or path with hsteps | hsteps
  · rw [hsteps, h]
  · rw [hsteps, follow_append_dot hstart h hd]

theorem follow_of_locate (hstart : t.find? (if isAbsolute path then [] else here) = some .directory)
    (h : t.locate here true path = .ok d) :
    t.follow true linkLimit (if isAbsolute path then [] else here) (pathNames path) = .ok d := by
  rw [locate] at h
  split at h
  · cases h
  · exact follow_pathNames hstart h

theorem isDirectory_iff_of_locate (h : t.locate here true path = .ok d) :
    t.isDirectory here path = true ↔ t.find? d = some .directory := by
  rw [isDirectory, lookup, h]
  simp only [bind, Except.bind]
  cases t.find? d with
  | none => simp
  | some entry => cases entry <;> simp

theorem exists_locate_of_lookup {entry : Entry} (h : t.lookup here path = .ok entry) :
    ∃ d, t.locate here true path = .ok d ∧ t.find? d = some entry := by
  cases hlocate : t.locate here true path with
  | error error =>
    rw [lookup, hlocate] at h
    cases h
  | ok d =>
    refine ⟨d, rfl, ?_⟩
    rw [lookup, hlocate] at h
    simp only [bind, Except.bind] at h
    split at h
    next hfind =>
      cases h
      exact hfind
    next => cases h

theorem exists_locate_of_isDirectory (h : t.isDirectory here path = true) :
    ∃ d, t.locate here true path = .ok d ∧ t.find? d = some .directory := by
  rw [isDirectory] at h
  split at h
  next hlookup => exact exists_locate_of_lookup hlookup
  next => cases h

theorem follow_of_le {fewer : Nat} (hfewer : fewer ≤ budget)
    (h : t.follow followLast fewer place todo = .ok d) :
    t.follow followLast budget place todo = .ok d := by
  rw [follow_eq_ok_iff] at h ⊢
  induction h generalizing budget with
  | arrived h => exact .arrived h
  | link h _ ih =>
    obtain ⟨budget, rfl⟩ := Nat.exists_eq_add_of_le' (Nat.le_trans (Nat.succ_pos _) hfewer)
    exact .link h (ih (Nat.le_of_succ_le_succ hfewer))

/-- The step that a name on the way is. -/
theorem follow_name {step : String} (hdot : step ≠ ".") (hdots : step ≠ "..") :
    t.follow true budget place (step :: rest) =
      match t.find? (step :: place) with
      | none => .error .notFound
      | some .directory => t.follow true budget (step :: place) rest
      | some (.file _) => if rest.isEmpty then .ok (step :: place) else .error .notADirectory
      | some (.link target) =>
        match budget with
        | 0 => .error .tooManyLinks
        | budget + 1 =>
          t.follow true budget (if isAbsolute target then [] else place)
            (steps target ++ rest) := by
  conv => lhs; rw [follow, descend, if_neg hdot, if_neg hdots]
  cases t.find? (step :: place) with
  | none => rfl
  | some entry =>
    cases entry with
    | directory => rw [follow]
    | file bytes => cases rest <;> rfl
    | link target => cases rest <;> rfl

theorem follow_up : t.follow followLast budget place (".." :: rest) =
    t.follow followLast budget place.tail rest := by
  unfold follow
  rw [descend, if_neg (by decide), if_pos rfl]

/-! ## The last name of a path -/

variable {name : String}

/-- A name that is the last on a path, a link there not followed, is that of an entry. -/
theorem descend_singleton (hname : isName name = true) :
    t.descend false place [name] =
      if (t.find? (name :: place)).isSome then .arrived (name :: place) else .failed .notFound := by
  obtain ⟨-, hdot, hdots, -⟩ := isName_iff.1 hname
  rw [descend, if_neg hdot, if_neg hdots]
  cases t.find? (name :: place) with
  | none => rfl
  | some entry => cases entry <;> rfl

/-- What a walk comes to if its steps are followed by one more name, by what it came to without:
the name is looked up in the directory where the steps end, and a file there has none. -/
inductive Extended (t : Tree) (name : String) : Descent → Descent → Prop where
  | arrived (d : Location) : Extended t name (.arrived d) (t.descend false d [name])
  | atFile (d : Location) : Extended t name (.arrived d) (.failed .notADirectory)
  | link (parent : Location) (target : String) (rest : List String) :
    Extended t name (.link parent target rest) (.link parent target (rest ++ [name]))
  | failed (error : FileError) : Extended t name (.failed error) (.failed error)

theorem extended_descend (t : Tree) (name : String) (place : Location) (todo : List String) :
    Extended t name (t.descend true place todo) (t.descend false place (todo ++ [name])) := by
  induction todo generalizing place with
  | nil => exact .arrived place
  | cons step rest ih =>
    rw [List.cons_append, descend, descend]
    split
    · exact ih place
    · split
      · exact ih place.tail
      · cases t.find? (step :: place) with
        | none => exact .failed _
        | some entry =>
          cases entry with
          | directory => exact ih (step :: place)
          | file bytes =>
            cases rest with
            | nil => exact .atFile _
            | cons next rest => exact .failed _
          | link target =>
            cases rest with
            | nil => exact .link place target []
            | cons next rest => exact .link place target (next :: rest)

/-- A path that ends in a name leads to the entry of that name where the rest of it leads. -/
theorem follow_append_singleton (hname : isName name = true)
    (h : t.follow false budget place (todo ++ [name]) = .ok d) :
    ∃ parent, t.follow true budget place todo = .ok parent ∧ d = name :: parent := by
  simp only [follow_eq_ok_iff] at h ⊢
  generalize hlong : todo ++ [name] = long at h
  induction h generalizing todo with
  | @arrived _ place d _ h =>
    subst hlong
    have hextended := extended_descend t name place todo
    rw [h] at hextended
    generalize hshort : t.descend true place todo = short at hextended
    generalize hend : Descent.arrived d = ending at hextended
    cases hextended with
    | arrived parent =>
      rw [descend_singleton hname] at hend
      split at hend
      · cases hend
        exact ⟨parent, .arrived hshort, rfl⟩
      · cases hend
    | atFile => cases hend
    | link => cases hend
    | failed => cases hend
  | @link _ place _ _ _ _ _ h _ ih =>
    subst hlong
    have hextended := extended_descend t name place todo
    rw [h] at hextended
    generalize hshort : t.descend true place todo = short at hextended
    generalize hend : Descent.link _ _ _ = ending at hextended
    cases hextended with
    | arrived parent =>
      rw [descend_singleton hname] at hend
      split at hend <;> cases hend
    | atFile => cases hend
    | link parent target rest =>
      cases hend
      obtain ⟨dir, hdir, rfl⟩ := ih (List.append_assoc _ _ _)
      exact ⟨dir, .link hshort hdir, rfl⟩
    | failed => cases hend

variable {base : String}

theorem locate_joinPath (hbase : base ≠ "") (hname : isName name = true) :
    t.locate here followLast (joinPath base name) =
      t.follow followLast linkLimit (if isAbsolute base then [] else here)
        (pathNames base ++ [name]) := by
  obtain ⟨hne, -, -, hslash⟩ := isName_iff.1 hname
  have hrelative := isAbsolute_of_not_mem hslash
  rw [locate, if_neg (joinPath_ne_empty hbase hrelative), isAbsolute_joinPath hbase hrelative,
    steps_joinPath hbase hne hrelative, steps_of_not_mem hslash hne]

/-- Removing a path that ends in a name removes the entry that it leads to. -/
theorem removePath_joinPath (hbase : base ≠ "") (hname : isName name = true) :
    t.removePath here (joinPath base name) =
      match t.locate here false (joinPath base name) with
      | .error error => (t, .error error)
      | .ok place => (t.remove place, .ok ()) := by
  obtain ⟨hne, hdot, hdots, hslash⟩ := isName_iff.1 hname
  obtain ⟨front, hjoin, -⟩ := exists_joinPath_eq hbase (isAbsolute_of_not_mem hslash)
  have hstrip : Text.stripEnd '/' (joinPath base name) = joinPath base name := by
    rw [hjoin, Text.stripEnd_append_of_not_mem hne hslash]
  have hlast : ((Text.split '/' (joinPath base name)).filter (· ≠ "")).getLast? = some name := by
    have hnames := pathNames_joinPath hbase hslash
    rw [pathNames] at hnames
    rw [hnames, List.filter_cons_of_pos (by simpa using hne), List.filter_nil,
      List.getLast?_concat]
  unfold removePath
  rw [hstrip, hlast]
  cases t.locate here false (joinPath base name) with
  | error error => rfl
  | ok place =>
    dsimp only
    split
    next h => cases h
    next h => exact absurd (Option.some.inj h) hdot
    next h => exact absurd (Option.some.inj h) hdots
    next => exact if_pos rfl

/-- Such a removal takes the entry of that name out of the directory that the rest of the path
leads to, if it does anything. -/
theorem removePath_joinPath_eq (hbase : base ≠ "") (hname : isName name = true) :
    (∃ error, t.removePath here (joinPath base name) = (t, .error error)) ∨
      ∃ parent, t.follow true linkLimit (if isAbsolute base then [] else here)
          (pathNames base) = .ok parent ∧
        t.removePath here (joinPath base name) = (t.remove (name :: parent), .ok ()) := by
  rw [removePath_joinPath hbase hname]
  cases hlocate : t.locate here false (joinPath base name) with
  | error error => exact .inl ⟨error, rfl⟩
  | ok place =>
    rw [locate_joinPath hbase hname] at hlocate
    obtain ⟨parent, hparent, rfl⟩ := follow_append_singleton hname hlocate
    exact .inr ⟨parent, hparent, rfl⟩

end Tree

end ImagePipeline.Files
