import ImagePipeline.Proofs.GrownTree
import ImagePipeline.Proofs.LinkTarget
import Mathlib.Data.List.Forall2

/-!
# The archive of a source tree

The context of a build is the source tree: its archive has one entry for each path below the root,
and one for the root itself.  Links are put in as links, so nothing behind a link is added.

* `Archive.entriesAt`: what an archive holds under a path.  `entriesAt_ofTree`: for each path, what
  the tree holds there.
* `Archive.find?_unpack`: an archive that holds one entry for each path of a tree gives the tree
  back when it is unpacked, whatever the order of its entries.
* `buildContext_archive`: when there is a context, and what it is.  The target of a link may lose
  steps that lead nowhere: `buildContext_not_verbatim`.
-/

namespace ImagePipeline.Build

open Files (Tree Location Entry isName isName_iff joinPath)

/-! ## Paths in an archive -/

/-- What an entry of an archive becomes in a tree. -/
def ArchiveContent.entry : ArchiveContent → Entry
  | directory => .directory
  | file bytes => .file bytes
  | link target => .link target

/-- The names on the way to an entry; a dot in its name leads nowhere. -/
def ArchiveEntry.path (e : ArchiveEntry) : List String := Archive.properNames e.name

namespace Archive

variable {a : Archive} {t : Tree} {root l : Location} {path names : List String} {entry : Entry}

/-- What an archive holds under a path. -/
def entriesAt (a : Archive) (path : List String) : List Entry :=
  (a.filter fun e => e.path = path).map fun e => e.content.entry

/-- The tree that an archive is unpacked to: its entries in turn, each with the directories on the
way to it. -/
def unpack (a : Archive) : Tree :=
  a.foldl (fun t e => t.place e.path.reverse e.content.entry) .empty

/-- An entry as the archive gives it back. -/
inductive Reproduces : Entry → Entry → Prop where
  | directory : Reproduces .directory .directory
  | file (bytes : List UInt8) : Reproduces (.file bytes) (.file bytes)
  | link {target short : String} (h : Abbreviates short target) :
    Reproduces (.link target) (.link short)

theorem reproduces_content (entry : Entry) : Reproduces entry (content entry).entry := by
  cases entry with
  | directory => exact .directory
  | file bytes => exact .file bytes
  | link target => exact .link (abbreviates_linkTarget target)

/-! ## Names of entries -/

theorem leadsOn_of_isName {name : String} (h : isName name = true) : leadsOn name = true := by
  obtain ⟨hne, hdot, -, -⟩ := isName_iff.1 h
  exact leadsOn_iff.2 ⟨hne, hdot⟩

/-- An entry is found under the names that its name is made of. -/
theorem properNames_entryName (h : ∀ name ∈ names, isName name = true) (hne : names ≠ []) :
    properNames (entryName names) = names := by
  have hslash : ∀ name ∈ names, '/' ∉ name.toList := fun name hname =>
    (isName_iff.1 (h name hname)).2.2.2
  have hnames : names.filter leadsOn = names :=
    List.filter_eq_self.2 fun name hname => leadsOn_of_isName (h name hname)
  have hsplit := Text.split_intercalate hslash hne
  rw [entryName]
  split
  · rw [properNames, hsplit, hnames]
  · have hroot : rootName ++ "/".intercalate names =
        "." ++ String.singleton '/' ++ "/".intercalate names := rfl
    have hdot : (Text.split '/' ".").filter leadsOn = [] := by decide
    rw [properNames, hroot, Text.split_append_append, hsplit, List.filter_append, hnames, hdot,
      List.nil_append]

theorem namesBelow_append (names : List String) (root : Location) :
    namesBelow root (names.reverse ++ root) = names := by
  rw [namesBelow, List.length_append, Nat.add_sub_cancel, List.take_left, List.reverse_reverse]

theorem isName_of_find? (h : t.find? l = some entry) : ∀ name ∈ l, isName name = true := by
  induction l generalizing entry with
  | nil => exact nofun
  | cons name parent ih =>
    obtain ⟨hname, hparent⟩ := Tree.placed_of_find? h
    intro name' hname'
    rcases List.mem_cons.1 hname' with rfl | hname'
    · exact hname
    · exact ih hparent name' hname'

/-! ## The archive of a tree -/

theorem map_filter_key {α β : Type} [BEq α] [LawfulBEq α] [DecidableEq α] {ps : List (α × β)}
    (h : (ps.map (·.1)).Nodup) (k : α) :
    (ps.filter fun p => p.1 = k).map (·.2) = (ps.lookup k).toList := by
  induction ps with
  | nil => rfl
  | cons p ps ih =>
    rw [List.map_cons, List.nodup_cons] at h
    rw [List.lookup_cons]
    by_cases hk : p.1 = k
    · have hrest : ps.filter (fun p => p.1 = k) = [] := by
        refine List.filter_eq_nil_iff.2 fun q hq hqk => h.1 ?_
        rw [hk, ← of_decide_eq_true hqk]
        exact List.mem_map_of_mem hq
      rw [List.filter_cons_of_pos (by simpa using hk), hrest, beq_iff_eq.2 hk.symm]
      rfl
    · rw [List.filter_cons_of_neg (by simpa using hk), ih h.2, beq_eq_false_iff_ne.2 (Ne.symm hk)]

/-- An entry below the root is found under its own path and no other. -/
theorem path_eq_iff {place : Location} (h : (place, entry) ∈ t.below root) :
    properNames (entryName (namesBelow root place)) = path ↔ place = path.reverse ++ root := by
  obtain ⟨hmem, hbelow⟩ := List.mem_filter.1 h
  rw [Bool.and_eq_true, List.isSuffixOf_iff_suffix, decide_eq_true_iff] at hbelow
  obtain ⟨⟨front, rfl⟩, hne⟩ := hbelow
  have hfront : front ≠ [] := fun hnil => hne (by rw [hnil]; rfl)
  have hnames :=
    isName_of_find? (Tree.find?_of_mem (List.append_ne_nil_of_left_ne_nil hfront _) hmem)
  have hreverse := namesBelow_append front.reverse root
  rw [List.reverse_reverse] at hreverse
  rw [hreverse, properNames_entryName (fun name hname => hnames name
      (List.mem_append_left _ (List.mem_reverse.1 hname))) (by simpa using hfront),
    List.append_cancel_right_eq, List.reverse_eq_iff]

theorem entriesAt_map (es : List (Location × Entry)) (root : Location) (path : List String) :
    entriesAt (es.map fun (place, entry) =>
        ⟨entryName (namesBelow root place), content entry⟩) path =
      (es.filter fun p => properNames (entryName (namesBelow root p.1)) = path).map
        fun p => (content p.2).entry := by
  induction es with
  | nil => rfl
  | cons p es ih =>
    obtain ⟨place, entry⟩ := p
    have hpath (content : ArchiveContent) :
        ArchiveEntry.path ⟨entryName (namesBelow root place), content⟩ =
          properNames (entryName (namesBelow root place)) := rfl
    rw [entriesAt] at ih ⊢
    rw [List.map_cons, List.filter_cons, List.filter_cons]
    simp only [hpath]
    split
    · rw [List.map_cons, List.map_cons, ih]
    · exact ih

/-- Below the root, under each path the archive holds what the tree has there, once. -/
theorem entriesAt_below (t : Tree) (root : Location) (hpath : path ≠ []) :
    entriesAt ((t.below root).map fun (place, entry) =>
        ⟨entryName (namesBelow root place), content entry⟩) path =
      ((t.find? (path.reverse ++ root)).map fun entry => (content entry).entry).toList := by
  have hreverse : path.reverse ++ root ≠ [] := List.append_ne_nil_of_left_ne_nil (by simpa) _
  have hentries : (t.below root).filter (fun p =>
        properNames (entryName (namesBelow root p.1)) = path) =
      t.entries.filter fun p => p.1 = path.reverse ++ root := by
    have hbelow : (t.below root).filter (fun p =>
          properNames (entryName (namesBelow root p.1)) = path) =
        (t.below root).filter fun p => p.1 = path.reverse ++ root :=
      List.filter_congr fun p hp => decide_eq_decide.2 (path_eq_iff hp)
    rw [hbelow, Tree.below, List.filter_filter]
    refine List.filter_congr fun p _ => ?_
    by_cases hp : p.1 = path.reverse ++ root
    · simp [hp, hpath, List.isSuffixOf_iff_suffix]
    · simp [hp]
  have hfind : t.find? (path.reverse ++ root) = t.entries.lookup (path.reverse ++ root) := by
    obtain ⟨name, parent, hcons⟩ := List.exists_cons_of_ne_nil hreverse
    rw [hcons]
    rfl
  rw [entriesAt_map, hentries, Option.toList_map, hfind, ← map_filter_key t.unique, List.map_map]
  rfl

/-- Under each path the archive of a directory holds what the tree has there, once. -/
theorem entriesAt_ofTree (hroot : t.find? root = some .directory) (path : List String) :
    entriesAt (ofTree t root) path =
      ((t.find? (path.reverse ++ root)).map fun entry => (content entry).entry).toList := by
  have hpath : ArchiveEntry.path ⟨rootName, .directory⟩ = [] := by decide
  by_cases hnil : path = []
  · have hbelow : (t.below root).filter (fun p =>
        properNames (entryName (namesBelow root p.1)) = path) = [] := by
      refine List.filter_eq_nil_iff.2 fun p hp h => ?_
      have hplace := (path_eq_iff hp).1 (of_decide_eq_true h)
      rw [hnil, List.reverse_nil, List.nil_append] at hplace
      have hne := (List.mem_filter.1 hp).2
      simp [hplace] at hne
    have hrest := entriesAt_map (t.below root) root path
    rw [hbelow, entriesAt] at hrest
    rw [ofTree, entriesAt, List.filter_cons_of_pos (by simp [hpath, hnil]), List.map_cons, hrest,
      hnil, List.reverse_nil, List.nil_append, hroot]
    rfl
  · rw [ofTree, entriesAt, List.filter_cons_of_neg (by simpa [hpath] using Ne.symm hnil)]
    exact entriesAt_below t root hnil

/-! ## Unpacking -/

/-- The entries of a tree below a location, as an archive gives them back. -/
theorem isView_archived (hroot : t.find? root = some .directory) :
    Tree.IsView fun l => (t.find? (l ++ root)).map fun entry => (content entry).entry where
  root := by
    rw [List.nil_append, hroot]
    rfl
  placed := by
    intro name parent entry h
    obtain ⟨original, horiginal, -⟩ := Option.map_eq_some_iff.1 h
    obtain ⟨hname, hparent⟩ := Tree.placed_of_find? horiginal
    have hparent : t.find? (parent ++ root) = some .directory := hparent
    exact ⟨hname, by rw [hparent]; rfl⟩

/-- An archive that holds under each path what a view has there is unpacked to the view. -/
theorem find?_unpack {v : Location → Option Entry} (hv : Tree.IsView v)
    (ha : ∀ path, entriesAt a path = (v path.reverse).toList) (l : Location) :
    (unpack a).find? l = v l := by
  have hunpack : unpack a = (a.map fun e => (e.path.reverse, e.content.entry)).foldl
      (fun t p => t.place p.1 p.2) .empty := by
    rw [unpack, List.foldl_map]
  rw [hunpack]
  refine Tree.find?_foldl_place hv (fun p hp => ?_) (fun l entry hl _ => ?_) l
  · obtain ⟨e, he, rfl⟩ := List.mem_map.1 hp
    have hmem : e.content.entry ∈ entriesAt a e.path :=
      List.mem_map_of_mem (List.mem_filter.2 ⟨he, decide_eq_true rfl⟩)
    rw [ha, Option.mem_toList] at hmem
    exact hmem
  · have hmem : entry ∈ entriesAt a l.reverse := by
      rw [ha, List.reverse_reverse, hl]
      exact List.mem_singleton_self _
    obtain ⟨e, he, rfl⟩ := List.mem_map.1 hmem
    obtain ⟨he, hpath⟩ := List.mem_filter.1 he
    refine List.mem_map.2 ⟨e, he, ?_⟩
    rw [of_decide_eq_true hpath, List.reverse_reverse]

/-- The archive of a directory gives it back. -/
theorem find?_unpack_ofTree (hroot : t.find? root = some .directory) (l : Location) :
    (unpack (ofTree t root)).find? l =
      (t.find? (l ++ root)).map fun entry => (content entry).entry :=
  find?_unpack (isView_archived hroot) (entriesAt_ofTree hroot) l

end Archive

/-! ## The context of a build -/

variable {t : Tree} {here : Location} {root dockerfile : String}

/-- Where a directory is found, and only there, the recipe decides whether there is a context. -/
theorem buildContext_of_locate {place : Location} (h : t.locate here true root = .ok place) :
    buildContext t here root dockerfile =
      if t.find? place = some .directory then
        if t.isFile here (joinPath root dockerfile) then .ok (Archive.ofTree t place)
        else .error (.dockerfileMissing (joinPath root dockerfile))
      else .error (.contextMissing root) := by
  rw [buildContext, Tree.lookup, h]
  simp only [bind, Except.bind]
  cases t.find? place with
  | none => rfl
  | some entry => cases entry <;> rfl

theorem buildContext_of_not_directory (h : t.isDirectory here root = false) :
    buildContext t here root dockerfile = .error (.contextMissing root) := by
  cases hlocate : t.locate here true root with
  | error error =>
    rw [buildContext, Tree.lookup, hlocate]
    rfl
  | ok place =>
    rw [buildContext_of_locate hlocate, if_neg]
    rw [← Tree.isDirectory_iff_of_locate hlocate, h]
    exact Bool.false_ne_true

/-- The context is the source tree.  Its archive has an entry for the root and for each path below
it, and for no other path; unpacked, it gives the tree back.  Of the target of a link the steps
that lead nowhere may be gone.  There is no context if the root is no directory or the recipe is no
file. -/
theorem buildContext_archive (t : Tree) (here : Location) (root dockerfile : String) :
    (t.isDirectory here root = false →
      buildContext t here root dockerfile = .error (.contextMissing root)) ∧
    (t.isDirectory here root = true → t.isFile here (joinPath root dockerfile) = false →
      buildContext t here root dockerfile =
        .error (.dockerfileMissing (joinPath root dockerfile))) ∧
    (t.isDirectory here root = true → t.isFile here (joinPath root dockerfile) = true →
      ∃ place archive, t.locate here true root = .ok place ∧
        buildContext t here root dockerfile = .ok archive ∧
        (∀ path, List.Forall₂ Archive.Reproduces (t.find? (path.reverse ++ place)).toList
          (Archive.entriesAt archive path)) ∧
        ∀ l, Option.Rel Archive.Reproduces (t.find? (l ++ place))
          ((Archive.unpack archive).find? l)) := by
  refine ⟨buildContext_of_not_directory, fun hroot hrecipe => ?_, fun hroot hrecipe => ?_⟩
  · obtain ⟨place, hlocate, hdirectory⟩ := Tree.exists_locate_of_isDirectory hroot
    rw [buildContext_of_locate hlocate, if_pos hdirectory, hrecipe, if_neg Bool.false_ne_true]
  · obtain ⟨place, hlocate, hdirectory⟩ := Tree.exists_locate_of_isDirectory hroot
    refine ⟨place, Archive.ofTree t place, hlocate, ?_, fun path => ?_, fun l => ?_⟩
    · rw [buildContext_of_locate hlocate, if_pos hdirectory, if_pos hrecipe]
    · rw [Archive.entriesAt_ofTree hdirectory]
      cases t.find? (path.reverse ++ place) with
      | none => exact .nil
      | some entry => exact .cons (Archive.reproduces_content entry) .nil
    · rw [Archive.find?_unpack_ofTree hdirectory]
      cases t.find? (l ++ place) with
      | none => exact .none
      | some entry => exact .some (Archive.reproduces_content entry)

/-! A source tree with a link whose target has two slashes in a row. -/

namespace SlashedLink

/-- The recipe and the link. -/
def tree : Tree :=
  ((Tree.empty.put [] "c" .directory).put ["c"] "Dockerfile" (.file [70])).put ["c"] "l"
    (.link "a//b")

/-- Its archive. -/
def archive : Archive :=
  [⟨"./", .directory⟩, ⟨"Dockerfile", .file [70]⟩, ⟨"l", .link "a/b"⟩]

theorem buildContext_eq : buildContext tree [] "/c" "Dockerfile" = .ok archive := by
  have hplace : tree.locate [] true "/c" = .ok ["c"] := rfl
  rw [buildContext_of_locate hplace]
  decide +kernel

end SlashedLink

/-- The recipe is in the archive, and there is none without the root or the recipe. -/
theorem buildContext_archive_slashed :
    buildContext SlashedLink.tree [] "/d" "Dockerfile" = .error (.contextMissing "/d") ∧
      buildContext SlashedLink.tree [] "/c" "Makefile" =
        .error (.dockerfileMissing "/c/Makefile") ∧
      (Archive.unpack SlashedLink.archive).find? ["Dockerfile"] = some (.file [70]) := by
  obtain ⟨hroot, -, -⟩ := buildContext_archive SlashedLink.tree [] "/d" "Dockerfile"
  obtain ⟨-, hrecipe, -⟩ := buildContext_archive SlashedLink.tree [] "/c" "Makefile"
  obtain ⟨-, -, harchive⟩ := buildContext_archive SlashedLink.tree [] "/c" "Dockerfile"
  obtain ⟨place, archive, hplace, hbuilt, -, hunpacked⟩ := harchive (by decide) (by decide)
  cases hbuilt.symm.trans SlashedLink.buildContext_eq
  cases (show Except.ok ["c"] = Except.ok place from hplace)
  refine ⟨hroot (by decide), hrecipe (by decide) (by decide), ?_⟩
  have hfile := hunpacked ["Dockerfile"]
  rw [show SlashedLink.tree.find? (["Dockerfile"] ++ ["c"]) = some (.file [70]) by decide] at hfile
  cases hfind : (Archive.unpack SlashedLink.archive).find? ["Dockerfile"] with
  | none => rw [hfind] at hfile; cases hfile
  | some entry =>
    rw [hfind] at hfile
    cases hfile with
    | some h => cases h; rfl

/-- The link is in the archive with one slash less. -/
theorem buildContext_not_verbatim :
    ¬ ∀ (t : Tree) (here place : Location) (root dockerfile target : String) (archive : Archive)
        (path : List String),
      t.locate here true root = .ok place → buildContext t here root dockerfile = .ok archive →
      t.find? (path.reverse ++ place) = some (.link target) →
      archive.entriesAt path = [.link target] := by
  intro hverbatim
  have hlink := hverbatim SlashedLink.tree [] ["c"] "/c" "Dockerfile" "a//b" SlashedLink.archive
    ["l"] rfl SlashedLink.buildContext_eq (by decide)
  rw [show SlashedLink.archive.entriesAt ["l"] = [.link "a/b"] by decide] at hlink
  exact absurd hlink (by decide)

end ImagePipeline.Build
