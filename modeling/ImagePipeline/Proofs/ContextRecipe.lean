import ImagePipeline.Proofs.ContextArchive

/-!
# The recipe in its context

A recipe is looked for by the path from the root of the context, links followed wherever they lead.
The archive holds the links and not what they lead to, so the recipe is in it if no link on the way
leads out of the context.

* `WalksWithin`: a way that stays below the root, by links that do not lead from the root of all.
* `follow_unpack`: step by step such a way is the same in the archive, whose links may have lost
  some dots.
* `buildContext_recipe`: so the archive has the recipe that was found.  `buildContext_not_contained`
  is a recipe that a link fetches from outside.
-/

namespace ImagePipeline.Build

open Files (Tree Location Entry isAbsolute joinPath steps pathNames linkLimit)
open Archive (Sheds)

variable {t : Tree} {here root place d e : Location} {rest todo short : List String}
  {budget : Nat}

/-! ## Ways below a root -/

/-- Steps lead from a place below a root to another and never above the root, all links followed;
no link leads from the root of the whole tree.  The places are given from the root on. -/
inductive WalksWithin (t : Tree) (root : Location) : Location → List String → Location → Prop where
  | arrived (place : Location) : WalksWithin t root place [] place
  | dot {place d : Location} {rest : List String} (h : WalksWithin t root place rest d) :
    WalksWithin t root place ("." :: rest) d
  | up {name : String} {place d : Location} {rest : List String}
      (h : WalksWithin t root place rest d) : WalksWithin t root (name :: place) (".." :: rest) d
  | enter {name : String} {place d : Location} {rest : List String}
      (hfind : t.find? (name :: place ++ root) = some .directory)
      (h : WalksWithin t root (name :: place) rest d) : WalksWithin t root place (name :: rest) d
  | file {name : String} {place : Location} {bytes : List UInt8}
      (hfind : t.find? (name :: place ++ root) = some (.file bytes)) :
      WalksWithin t root place [name] (name :: place)
  | link {name target : String} {place d : Location} {rest : List String}
      (hfind : t.find? (name :: place ++ root) = some (.link target)) (hne : target ≠ "")
      (hrelative : isAbsolute target = false)
      (h : WalksWithin t root place (steps target ++ rest) d) :
      WalksWithin t root place (name :: rest) d

/-- What is found under a name is not the directory itself or the one around it. -/
theorem ne_dots_of_find? {name : String} {entry : Entry}
    (h : t.find? (name :: place) = some entry) : name ≠ "." ∧ name ≠ ".." := by
  obtain ⟨-, hdot, hdots, -⟩ := Files.isName_iff.1 (Tree.placed_of_find? h).1
  exact ⟨hdot, hdots⟩

/-- A way below the root goes in the archive where it goes in the tree. -/
theorem follow_unpack (hroot : t.find? root = some .directory)
    (hwalk : WalksWithin t root place todo d) (hshed : Sheds todo short)
    (h : t.follow true budget (place ++ root) todo = .ok e) :
    e = d ++ root ∧
      (Archive.unpack (Archive.ofTree t root)).follow true budget place short = .ok d := by
  induction hwalk generalizing short budget with
  | arrived place =>
    cases hshed
    cases budget <;>
    · cases h
      exact ⟨rfl, rfl⟩
  | dot _ ih =>
    rw [Tree.follow_dot] at h
    cases hshed with
    | keep _ hshed =>
      rw [Tree.follow_dot]
      exact ih hshed h
    | drop hshed => exact ih hshed h
  | up _ ih =>
    rw [Tree.follow_up] at h
    obtain ⟨_, rfl, hrest⟩ := hshed.exists_eq_cons (by decide)
    rw [Tree.follow_up]
    exact ih hrest h
  | enter hfind _ ih =>
    obtain ⟨hdot, hdots⟩ := ne_dots_of_find? hfind
    obtain ⟨_, rfl, hrest⟩ := hshed.exists_eq_cons hdot
    rw [Tree.follow_name hdot hdots, ← List.cons_append, hfind] at h
    rw [Tree.follow_name hdot hdots, Archive.find?_unpack_ofTree hroot, hfind]
    exact ih hrest h
  | file hfind =>
    obtain ⟨hdot, hdots⟩ := ne_dots_of_find? hfind
    obtain ⟨_, rfl, hrest⟩ := hshed.exists_eq_cons hdot
    cases hrest
    rw [Tree.follow_name hdot hdots, ← List.cons_append, hfind] at h
    cases h
    rw [Tree.follow_name hdot hdots, Archive.find?_unpack_ofTree hroot, hfind]
    exact ⟨rfl, rfl⟩
  | @link _ target _ _ _ hfind hne hrelative _ ih =>
    obtain ⟨hdot, hdots⟩ := ne_dots_of_find? hfind
    obtain ⟨_, rfl, hrest⟩ := hshed.exists_eq_cons hdot
    have hshort := (Archive.abbreviates_linkTarget target).isAbsolute_eq hne
    rw [Tree.follow_name hdot hdots, ← List.cons_append, hfind] at h
    rw [Tree.follow_name hdot hdots, Archive.find?_unpack_ofTree hroot, hfind]
    cases budget with
    | zero => cases h
    | succ budget =>
      dsimp only at h
      rw [hrelative, if_neg Bool.false_ne_true] at h
      dsimp only [Option.map, Archive.content, ArchiveContent.entry]
      rw [hshort, hrelative, if_neg Bool.false_ne_true]
      exact ih ((Archive.sheds_steps_linkTarget hrelative hne).append hrest) h

/-! ## The recipe -/

variable {base dockerfile : String} {archive : Archive}

/-- There is a context only for a directory that leads to a file, and it is that of the
directory. -/
theorem of_buildContext_eq_ok (h : buildContext t here base dockerfile = .ok archive)
    (hplace : t.locate here true base = .ok place) :
    archive = Archive.ofTree t place ∧ t.find? place = some .directory ∧
      ∃ bytes, t.lookup here (joinPath base dockerfile) = .ok (.file bytes) := by
  rw [buildContext_of_locate hplace] at h
  split at h
  next hdirectory =>
    split at h
    next hfile =>
      cases h
      refine ⟨rfl, hdirectory, ?_⟩
      rw [Tree.isFile] at hfile
      split at hfile
      next bytes hlookup => exact ⟨bytes, hlookup⟩
      next => cases hfile
    next => cases h
  next => cases h

/-- A context holds its recipe, found there as it was found in the tree, if the way to it does not
leave the context. -/
theorem buildContext_recipe (hhere : t.find? here = some .directory)
    (hrelative : isAbsolute dockerfile = false)
    (hbuilt : buildContext t here base dockerfile = .ok archive)
    (hplace : t.locate here true base = .ok place)
    (hwalk : WalksWithin t place [] (steps dockerfile) d) :
    ∃ bytes, t.lookup here (joinPath base dockerfile) = .ok (.file bytes) ∧
      (Archive.unpack archive).lookup [] dockerfile = .ok (.file bytes) := by
  obtain ⟨rfl, hdirectory, bytes, hlookup⟩ := of_buildContext_eq_ok hbuilt hplace
  refine ⟨bytes, hlookup, ?_⟩
  obtain ⟨e, hlocate, hfile⟩ := Tree.exists_locate_of_lookup hlookup
  have hbase : base ≠ "" := by
    rintro rfl
    cases hplace
  have hstart : t.find? (if isAbsolute base then [] else here) = some .directory := by
    split
    · rfl
    · exact hhere
  have hbaseNames := Tree.follow_of_locate hstart hplace
  rw [Tree.locate, if_neg (Files.joinPath_ne_empty hbase hrelative),
    Files.isAbsolute_joinPath hbase hrelative] at hlocate
  -- a path that is continued by nothing leads to the directory and not to a file
  have hne : dockerfile ≠ "" := by
    rintro rfl
    have hway := Tree.follow_pathNames hstart hlocate
    rw [Files.pathNames_joinPath hbase List.not_mem_nil,
      List.filter_cons_of_neg (by decide), List.filter_nil, List.append_nil, hbaseNames] at hway
    cases hway
    rw [hdirectory] at hfile
    cases hfile
  obtain ⟨step, rest, hsteps⟩ : ∃ step rest, steps dockerfile = step :: rest := by
    refine List.exists_cons_of_ne_nil ?_
    rw [Files.steps_eq (Files.pathNames_ne_nil hne hrelative)]
    exact List.append_ne_nil_of_left_ne_nil (Files.pathNames_ne_nil hne hrelative) _
  obtain ⟨fewer, hfewer, hrest⟩ := Tree.exists_follow_append hstart hbaseNames hdirectory
  rw [Files.steps_joinPath hbase hne hrelative, hsteps, hrest, ← hsteps] at hlocate
  obtain ⟨rfl, hunpacked⟩ := follow_unpack hdirectory hwalk (.refl _) hlocate
  rw [Tree.lookup, Tree.locate, if_neg hne, hrelative, if_neg Bool.false_ne_true,
    Tree.follow_of_le hfewer hunpacked]
  simp only [bind, Except.bind]
  rw [Archive.find?_unpack_ofTree hdirectory, hfile]
  rfl

/-! A context whose recipe is a link. -/

namespace LinkedRecipe

/-- A recipe below the root of the context, one outside and a link to one of them. -/
def tree (target : String) : Tree :=
  ((((Tree.empty.put [] "c" .directory).put [] "outside" (.file [70])).put ["c"] "docker"
    .directory).put ["docker", "c"] "Dockerfile" (.file [70])).put ["c"] "Dockerfile" (.link target)

/-- The context. -/
def packed (target : String) : Archive := Archive.ofTree (tree target) ["c"]

theorem buildContext_eq {target : String}
    (h : (tree target).isFile [] (joinPath "/c" "Dockerfile") = true) :
    buildContext (tree target) [] "/c" "Dockerfile" = .ok (packed target) := by
  have hplace : (tree target).locate [] true "/c" = .ok ["c"] := rfl
  have hroot : (tree target).find? ["c"] = some .directory := rfl
  rw [buildContext_of_locate hplace, if_pos hroot, if_pos h]
  rfl

end LinkedRecipe

/-- A link that stays in the context leads to the recipe there, too. -/
theorem buildContext_recipe_linked :
    (Archive.unpack (LinkedRecipe.packed "./docker//Dockerfile")).lookup [] "Dockerfile" =
      .ok (.file [70]) := by
  have hlink : (LinkedRecipe.tree "./docker//Dockerfile").find? ["Dockerfile", "c"] =
      some (.link "./docker//Dockerfile") := rfl
  have hfile : (LinkedRecipe.tree "./docker//Dockerfile").find? ["Dockerfile", "docker", "c"] =
      some (.file [70]) := rfl
  have hwalk : WalksWithin (LinkedRecipe.tree "./docker//Dockerfile") ["c"] []
      (steps "Dockerfile") ["Dockerfile", "docker"] :=
    .link hlink (by decide) (by decide) (.dot (.enter (by decide) (.file hfile)))
  obtain ⟨bytes, hfound, hunpacked⟩ :=
    buildContext_recipe rfl (by decide) (LinkedRecipe.buildContext_eq (by decide)) rfl hwalk
  rw [hunpacked, ← hfound]
  rfl

/-- A link that leads out of the context does not lead to the recipe there. -/
theorem buildContext_not_contained :
    ¬ ∀ (t : Tree) (here : Location) (base dockerfile : String) (archive : Archive),
      t.find? here = some .directory → isAbsolute dockerfile = false →
      ".." ∉ steps dockerfile → buildContext t here base dockerfile = .ok archive →
      ∃ bytes, t.lookup here (joinPath base dockerfile) = .ok (.file bytes) ∧
        (Archive.unpack archive).lookup [] dockerfile = .ok (.file bytes) := by
  intro hcontained
  obtain ⟨bytes, -, hunpacked⟩ :=
    hcontained (LinkedRecipe.tree "../outside") [] "/c" "Dockerfile" _ rfl (by decide) (by decide)
      (LinkedRecipe.buildContext_eq (by decide))
  have hmissing : ((Archive.unpack (LinkedRecipe.packed "../outside")).lookup []
      "Dockerfile").toOption = none := by
    decide +kernel
  rw [hunpacked] at hmissing
  cases hmissing

end ImagePipeline.Build
