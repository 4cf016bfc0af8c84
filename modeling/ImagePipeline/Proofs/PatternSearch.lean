import ImagePipeline.Proofs.WorkspacePattern

/-!
# Searches with one wild name

A search for a pattern whose names but the last are literal walks down these names and lists what
the last directory holds. Each entry listed that the last name matches is then removed by its path.

* `Search.StandsFor`: the path of a search leads where the names of the pattern lead that it has
  come through, whatever comes after them.
* `Search.enter_literals`: the literal names lead to one path or to none;
  `Search.enter_literals_of_follow` says when they lead to one.
* `Removal.clears_sweep`: removing what is listed takes away the entries that the last name matches,
  and nothing else.
-/

namespace ImagePipeline.Files

variable {t t' : Tree} {here : Location} {absolute : Bool} {path name : String}
  {names : List String} {more : List NamePattern} {tokens : List PatternToken}

namespace Search

/-- The place where a walk begins. -/
def base (here : Location) (absolute : Bool) : Location := if absolute then [] else here

/-- A path leads where some names lead, and wherever these and more names lead. -/
structure StandsFor (t : Tree) (here : Location) (absolute : Bool) (path : String)
    (names : List String) : Prop where
  ne_empty : path ≠ ""
  isAbsolute_eq : isAbsolute path = absolute
  follow_eq : ∀ rest, t.follow true linkLimit (base here absolute) (pathNames path ++ rest) =
    t.follow true linkLimit (base here absolute) (names ++ rest)

theorem standsFor_root (t : Tree) (here : Location) : StandsFor t here true "/" [] where
  ne_empty := by decide
  isAbsolute_eq := by decide
  follow_eq rest := by rw [show pathNames "/" = [] by decide]

theorem standsFor_dot (t : Tree) (here : Location) : StandsFor t here false "." [] where
  ne_empty := by decide
  isAbsolute_eq := by decide
  follow_eq rest := by
    rw [show pathNames "." = ["."] by decide, List.singleton_append, List.nil_append,
      Tree.follow_dot]

/-! ## Literal names -/

theorem inside_of_ne (h : path ≠ ".") : inside path name = joinPath path name := if_neg h

/-- A path goes on with a literal name; only nothing at all cannot stand in the working
directory. -/
theorem StandsFor.inside (h : StandsFor t here absolute path names) (hname : '/' ∉ name.toList)
    (hne : inside path name ≠ "") :
    StandsFor t here absolute (inside path name) (names ++ [name].filter (· ≠ "")) := by
  by_cases hdot : path = "."
  · subst hdot
    have hinside : Search.inside "." name = name := if_pos rfl
    rw [hinside] at hne ⊢
    refine ⟨hne, ?_, fun rest => ?_⟩
    · rw [isAbsolute_of_not_mem hname, ← h.isAbsolute_eq]
      decide
    · rw [pathNames_of_not_mem hname, List.append_assoc, ← h.follow_eq,
        show pathNames "." = ["."] by decide, List.singleton_append, Tree.follow_dot]
  · rw [inside_of_ne hdot]
    refine ⟨joinPath_ne_empty h.ne_empty (isAbsolute_of_not_mem hname), ?_, fun rest => ?_⟩
    · rw [isAbsolute_joinPath h.ne_empty (isAbsolute_of_not_mem hname), h.isAbsolute_eq]
    · rw [pathNames_joinPath h.ne_empty hname, List.append_assoc, h.follow_eq, List.append_assoc]

/-- Whether the search goes on through a literal name. -/
def admits (t : Tree) (here : Location) (place : Place) (name : String) : Bool :=
  if name = "." ∨ name = ".." then place.directory
  else (t.locate here true (inside place.path name)).isOk ||
    (t.locate here false (inside place.path name)).isOk

theorem enter_literal (t : Tree) (here : Location) (place : Place) (name : String)
    (more : List NamePattern) :
    enter t here place (.literal name :: more) =
      if admits t here place name then enter t here (placeOf t here (inside place.path name)) more
      else [] := by
  rw [enter, admits]

theorem inside_ne_empty {place : Place} (hpath : place.path ≠ "") (hname : '/' ∉ name.toList)
    (h : enter t here place (.literal name :: more) ≠ []) : inside place.path name ≠ "" := by
  intro hempty
  by_cases hdot : place.path = "."
  · have hname : name = "" := by
      rw [hdot] at hempty
      exact hempty
    have hadmits : admits t here place name = false := by
      rw [admits, hempty, hname]
      rfl
    rw [enter_literal, hadmits] at h
    exact h rfl
  · rw [inside_of_ne hdot] at hempty
    exact joinPath_ne_empty hpath (isAbsolute_of_not_mem hname) hempty

/-- Literal names lead to nothing, or to a path that stands for them. -/
theorem enter_literals {place : Place} (pieces : List String)
    (hpieces : ∀ piece ∈ pieces, '/' ∉ piece.toList)
    (h : StandsFor t here absolute place.path names) :
    enter t here place (pieces.map .literal ++ more) = [] ∨
      ∃ place', StandsFor t here absolute place'.path (names ++ pieces.filter (· ≠ "")) ∧
        (place' = place ∨ place'.directory = t.isDirectory here place'.path) ∧
        enter t here place (pieces.map .literal ++ more) = enter t here place' more := by
  induction pieces generalizing place names with
  | nil => exact .inr ⟨place, by simpa using h, .inl rfl, rfl⟩
  | cons name pieces ih =>
    rw [List.map_cons, List.cons_append]
    by_cases hnil : enter t here place (.literal name :: (pieces.map .literal ++ more)) = []
    · exact .inl hnil
    have hslash := hpieces name List.mem_cons_self
    have hnext :
        StandsFor t here absolute (placeOf t here (Search.inside place.path name)).path _ :=
      h.inside hslash (inside_ne_empty h.ne_empty hslash hnil)
    rw [enter_literal] at hnil ⊢
    split at hnil
    next hadmits =>
      rw [if_pos hadmits]
      rcases ih (fun piece hpiece => hpieces piece (List.mem_cons_of_mem _ hpiece)) hnext with
        hlost | ⟨place', hplace', hfound, henter⟩
      · exact absurd hlost hnil
      · refine .inr ⟨place', ?_, .inr ?_, henter⟩
        · rw [List.append_assoc, ← List.filter_append] at hplace'
          exact hplace'
        · rcases hfound with rfl | hfound
          · rfl
          · exact hfound
    next => exact absurd rfl hnil

/-! ## Literal names on a way that leads on -/

/-- The path that stands for names leads to the directory that they lead to. -/
theorem StandsFor.locate_eq {e : Location} (h : StandsFor t here absolute path names)
    (hstart : t.find? (base here absolute) = some .directory)
    (hway : t.follow true linkLimit (base here absolute) names = .ok e)
    (he : t.find? e = some .directory) : t.locate here true path = .ok e := by
  have hnames := h.follow_eq []
  rw [List.append_nil, List.append_nil, hway] at hnames
  obtain ⟨hne, rfl, -⟩ := h
  exact Tree.locate_of_follow hne hstart hnames he

/-- Where names lead on, the path that stands for them leads to a directory. -/
theorem StandsFor.exists_locate {step : String} {rest : List String} {d : Location}
    (h : StandsFor t here absolute path names)
    (hstart : t.find? (base here absolute) = some .directory)
    (hfollow : t.follow true linkLimit (base here absolute) (names ++ step :: rest) = .ok d) :
    ∃ e, t.locate here true path = .ok e ∧ t.find? e = some .directory := by
  obtain ⟨e, he, hdirectory, -⟩ := Tree.follow_of_append_cons hstart hfollow
  exact ⟨e, h.locate_eq hstart he hdirectory, hdirectory⟩

theorem StandsFor.ne_dot (h : StandsFor t here true path names) : path ≠ "." := by
  rintro rfl
  exact absurd h.isAbsolute_eq (by decide)

/-- A name that can be walked to is gone through. -/
theorem admits_of_locate {place : Place} {e : Location} (hdirectory : place.directory = true)
    (h : t.locate here true (inside place.path name) = .ok e) :
    admits t here place name = true := by
  rw [admits]
  split
  · exact hdirectory
  · rw [h]
    rfl

/-- A path in the working directory is lost by an empty name; this tells that none comes before a
proper name. -/
def Begins (path : String) (pieces : List String) : Prop :=
  path = "." → (pieces.dropWhile (· = ".")).head? ≠ some ""

theorem Begins.inside_ne_empty {pieces : List String} (h : Begins path (name :: pieces))
    (hpath : path ≠ "") (hname : '/' ∉ name.toList) : inside path name ≠ "" := by
  by_cases hdot : path = "."
  · rw [hdot]
    rintro (rfl : name = "")
    exact h hdot rfl
  · rw [inside_of_ne hdot]
    exact joinPath_ne_empty hpath (isAbsolute_of_not_mem hname)

/-- A path is the working directory still only if it was so and went on with a dot. -/
theorem eq_dot_of_inside_eq_dot (hpath : path ≠ "") (hname : '/' ∉ name.toList)
    (h : inside path name = ".") : path = "." ∧ name = "." := by
  by_cases hdot : path = "."
  · rw [hdot] at h
    exact ⟨hdot, h⟩
  · rw [inside_of_ne hdot] at h
    exact absurd h (joinPath_ne_dot hpath (isAbsolute_of_not_mem hname))

theorem Begins.inside {pieces : List String} (h : Begins path (name :: pieces))
    (hpath : path ≠ "") (hname : '/' ∉ name.toList) : Begins (inside path name) pieces := by
  intro hinside
  obtain ⟨hdot, rfl⟩ := eq_dot_of_inside_eq_dot hpath hname hinside
  exact h hdot

/-- Literal names on a way that leads on lead to a path for them, in every tree. -/
theorem enter_literals_of_follow {place : Place} (pieces : List String)
    (hpieces : ∀ piece ∈ pieces, '/' ∉ piece.toList) {step : String} {rest : List String}
    {d : Location} (h : ∀ t', StandsFor t' here absolute place.path names)
    (hbegins : Begins place.path pieces)
    (hstart : t.find? (base here absolute) = some .directory) (hdirectory : place.directory = true)
    (hfollow : t.follow true linkLimit (base here absolute)
      (names ++ pieces.filter (· ≠ "") ++ step :: rest) = .ok d) :
    ∃ place', (∀ t', StandsFor t' here absolute place'.path (names ++ pieces.filter (· ≠ ""))) ∧
      place'.directory = true ∧
      (place'.path = "." → place.path = "." ∧ ∀ piece ∈ pieces, piece = ".") ∧
      enter t here place (pieces.map .literal ++ more) = enter t here place' more := by
  induction pieces generalizing place names with
  | nil => exact ⟨place, by simpa using h, hdirectory, fun hdot => ⟨hdot, nofun⟩, rfl⟩
  | cons name pieces ih =>
    have hslash := hpieces name List.mem_cons_self
    have hpath := (h t).ne_empty
    have hnext (t' : Tree) :
        StandsFor t' here absolute (placeOf t here (Search.inside place.path name)).path
          (names ++ [name].filter (· ≠ "")) :=
      (h t').inside hslash (hbegins.inside_ne_empty hpath hslash)
    have hnames : names ++ (name :: pieces).filter (· ≠ "") =
        names ++ [name].filter (· ≠ "") ++ pieces.filter (· ≠ "") := by
      rw [List.append_assoc, ← List.filter_append, List.singleton_append]
    rw [hnames] at hfollow ⊢
    obtain ⟨next, after, hafter⟩ : ∃ next after,
        pieces.filter (· ≠ "") ++ step :: rest = next :: after :=
      List.exists_cons_of_ne_nil (by simp)
    have hway := hfollow
    rw [List.append_assoc, hafter] at hway
    obtain ⟨e, hlocate, he⟩ := (hnext t).exists_locate hstart hway
    obtain ⟨place', hplace', hdirectory', hdots, henter⟩ :=
      ih (fun piece hpiece => hpieces piece (List.mem_cons_of_mem _ hpiece)) hnext
        (hbegins.inside hpath hslash) ((Tree.isDirectory_iff_of_locate hlocate).2 he) hfollow
    refine ⟨place', hplace', hdirectory', fun hdot => ?_, ?_⟩
    · obtain ⟨hinside, hall⟩ := hdots hdot
      obtain ⟨hbefore, hname⟩ := eq_dot_of_inside_eq_dot hpath hslash hinside
      exact ⟨hbefore, List.forall_mem_cons.2 ⟨hname, hall⟩⟩
    · rw [List.map_cons, List.cons_append, enter_literal,
        admits_of_locate hdirectory hlocate, if_pos rfl, henter]

/-! ## A name at the end of the literal names -/

/-- The path of a name leads where the names before it and the name lead. -/
theorem StandsFor.locate_inside (h : StandsFor t here absolute path names)
    (hname : isName name = true) :
    t.locate here true (Search.inside path name) =
      t.follow true linkLimit (base here absolute) (names ++ [name]) := by
  obtain ⟨hne, -, -, hslash⟩ := isName_iff.1 hname
  rw [← h.follow_eq]
  by_cases hdot : path = "."
  · subst hdot
    have hinside : Search.inside "." name = name := if_pos rfl
    rw [hinside, Tree.locate, if_neg hne, steps_of_not_mem hslash hne,
      isAbsolute_of_not_mem hslash, ← h.isAbsolute_eq, show pathNames "." = ["."] by decide,
      List.singleton_append, Tree.follow_dot]
    rfl
  · rw [inside_of_ne hdot, Tree.locate_joinPath h.ne_empty hname, h.isAbsolute_eq]
    rfl

theorem inside_ne_dot (hpath : path ≠ "") (hname : isName name = true) :
    inside path name ≠ "." := by
  obtain ⟨hne, hdot, -, hslash⟩ := isName_iff.1 hname
  intro hinside
  by_cases hpathDot : path = "."
  · rw [hpathDot] at hinside
    exact hdot hinside
  · rw [inside_of_ne hpathDot] at hinside
    have hnames := pathNames_joinPath hpath hslash
    rw [hinside, show pathNames "." = [] ++ ["."] by decide,
      show [name].filter (· ≠ "") = [name] by simp [hne]] at hnames
    exact hdot (List.cons.inj (List.append_inj_right' hnames rfl)).1.symm

/-! ## What the last directory holds -/

/-- The items for the entries of a directory, each to be matched by the last name. -/
def listing (t : Tree) (here : Location) (path : String) (tokens : List PatternToken)
    (entries : List String) : List Item :=
  entries.map fun name => .candidate (placeOf t here (inside path name)) name (.wild tokens) []

/-- The items are those for the directory at a location, found by a path to it. -/
structure Lists (t : Tree) (here : Location) (absolute : Bool) (tokens : List PatternToken)
    (directory : Location) (path : String) (items : List Item) : Prop where
  ne_empty : path ≠ ""
  ne_dot : path ≠ "."
  isAbsolute_eq : isAbsolute path = absolute
  follow_eq : t.follow true linkLimit (base here absolute) (pathNames path) = .ok directory
  items_eq : items = listing t here path tokens
    ((t.children directory).mergeSort fun a b => decide (a ≤ b))

/-- A wild name that does not stand for the directory itself and the one around it. -/
theorem enter_wild (t : Tree) (here : Location) (place : Place)
    (hdots : ∀ name ∈ ["..", "."], (NamePattern.wild tokens).accepts name = false) :
    enter t here place [.wild tokens] =
      if place.directory then
        match Search.names t here place.path with
        | .error error => [.failed error]
        | .ok found => listing t here place.path tokens found
      else [] := by
  have hnone : (if (NamePattern.wild tokens).beginsWithDot then
      ["..", "."].filter fun name => (NamePattern.wild tokens).accepts name else []) = [] := by
    split
    · exact List.filter_eq_nil_iff.2 fun name hname => by rw [hdots name hname]; exact nofun
    · rfl
  rw [enter]
  · split
    · cases Search.names t here place.path with
      | error error => rfl
      | ok found =>
        dsimp only
        rw [hnone]
        rfl
    · rfl
  · exact nofun

/-- A directory that is found is listed. -/
theorem enter_wild_of_locate {place : Place} {directory : Location}
    (hdots : ∀ name ∈ ["..", "."], (NamePattern.wild tokens).accepts name = false)
    (hplace : place.directory = true) (hlocate : t.locate here true place.path = .ok directory)
    (hdirectory : t.find? directory = some .directory) :
    enter t here place [.wild tokens] =
      listing t here place.path tokens
        ((t.children directory).mergeSort fun a b => decide (a ≤ b)) := by
  have hnames : Search.names t here place.path =
      .ok ((t.children directory).mergeSort fun a b => decide (a ≤ b)) := by
    rw [Search.names, hlocate]
    simp only [bind, Except.bind, hdirectory]
  rw [enter_wild t here place hdots, if_pos hplace, hnames]

/-- The last literal name leads to the directory that is listed. -/
theorem enter_last {place : Place} {last : String} {directory : Location}
    (hdots : ∀ name ∈ ["..", "."], (NamePattern.wild tokens).accepts name = false)
    (hlast : isName last = true) (h : StandsFor t here absolute place.path names)
    (hfollow : t.follow true linkLimit (base here absolute) (names ++ [last]) = .ok directory) :
    enter t here place [.literal last, .wild tokens] =
      if t.find? directory = some .directory then
        listing t here (Search.inside place.path last) tokens
          ((t.children directory).mergeSort fun a b => decide (a ≤ b))
      else [] := by
  obtain ⟨-, hdot, hdotdot, -⟩ := isName_iff.1 hlast
  have hlocate := h.locate_inside hlast
  rw [hfollow] at hlocate
  have hadmits : admits t here place last = true := by
    rw [admits, if_neg (not_or.2 ⟨hdot, hdotdot⟩), hlocate]
    rfl
  have hiff := Tree.isDirectory_iff_of_locate hlocate
  rw [enter_literal, hadmits, if_pos rfl]
  by_cases hdirectory : t.find? directory = some .directory
  · rw [if_pos hdirectory]
    exact enter_wild_of_locate hdots (hiff.2 hdirectory) hlocate hdirectory
  · have hplace : ¬ (placeOf t here (Search.inside place.path last)).directory = true :=
      fun h => hdirectory (hiff.1 h)
    rw [if_neg hdirectory, enter_wild t here _ hdots, if_neg hplace]

/-- The path of the directory that is listed. -/
theorem lists_of_enter_last {place : Place} {last : String} {directory : Location}
    (hdots : ∀ name ∈ ["..", "."], (NamePattern.wild tokens).accepts name = false)
    (hlast : isName last = true) (h : StandsFor t here absolute place.path names)
    (hfollow : t.follow true linkLimit (base here absolute) (names ++ [last]) = .ok directory)
    (hdirectory : t.find? directory = some .directory) :
    ∃ path, Lists t here absolute tokens directory path
      (enter t here place [.literal last, .wild tokens]) := by
  obtain ⟨hne, -, -, hslash⟩ := isName_iff.1 hlast
  have hinside : Search.inside place.path last ≠ "" := by
    by_cases hdot : place.path = "."
    · rw [hdot]
      exact hne
    · rw [inside_of_ne hdot]
      exact joinPath_ne_empty h.ne_empty (isAbsolute_of_not_mem hslash)
  have hnext := h.inside hslash hinside
  have hway := hnext.follow_eq []
  rw [List.append_nil, List.append_nil, show [last].filter (· ≠ "") = [last] by simp [hne],
    hfollow] at hway
  refine ⟨Search.inside place.path last, hinside, inside_ne_dot h.ne_empty hlast,
    hnext.isAbsolute_eq, hway, ?_⟩
  rw [enter_last hdots hlast h hfollow, if_pos hdirectory]

/-- Behind literal names a search finds nothing, or lists the directory that they lead to. -/
theorem enter_literals_wild {place : Place} {pieces : List String} {last : String}
    {directory : Location}
    (hdots : ∀ name ∈ ["..", "."], (NamePattern.wild tokens).accepts name = false)
    (hpieces : ∀ piece ∈ pieces, '/' ∉ piece.toList) (hlast : isName last = true)
    (h : StandsFor t here absolute place.path names)
    (hfollow : t.follow true linkLimit (base here absolute)
      (names ++ pieces.filter (· ≠ "") ++ [last]) = .ok directory) :
    enter t here place (pieces.map .literal ++ [.literal last, .wild tokens]) = [] ∨
      ∃ path, Lists t here absolute tokens directory path
        (enter t here place (pieces.map .literal ++ [.literal last, .wild tokens])) := by
  rcases enter_literals pieces hpieces h with hnil | ⟨place', hplace', -, henter⟩
  · exact .inl hnil
  rw [henter]
  by_cases hdirectory : t.find? directory = some .directory
  · exact .inr (lists_of_enter_last hdots hlast hplace' hfollow hdirectory)
  · rw [enter_last hdots hlast hplace' hfollow, if_neg hdirectory]
    exact .inl rfl

/-- From the root it does list the directory. -/
theorem lists_of_follow {place : Place} {pieces : List String} {last : String}
    {directory : Location}
    (hdots : ∀ name ∈ ["..", "."], (NamePattern.wild tokens).accepts name = false)
    (hpieces : ∀ piece ∈ pieces, '/' ∉ piece.toList) (hlast : isName last = true)
    (h : ∀ t', StandsFor t' here true place.path names) (hplace : place.directory = true)
    (hfollow : t.follow true linkLimit [] (names ++ pieces.filter (· ≠ "") ++ [last]) =
      .ok directory)
    (hdirectory : t.find? directory = some .directory) :
    ∃ path, Lists t here true tokens directory path
      (enter t here place (pieces.map .literal ++ [.literal last, .wild tokens])) := by
  have hbegins : Begins place.path pieces := fun hdot => absurd hdot (h t).ne_dot
  obtain ⟨place', hplace', -, -, henter⟩ :=
    enter_literals_of_follow pieces hpieces h hbegins rfl hplace hfollow
  rw [henter]
  exact lists_of_enter_last hdots hlast (hplace' t) hfollow hdirectory

end Search

/-! ## Removing what is listed -/

namespace Removal

theorem advance_wild (place : Search.Place) :
    Search.advance t here false (.candidate place name (.wild tokens) []) =
      .ok (if PatternToken.matchName tokens name.toList then some place.path else none, []) := by
  rw [Search.advance]
  show Except.ok (Search.matchLast t here false place name (.wild tokens) []) = _
  rw [Search.matchLast]
  show Except.ok (if (!PatternToken.matchName tokens name.toList) = true then _ else _) = _
  cases PatternToken.matchName tokens name.toList <;> rfl

/-! The steps over what is listed: a name that does not match, a removal and a failed one. -/

variable {place : Search.Place} {fuel : Nat} {items : List Search.Item} {removed : List String}

theorem sweep_candidate (t : Tree) (here : Location) (place : Search.Place) (name : String)
    (tokens : List PatternToken) (fuel : Nat) (items : List Search.Item) (removed : List String) :
    sweep here false (fuel + 1) t (.candidate place name (.wild tokens) [] :: items) removed =
      if PatternToken.matchName tokens name.toList then
        match t.removePath here place.path with
        | (t, .error error) => (t, .error error)
        | (t, .ok ()) => sweep here false fuel t items (place.path :: removed)
      else sweep here false fuel t items removed := by
  rw [sweep, advance_wild]
  cases PatternToken.matchName tokens name.toList <;> rfl

theorem sweep_of_not_match (h : ¬ PatternToken.matchName tokens name.toList = true) :
    sweep here false (fuel + 1) t (.candidate place name (.wild tokens) [] :: items) removed =
      sweep here false fuel t items removed := by
  rw [sweep_candidate, if_neg h]

theorem sweep_of_removed (h : PatternToken.matchName tokens name.toList = true)
    (hremove : t.removePath here place.path = (t', .ok ())) :
    sweep here false (fuel + 1) t (.candidate place name (.wild tokens) [] :: items) removed =
      sweep here false fuel t' items (place.path :: removed) := by
  rw [sweep_candidate, if_pos h, hremove]

theorem sweep_of_failed {error : FileError}
    (h : PatternToken.matchName tokens name.toList = true)
    (hremove : t.removePath here place.path = (t', .error error)) :
    sweep here false (fuel + 1) t (.candidate place name (.wild tokens) [] :: items) removed =
      (t', .error error) := by
  rw [sweep_candidate, if_pos h, hremove]

/-- All that matches is taken out of a directory, and nothing else is, unless something fails;
then no more than that is taken out. -/
structure Clears (tokens : List PatternToken) (directory : Location) (entries : List String)
    (t : Tree) (swept : Tree × Except FileError (List String)) : Prop where
  within : swept.1.Within t
  kept : ∀ l, (∀ name, PatternToken.matchName tokens name.toList = true →
    ¬ (name :: directory) <:+ l) → swept.1.find? l = t.find? l
  gone : ∀ paths, swept.2 = .ok paths → ∀ name ∈ entries,
    PatternToken.matchName tokens name.toList = true → swept.1.find? (name :: directory) = none

theorem Clears.of_unchanged {directory : Location} {result : Except FileError (List String)}
    {entries : List String} (h : ∀ paths, result = .ok paths → entries = []) :
    Clears tokens directory entries t (t, result) where
  within := Tree.within_refl t
  kept _ _ := rfl
  gone paths hpaths name hname := by
    rw [h paths hpaths] at hname
    cases hname

/-- Going over what is listed of a directory clears it. -/
theorem clears_sweep {directory : Location} (hne : path ≠ "") (hdot : path ≠ ".")
    (hway : t.follow true linkLimit (Search.base here (isAbsolute path)) (pathNames path) =
      .ok directory)
    (entries : List String) (hentries : ∀ name ∈ entries, isName name = true)
    (hwithin : t'.Within t) (hfuel : entries.length ≤ fuel) :
    Clears tokens directory entries t'
      (sweep here false fuel t' (Search.listing t here path tokens entries) removed) := by
  induction entries generalizing t' fuel removed with
  | nil =>
    have hswept : sweep here false fuel t' (Search.listing t here path tokens []) removed =
        (t', .ok removed.reverse) := by
      cases fuel <;> rfl
    rw [hswept]
    exact .of_unchanged fun _ _ => rfl
  | cons name entries ih =>
    have hname := hentries name List.mem_cons_self
    have hrest : ∀ name ∈ entries, isName name = true :=
      fun name' hname' => hentries name' (List.mem_cons_of_mem _ hname')
    obtain ⟨fuel, rfl⟩ : ∃ fewer, fuel = fewer + 1 :=
      Nat.exists_eq_succ_of_ne_zero (by rw [List.length_cons] at hfuel; omega)
    have hfuel := Nat.le_of_succ_le_succ hfuel
    rw [Search.listing, List.map_cons, ← Search.listing]
    by_cases hmatch : PatternToken.matchName tokens name.toList = true
    · have hpath : (Search.placeOf t here (Search.inside path name)).path = joinPath path name :=
        Search.inside_of_ne hdot
      rcases Tree.removePath_joinPath_eq hne hname with
        ⟨error, hremove⟩ | ⟨parent, hparent, hremove⟩
      · rw [← hpath] at hremove
        rw [sweep_of_failed hmatch hremove]
        exact .of_unchanged nofun
      · rw [← hpath] at hremove
        rw [sweep_of_removed hmatch hremove]
        obtain rfl : directory = parent :=
          Except.ok.inj (hway.symm.trans (Tree.follow_of_within hwithin hparent))
        have hless := Tree.within_remove t' (name :: directory)
        obtain ⟨hwithin', hkept, hgone⟩ :=
          @ih _ _ (joinPath path name :: removed) hrest (hless.trans hwithin) hfuel
        rw [hpath]
        refine ⟨hwithin'.trans hless, fun l hl => (hkept l hl).trans ?_, ?_⟩
        · exact Tree.find?_remove_of_not_suffix (hl name hmatch)
        · intro paths hpaths name' hname' hmatch'
          rcases List.mem_cons.1 hname' with rfl | hname'
          · refine hwithin'.find?_eq_none (Tree.find?_remove_self (List.cons_ne_nil _ _))
          · exact hgone paths hpaths name' hname' hmatch'
    · rw [sweep_of_not_match hmatch]
      obtain ⟨hwithin', hkept, hgone⟩ := @ih _ _ removed hrest hwithin hfuel
      refine ⟨hwithin', hkept, fun paths hpaths name' hname' hmatch' => ?_⟩
      rcases List.mem_cons.1 hname' with rfl | hname'
      · exact absurd hmatch' hmatch
      · exact hgone paths hpaths name' hname' hmatch'

end Removal

end ImagePipeline.Files
