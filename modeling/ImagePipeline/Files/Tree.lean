import ImagePipeline.Text.Pieces

/-!
# Directory trees

A tree of directories, files and symbolic links, kept as the list of its entries. Each entry
stands in a directory of the tree, so whatever is listed can be reached from the root.

* `Tree.find?` finds what is at a location, `Tree.children` the names in a directory.
* `Tree.remove` takes an entry away together with all below it; `Tree.put` adds one.
* `find?_remove`: a removal leaves every other location as it was.
-/

namespace ImagePipeline.Files

/-- Where an entry is: its name, then the names of the directories around it, up to the root. -/
abbrev Location := List String

/-- Whether a text can be the name of an entry. -/
def isName (name : String) : Bool :=
  name ≠ "" && name ≠ "." && name ≠ ".." && !name.toList.contains '/'

/-- What can stand in a directory. -/
inductive Entry where
  | directory
  | file (bytes : List UInt8)
  | link (target : String)
deriving DecidableEq, Inhabited

/-- A tree of entries. The root itself is no entry. -/
structure Tree where
  /-- The entries with their locations. -/
  entries : List (Location × Entry)
  /-- No two entries are at one location. -/
  unique : (entries.map (·.1)).Nodup
  /-- Every entry has a name and stands in the root or in a directory of the tree. -/
  placed : ∀ e ∈ entries, ∃ name parent, e.1 = name :: parent ∧ isName name = true ∧
    (parent = [] ∨ (parent, Entry.directory) ∈ entries)

namespace Tree

/-- The tree of nothing but the root. -/
def empty : Tree := ⟨[], .nil, by simp⟩

instance : Inhabited Tree := ⟨empty⟩

/-- What is at a location. -/
def find? (t : Tree) : Location → Option Entry
  | [] => some .directory
  | l => t.entries.lookup l

/-- The names of the entries in a directory. -/
def children (t : Tree) (l : Location) : List String :=
  t.entries.filterMap fun (place, _) =>
    match place with
    | [] => none
    | name :: parent => if parent = l then some name else none

/-- The entries below a location. -/
def below (t : Tree) (l : Location) : List (Location × Entry) :=
  t.entries.filter fun (place, _) => l.isSuffixOf place && place ≠ l

/-- The tree without what is at a location or below it. -/
def remove (t : Tree) (l : Location) : Tree where
  entries := t.entries.filter fun (place, _) => !l.isSuffixOf place
  unique := t.unique.sublist (List.filter_sublist.map _)
  placed := by
    intro e he
    obtain ⟨he, hl⟩ := List.mem_filter.1 he
    obtain ⟨name, parent, hp, hn, hd⟩ := t.placed e he
    refine ⟨name, parent, hp, hn, hd.imp_right fun hd => List.mem_filter.2 ⟨hd, ?_⟩⟩
    simp only [hp, Bool.not_eq_true', Bool.eq_false_iff, ne_eq, List.isSuffixOf_iff_suffix] at hl ⊢
    exact fun h => hl (h.trans (List.suffix_cons name parent))

/-- The tree with one more entry, if there is a place for it. -/
def put (t : Tree) (parent : Location) (name : String) (entry : Entry) : Tree :=
  if h : isName name = true ∧ (parent = [] ∨ (parent, Entry.directory) ∈ t.entries) ∧
      name :: parent ∉ t.entries.map (·.1) then
    { entries := t.entries ++ [(name :: parent, entry)]
      unique := by
        rw [List.map_append, List.nodup_append]
        refine ⟨t.unique, by simp, ?_⟩
        intro a ha b hb
        simp only [List.map_cons, List.map_nil, List.mem_singleton] at hb
        subst hb
        exact fun e => h.2.2 (e ▸ ha)
      placed := by
        intro e he
        rcases List.mem_append.1 he with he | he
        · obtain ⟨n, p, hp, hn, hd⟩ := t.placed e he
          exact ⟨n, p, hp, hn, hd.imp_right (List.mem_append_left _)⟩
        · rw [List.mem_singleton] at he
          subst he
          exact ⟨name, parent, rfl, h.1, h.2.1.imp_right (List.mem_append_left _)⟩ }
  else t

/-- The tree with the directories on the way to a location. -/
def makeDirectories (t : Tree) : Location → Tree
  | [] => t
  | name :: parent => (t.makeDirectories parent).put parent name .directory

theorem lookup_filter {α β : Type} [BEq α] [LawfulBEq α] (p : α → Bool) (k : α)
    (l : List (α × β)) :
    (l.filter fun e => p e.1).lookup k = if p k then l.lookup k else none := by
  induction l with
  | nil => simp
  | cons e l ih =>
    obtain ⟨a, b⟩ := e
    by_cases hk : k = a
    · subst hk
      by_cases hp : p k <;> simp [hp, ih]
    · have hb : (k == a) = false := by simpa using hk
      by_cases hp : p a <;> simp [hp, List.lookup_cons, hb, ih]

/-- A removal takes away what is at or below the location, and nothing else. -/
theorem find?_remove (t : Tree) (l place : Location) (h : place ≠ []) :
    (t.remove l).find? place = if l.isSuffixOf place then none else t.find? place := by
  obtain ⟨name, parent, rfl⟩ := List.exists_cons_of_ne_nil h
  show (t.remove l).entries.lookup (name :: parent) = _
  simp only [remove, find?]
  rw [lookup_filter (fun place => !l.isSuffixOf place)]
  by_cases hs : l.isSuffixOf (name :: parent) <;> simp [hs]

end Tree

end ImagePipeline.Files
