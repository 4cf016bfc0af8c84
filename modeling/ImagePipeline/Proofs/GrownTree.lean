import ImagePipeline.Proofs.PathResolution

/-!
# Trees that are put together

A tree grows entry by entry, each with the directories on the way to it that are not there yet.  In
whatever order the entries come, the tree ends up with what was put into it.

* `Tree.IsView`: what can be at the locations of a tree, said without one.
* `Tree.find?_put`: one more entry.
* `Tree.Outlines`: a tree holds nothing but what a view has; `outlines_place` is the step of the
  growth.
* `Tree.find?_foldl_place`: a tree that has been given every entry of a view shows the view.
-/

namespace ImagePipeline.Files.Tree

variable {t : Tree} {name : String} {parent l : Location} {entry : Entry}
  {v : Location → Option Entry}

/-! ## One more entry -/

theorem mem_keys_iff (hl : l ≠ []) : l ∈ t.entries.map (·.1) ↔ (t.find? l).isSome := by
  rw [List.mem_map]
  constructor
  · rintro ⟨⟨_, entry⟩, hmem, rfl⟩
    rw [find?_of_mem hl hmem]
    rfl
  · intro h
    obtain ⟨entry, hentry⟩ := Option.isSome_iff_exists.1 h
    exact ⟨(l, entry), mem_of_find? hl hentry, rfl⟩

/-- An entry that is put in is there, unless there was one already, and nothing else changes. -/
theorem find?_put (hname : isName name = true) (hparent : t.find? parent = some .directory)
    (entry : Entry) (l : Location) :
    (t.put parent name entry).find? l =
      if l = name :: parent then some ((t.find? l).getD entry) else t.find? l := by
  have hplace : parent = [] ∨ (parent, Entry.directory) ∈ t.entries := by
    by_cases hnil : parent = []
    · exact .inl hnil
    · exact .inr (mem_of_find? hnil hparent)
  have hkey := @mem_keys_iff t (name :: parent) (List.cons_ne_nil _ _)
  rw [put]
  split
  next hput =>
    have hnone : t.find? (name :: parent) = none := by
      rw [← Option.not_isSome_iff_eq_none, ← hkey]
      exact hput.2.2
    cases l with
    | nil => rfl
    | cons first rest =>
      show (t.entries ++ [(name :: parent, entry)]).lookup (first :: rest) = _
      rw [List.lookup_append]
      by_cases heq : first :: rest = name :: parent
      · rw [if_pos heq, heq, hnone]
        have hlookup : t.entries.lookup (name :: parent) = none := hnone
        rw [hlookup]
        simp
      · have hlookup : [(name :: parent, entry)].lookup (first :: rest) = none := by
          rw [List.lookup_cons, beq_eq_false_iff_ne.2 heq]
          rfl
        rw [if_neg heq, hlookup, Option.or_none]
        rfl
  next hput =>
    split
    next heq =>
      have hsome : (t.find? (name :: parent)).isSome := by
        rw [← hkey]
        exact Decidable.of_not_not fun hno => hput ⟨hname, hplace, hno⟩
      obtain ⟨old, hold⟩ := Option.isSome_iff_exists.1 hsome
      rw [heq, hold]
      rfl
    next => rfl

/-! ## Views -/

/-- What can be at the locations of a tree: whatever is there has a name and stands in a
directory. -/
structure IsView (v : Location → Option Entry) : Prop where
  root : v [] = some .directory
  placed : ∀ {name parent entry}, v (name :: parent) = some entry →
    isName name = true ∧ v parent = some .directory

/-- A tree holds nothing but what a view has at the same place. -/
def Outlines (t : Tree) (v : Location → Option Entry) : Prop :=
  ∀ l entry, t.find? l = some entry → v l = some entry

theorem outlines_empty (hv : IsView v) : empty.Outlines v := by
  intro l entry h
  cases l with
  | nil => rw [hv.root, ← h]; rfl
  | cons => cases h

/-- The tree with one more entry and the directories on the way to it. -/
def place (t : Tree) : Location → Entry → Tree
  | [], _ => t
  | name :: parent, entry => (t.makeDirectories parent).put parent name entry

theorem outlines_put (hname : isName name = true) (hparent : t.find? parent = some .directory)
    (ht : t.Outlines v) (hl : v (name :: parent) = some entry) :
    (t.put parent name entry).Outlines v ∧
      (t.put parent name entry).find? (name :: parent) = some entry ∧
      t.Within (t.put parent name entry) := by
  have hthere : some ((t.find? (name :: parent)).getD entry) = some entry := by
    cases hold : t.find? (name :: parent) with
    | none => rfl
    | some old => rw [← ht _ _ hold, hl]; rfl
  have hfind := find?_put hname hparent entry
  refine ⟨fun l other h => ?_, ?_, fun l other h => ?_⟩
  · rw [hfind] at h
    split at h
    next heq => rw [heq, hl, ← hthere, ← heq, h]
    next => exact ht l other h
  · rw [hfind, if_pos rfl, hthere]
  · rw [hfind]
    split
    · rw [h]; rfl
    · exact h

theorem outlines_makeDirectories (hv : IsView v) (ht : t.Outlines v)
    (hl : v l = some .directory) :
    (t.makeDirectories l).Outlines v ∧ (t.makeDirectories l).find? l = some .directory ∧
      t.Within (t.makeDirectories l) := by
  induction l with
  | nil => exact ⟨ht, rfl, within_refl t⟩
  | cons name parent ih =>
    obtain ⟨hname, hparent⟩ := hv.placed hl
    obtain ⟨hout, hthere, hwithin⟩ := ih hparent
    obtain ⟨hout', hthere', hwithin'⟩ := outlines_put hname hthere hout hl
    exact ⟨hout', hthere', hwithin.trans hwithin'⟩

/-- The step of the growth: an entry of the view is there after it, and so is all that was. -/
theorem outlines_place (hv : IsView v) (ht : t.Outlines v) (hl : v l = some entry) :
    (t.place l entry).Outlines v ∧ (t.place l entry).find? l = some entry ∧
      t.Within (t.place l entry) := by
  cases l with
  | nil => exact ⟨ht, hv.root.symm.trans hl, within_refl t⟩
  | cons name parent =>
    obtain ⟨hname, hparent⟩ := hv.placed hl
    obtain ⟨hout, hthere, hwithin⟩ := outlines_makeDirectories hv ht hparent
    obtain ⟨hout', hthere', hwithin'⟩ := outlines_put hname hthere hout hl
    exact ⟨hout', hthere', hwithin.trans hwithin'⟩

/-! ## Many entries -/

theorem outlines_foldl_place (hv : IsView v) (ht : t.Outlines v) {added : List (Location × Entry)}
    (hadded : ∀ p ∈ added, v p.1 = some p.2) :
    (added.foldl (fun t p => t.place p.1 p.2) t).Outlines v ∧
      t.Within (added.foldl (fun t p => t.place p.1 p.2) t) ∧
      ∀ p ∈ added, (added.foldl (fun t p => t.place p.1 p.2) t).find? p.1 = some p.2 := by
  induction added generalizing t with
  | nil => exact ⟨ht, within_refl t, nofun⟩
  | cons p added ih =>
    obtain ⟨hout, hthere, hwithin⟩ := outlines_place hv ht (hadded p List.mem_cons_self)
    obtain ⟨hout', hwithin', hall⟩ := ih hout fun q hq => hadded q (List.mem_cons_of_mem _ hq)
    refine ⟨hout', hwithin.trans hwithin', fun q hq => ?_⟩
    rcases List.mem_cons.1 hq with rfl | hq
    · exact hwithin' _ _ hthere
    · exact hall q hq

/-- A tree that has been given every entry of a view, and nothing else, shows the view. -/
theorem find?_foldl_place (hv : IsView v) {added : List (Location × Entry)}
    (hadded : ∀ p ∈ added, v p.1 = some p.2)
    (hall : ∀ l entry, v l = some entry → l ≠ [] → (l, entry) ∈ added) (l : Location) :
    (added.foldl (fun t p => t.place p.1 p.2) empty).find? l = v l := by
  obtain ⟨hout, -, hthere⟩ := outlines_foldl_place hv (outlines_empty hv) hadded
  cases hl : v l with
  | some entry =>
    by_cases hnil : l = []
    · subst hnil
      rw [hv.root] at hl
      rw [← hl]
      rfl
    · exact hthere (l, entry) (hall l entry hl hnil)
  | none =>
    cases hfind : (added.foldl (fun t p => t.place p.1 p.2) empty).find? l with
    | none => rfl
    | some entry => rw [hout l entry hfind] at hl; cases hl

end ImagePipeline.Files.Tree
