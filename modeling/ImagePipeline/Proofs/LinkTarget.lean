import ImagePipeline.Build.Context
import ImagePipeline.Proofs.PathResolution
import Mathlib.Tactic.Conv

/-!
# Targets of links in an archive

The target of a link is kept without the steps that lead nowhere, if it is short enough.  What is
left out are dots and the empty names between slashes.

* `Archive.Abbreviates`: a text has the names of a target that lead somewhere, and is the target
  itself if that has no other steps.  `abbreviates_linkTarget`: it is so in an archive.
* `Archive.Sheds`: steps with some of the dots left out; `sheds_steps_linkTarget` for the steps of a
  target that does not lead from the root.
-/

namespace ImagePipeline

namespace Build.Archive

open Files (isAbsolute joinPath steps pathNames exists_split_eq_cons isAbsolute_iff_of_split
  first_ne_empty pathNames_ne_nil steps_eq)

variable {target short piece first last : String} {more : List String}

/-! ## Abbreviated targets -/

/-- A piece of a target leads somewhere. -/
def leadsOn (piece : String) : Bool := piece ≠ "" && piece ≠ "."

@[simp] theorem leadsOn_iff : leadsOn piece = true ↔ piece ≠ "" ∧ piece ≠ "." := by
  simp [leadsOn]

/-- The pieces of a target that lead somewhere. -/
def properNames (target : String) : List String := (Text.split '/' target).filter leadsOn

/-- No step of a target but the first is a dot, no two slashes follow each other, and the target is
not the root alone. -/
structure IsShort (target : String) : Prop where
  ne_empty : target ≠ ""
  ne_root : target ≠ "/"
  no_dot : ∀ piece ∈ (Text.split '/' target).tail, piece ≠ "."
  no_gap : ∀ piece ∈ (Text.split '/' target).tail.dropLast, piece ≠ ""

/-- A text has the steps of a target that lead somewhere, and it is the target if that has no
others. -/
structure Abbreviates (short target : String) : Prop where
  isAbsolute_eq : target ≠ "" → isAbsolute short = isAbsolute target
  names_eq : properNames short = properNames target
  eq_of_isShort : IsShort target → short = target

theorem abbreviates_refl (target : String) : Abbreviates target target :=
  ⟨fun _ => rfl, rfl, fun _ => rfl⟩

/-- What stays of a target in front of its names. -/
def frontPieces (target : String) : List String :=
  if isAbsolute target then [""]
  else if (Text.split '/' target).head? = some "." then ["."] else []

/-- What stays of a target behind its names. -/
def lastPieces (target : String) : List String :=
  if (Text.split '/' target).getLast? = some "" then [""] else []

/-- What stays of a target. -/
def keptPieces (target : String) : List String :=
  frontPieces target ++ properNames target ++ lastPieces target

theorem mem_properNames :
    piece ∈ properNames target ↔ piece ∈ Text.split '/' target ∧ piece ≠ "" ∧ piece ≠ "." := by
  rw [properNames, List.mem_filter, leadsOn_iff]

theorem not_slash_of_mem_keptPieces (h : piece ∈ keptPieces target) : '/' ∉ piece.toList := by
  rw [keptPieces, List.mem_append, List.mem_append] at h
  rcases h with (h | h) | h
  · unfold frontPieces at h
    split at h
    · rw [List.mem_singleton.1 h]; decide
    · split at h
      · rw [List.mem_singleton.1 h]; decide
      · cases h
  · exact Text.not_mem_of_mem_split (mem_properNames.1 h).1
  · unfold lastPieces at h
    split at h
    · rw [List.mem_singleton.1 h]; decide
    · cases h

/-- A target that does not lead from the root begins with a dot or a name. -/
theorem front_or_names (habsolute : isAbsolute target = false) (hne : target ≠ "") :
    frontPieces target = ["."] ∨ frontPieces target = [] ∧ properNames target ≠ [] := by
  obtain ⟨first, more, hsplit⟩ := exists_split_eq_cons target
  have hfirst := first_ne_empty hsplit hne habsolute
  rw [frontPieces, habsolute, if_neg Bool.false_ne_true, hsplit, List.head?_cons]
  by_cases hdot : first = "."
  · exact .inl (if_pos (congrArg some hdot))
  · refine .inr ⟨if_neg fun h => hdot (Option.some.inj h), ?_⟩
    refine List.ne_nil_of_mem (a := first) (mem_properNames.2 ⟨?_, hfirst, hdot⟩)
    exact hsplit ▸ List.mem_cons_self

theorem isAbsolute_names (h : properNames target ≠ []) :
    isAbsolute ("/".intercalate (properNames target)) = false := by
  have hslash : ∀ piece ∈ properNames target, '/' ∉ piece.toList :=
    fun piece hpiece => Text.not_mem_of_mem_split (mem_properNames.1 hpiece).1
  have hsplit := Text.split_intercalate hslash h
  obtain ⟨first, more, hnames⟩ := List.exists_cons_of_ne_nil h
  rw [hnames] at hsplit
  rw [hnames, Bool.eq_false_iff, ne_eq, isAbsolute_iff_of_split hsplit]
  rintro ⟨rfl, -⟩
  exact (mem_properNames.1 (hnames ▸ List.mem_cons_self : "" ∈ properNames target)).2.1 rfl

/-- What stays in front of the names, as a text. -/
def frontText (target : String) : String :=
  if isAbsolute target then "/"
  else if (Text.split '/' target).head? = some "." then "." else ""

/-- The short form but for a slash at its end. -/
def shortPath (target : String) : String :=
  if (properNames target).isEmpty then frontText target
  else joinPath (frontText target) ("/".intercalate (properNames target))

theorem shortTarget_eq_shortPath (target : String) :
    shortTarget target =
      if (Text.split '/' target).getLast? = some "" then shortPath target ++ "/"
      else shortPath target := rfl

theorem shortPath_eq (h : properNames target ≠ [] ∨ isAbsolute target = false ∧ target ≠ "") :
    shortPath target = "/".intercalate (frontPieces target ++ properNames target) := by
  by_cases hnames : properNames target = []
  · obtain ⟨habsolute, hne⟩ := h.resolve_left fun h => h hnames
    have hfront := (front_or_names habsolute hne).resolve_right fun h => h.2 hnames
    rw [shortPath, hnames, hfront, frontText, habsolute]
    rw [frontPieces, habsolute, if_neg Bool.false_ne_true] at hfront
    split at hfront
    next hdot => rw [if_pos hdot]; rfl
    next => cases hfront
  · rw [shortPath, if_neg (by simpa using hnames), joinPath, isAbsolute_names hnames,
      if_neg Bool.false_ne_true, frontText, frontPieces]
    split
    · rw [if_pos (.inr rfl), String.intercalate_append_of_ne_nil (List.cons_ne_nil _ _) hnames]
      rfl
    · split
      · rw [if_neg (by decide), String.intercalate_append_of_ne_nil (List.cons_ne_nil _ _) hnames]
        rfl
      · rw [if_pos (.inl rfl), String.empty_append, List.nil_append]

/-- The short form is made of what stays, unless the target is nothing but the root. -/
theorem shortTarget_eq (h : properNames target ≠ [] ∨ isAbsolute target = false ∧ target ≠ "") :
    keptPieces target ≠ [] ∧ shortTarget target = "/".intercalate (keptPieces target) := by
  have hfront : frontPieces target ++ properNames target ≠ [] := by
    rcases h with h | ⟨habsolute, hne⟩
    · exact List.append_ne_nil_of_right_ne_nil _ h
    · rcases front_or_names habsolute hne with h | ⟨-, h⟩
      · rw [h]
        exact List.cons_ne_nil _ _
      · exact List.append_ne_nil_of_right_ne_nil _ h
  refine ⟨List.append_ne_nil_of_left_ne_nil hfront _, ?_⟩
  rw [shortTarget_eq_shortPath, shortPath_eq h, keptPieces, lastPieces]
  split
  · rw [String.intercalate_append_of_ne_nil hfront (List.cons_ne_nil _ _),
      String.intercalate_singleton, String.append_empty]
  · rw [List.append_nil]

theorem split_shortTarget
    (h : properNames target ≠ [] ∨ isAbsolute target = false ∧ target ≠ "") :
    Text.split '/' (shortTarget target) = keptPieces target := by
  obtain ⟨hne, hshort⟩ := shortTarget_eq h
  rw [hshort]
  exact Text.split_intercalate (fun piece => not_slash_of_mem_keptPieces) hne

/-- A target that is nothing but the root stays the root. -/
theorem shortTarget_of_root (hnames : properNames target = [])
    (habsolute : isAbsolute target = true) :
    shortTarget target = "/" ∨ shortTarget target = "//" := by
  have hpath : shortPath target = "/" := by
    rw [shortPath, hnames, frontText, habsolute]
    rfl
  rw [shortTarget_eq_shortPath, hpath]
  split
  · exact .inr rfl
  · exact .inl rfl

/-! ## What the short form keeps -/

theorem properNames_shortTarget (target : String) :
    properNames (shortTarget target) = properNames target := by
  by_cases h : properNames target ≠ [] ∨ isAbsolute target = false ∧ target ≠ ""
  · have hfront : (frontPieces target).filter leadsOn = [] := by
      unfold frontPieces
      split
      · rfl
      · split <;> rfl
    have hlast : (lastPieces target).filter leadsOn = [] := by
      unfold lastPieces
      split <;> rfl
    have hnames : (properNames target).filter leadsOn =
        properNames target := by
      exact List.filter_eq_self.2 fun piece hpiece => leadsOn_iff.2 (mem_properNames.1 hpiece).2
    conv_lhs => rw [properNames, split_shortTarget h, keptPieces, List.filter_append,
      List.filter_append, hfront, hnames, hlast, List.nil_append, List.append_nil]
  · rw [not_or, Decidable.not_not] at h
    rw [h.1]
    by_cases hne : target = ""
    · rw [hne]
      decide
    · have habsolute : isAbsolute target = true := by
        cases hcase : isAbsolute target with
        | true => rfl
        | false => exact absurd ⟨hcase, hne⟩ h.2
      rcases shortTarget_of_root h.1 habsolute with hshort | hshort <;>
      · rw [hshort]
        decide

theorem isAbsolute_shortTarget (hne : target ≠ "") :
    isAbsolute (shortTarget target) = isAbsolute target := by
  by_cases h : properNames target ≠ [] ∨ isAbsolute target = false
  · have hsplit := split_shortTarget (h.imp_right fun h => ⟨h, hne⟩)
    cases habsolute : isAbsolute target with
    | true =>
      rw [keptPieces, frontPieces, habsolute, if_pos rfl, List.append_assoc] at hsplit
      rw [isAbsolute_iff_of_split hsplit]
      exact ⟨rfl, List.append_ne_nil_of_left_ne_nil
        (h.resolve_right fun h => by rw [h] at habsolute; cases habsolute) _⟩
    | false =>
      rw [Bool.eq_false_iff]
      obtain ⟨first, more, hkept⟩ := exists_split_eq_cons (shortTarget target)
      rw [ne_eq, isAbsolute_iff_of_split hkept]
      rintro ⟨rfl, -⟩
      rw [hsplit, keptPieces] at hkept
      rcases front_or_names habsolute hne with hfront | ⟨hfront, hnames⟩
      · rw [hfront] at hkept
        exact absurd (List.cons.inj hkept).1 (by decide)
      · obtain ⟨name, names, heq⟩ := List.exists_cons_of_ne_nil hnames
        have hname : name ∈ properNames target := heq ▸ List.mem_cons_self
        rw [hfront, heq] at hkept
        exact (mem_properNames.1 hname).2.1 (List.cons.inj hkept).1
  · rw [not_or, Decidable.not_not, Bool.not_eq_false] at h
    rw [h.2]
    rcases shortTarget_of_root h.1 h.2 with hshort | hshort <;>
    · rw [hshort]
      decide

/-- All of a target stays that has no step that leads nowhere. -/
theorem keptPieces_eq_split (h : IsShort target) : keptPieces target = Text.split '/' target := by
  obtain ⟨first, more, hsplit⟩ := exists_split_eq_cons target
  obtain ⟨hne, -, hdot, hgap⟩ := h
  have habsolute := isAbsolute_iff_of_split hsplit
  rw [hsplit, List.tail_cons] at hdot hgap
  rw [keptPieces, frontPieces, properNames, lastPieces, hsplit]
  rcases List.eq_nil_or_concat more with rfl | ⟨middle, last, hmore⟩
  · have hfirst : first ≠ "" := by
      rintro rfl
      have htarget := Text.intercalate_split target
      rw [hsplit, String.intercalate_singleton] at htarget
      exact hne htarget.symm
    by_cases hfirstDot : first = "." <;> simp [habsolute, hfirst, hfirstDot, leadsOn]
  · rw [List.concat_eq_append] at hmore
    subst hmore
    rw [List.dropLast_concat] at hgap
    have hfront :
        (if isAbsolute target then [""] else if some first = some "." then ["."] else []) ++
          [first].filter leadsOn = [first] := by
      by_cases hfirst : first = ""
      · simp [habsolute, hfirst, leadsOn]
      · by_cases hfirstDot : first = "." <;> simp [habsolute, hfirst, hfirstDot, leadsOn]
    have hmiddle : middle.filter leadsOn = middle := by
      refine List.filter_eq_self.2 fun piece hpiece => leadsOn_iff.2 ?_
      exact ⟨hgap piece hpiece, hdot piece (List.mem_append_left _ hpiece)⟩
    have hlast : [last].filter leadsOn ++
        (if some last = some "" then [""] else []) = [last] := by
      have hlastDot := hdot last (List.mem_append_right _ List.mem_cons_self)
      by_cases hempty : last = "" <;> simp [hempty, hlastDot, leadsOn]
    have hnames : (first :: (middle ++ [last])).filter leadsOn =
        [first].filter leadsOn ++ middle ++ [last].filter leadsOn := by
      rw [← List.singleton_append, List.filter_append, List.filter_append, hmiddle,
        List.append_assoc]
    have hend : (first :: (middle ++ [last])).getLast? = some last :=
      List.getLast?_concat (l := first :: middle)
    rw [List.head?_cons, hend, hnames, ← List.append_assoc, ← List.append_assoc, hfront,
      List.append_assoc, hlast, List.append_assoc, List.singleton_append]

theorem shortTarget_of_isShort (h : IsShort target) : shortTarget target = target := by
  have hkept := keptPieces_eq_split h
  by_cases hnames : properNames target ≠ [] ∨ isAbsolute target = false
  · rw [(shortTarget_eq (hnames.imp_right fun hnames => ⟨hnames, h.ne_empty⟩)).2, hkept,
      Text.intercalate_split]
  · rw [not_or, Decidable.not_not, Bool.not_eq_false] at hnames
    rw [keptPieces, frontPieces, hnames.1, hnames.2, if_pos rfl, List.append_nil] at hkept
    have htarget := Text.intercalate_split target
    rw [← hkept, lastPieces] at htarget
    split at htarget
    · exact absurd htarget.symm h.ne_root
    · exact absurd htarget.symm h.ne_empty

/-- A target as the archive holds it. -/
theorem abbreviates_linkTarget (target : String) : Abbreviates (linkTarget target) target := by
  unfold linkTarget
  dsimp only
  split
  · exact ⟨isAbsolute_shortTarget, properNames_shortTarget target, shortTarget_of_isShort⟩
  · exact abbreviates_refl target

/-! ## Where the short form leads -/

/-- Steps with some of the dots left out. -/
inductive Sheds : List String → List String → Prop where
  | nil : Sheds [] []
  | keep (step : String) {long short : List String} (h : Sheds long short) :
    Sheds (step :: long) (step :: short)
  | drop {long short : List String} (h : Sheds long short) : Sheds ("." :: long) short

namespace Sheds

variable {long short long' short' : List String}

theorem refl (names : List String) : Sheds names names := by
  induction names with
  | nil => exact .nil
  | cons step names ih => exact .keep step ih

theorem append (h : Sheds long short) (h' : Sheds long' short') :
    Sheds (long ++ long') (short ++ short') := by
  induction h with
  | nil => exact h'
  | keep step _ ih => exact .keep step ih
  | drop _ ih => exact .drop ih

theorem filter (names : List String) : Sheds names (names.filter (· ≠ ".")) := by
  induction names with
  | nil => exact .nil
  | cons step names ih =>
    by_cases hdot : step = "."
    · rw [List.filter_cons_of_neg (by simpa using hdot), hdot]
      exact .drop ih
    · rw [List.filter_cons_of_pos (by simpa using hdot)]
      exact .keep step ih

/-- A step that is no dot stays. -/
theorem exists_eq_cons {step : String} (hstep : step ≠ ".") (h : Sheds (step :: long) short) :
    ∃ rest, short = step :: rest ∧ Sheds long rest := by
  cases h with
  | keep _ h => exact ⟨_, rfl, h⟩
  | drop => exact absurd rfl hstep

end Sheds

theorem properNames_eq_filter (target : String) :
    properNames target = (pathNames target).filter (· ≠ ".") := by
  rw [properNames, pathNames, List.filter_filter]
  refine List.filter_congr fun piece _ => ?_
  rw [leadsOn, Bool.and_comm]

/-- In front of the names at most the first dot stays. -/
theorem sheds_pathNames (habsolute : isAbsolute target = false) :
    Sheds (pathNames target) (frontPieces target ++ properNames target) := by
  rw [properNames_eq_filter]
  unfold frontPieces
  rw [habsolute, if_neg Bool.false_ne_true]
  split
  next hdot =>
    obtain ⟨more, hsplit⟩ := List.head?_eq_some_iff.1 hdot
    have hnames : pathNames target = "." :: more.filter (· ≠ "") := by
      rw [pathNames, hsplit]
      rfl
    rw [hnames]
    exact .keep "." (.filter _)
  next => exact .filter _

theorem pathNames_shortTarget (habsolute : isAbsolute target = false) (hne : target ≠ "") :
    pathNames (shortTarget target) = frontPieces target ++ properNames target := by
  have hfront : (frontPieces target).filter (· ≠ "") = frontPieces target := by
    rcases front_or_names habsolute hne with h | ⟨h, -⟩ <;> rw [h] <;> rfl
  have hnames : (properNames target).filter (· ≠ "") = properNames target :=
    List.filter_eq_self.2 fun piece hpiece => by simpa using (mem_properNames.1 hpiece).2.1
  have hlast : (lastPieces target).filter (· ≠ "") = [] := by
    unfold lastPieces
    split <;> rfl
  rw [pathNames, split_shortTarget (.inr ⟨habsolute, hne⟩), keptPieces, List.filter_append,
    List.filter_append, hfront, hnames, hlast, List.append_nil]

/-- A slash at the end stays. -/
theorem getLast?_split_shortTarget (habsolute : isAbsolute target = false) (hne : target ≠ "") :
    (Text.split '/' (shortTarget target)).getLast? = some "" ↔
      (Text.split '/' target).getLast? = some "" := by
  rw [split_shortTarget (.inr ⟨habsolute, hne⟩), keptPieces, lastPieces]
  constructor
  · intro h
    split at h
    next hlast => exact hlast
    next =>
      rw [List.append_nil, ← pathNames_shortTarget habsolute hne] at h
      have hempty := (List.mem_filter.1 (List.mem_of_getLast? h)).2
      exact absurd rfl (of_decide_eq_true hempty)
  · intro h
    rw [if_pos h, List.getLast?_concat]

/-- A link in an archive is walked by the steps of its target but for some dots. -/
theorem sheds_steps_linkTarget (habsolute : isAbsolute target = false) (hne : target ≠ "") :
    Sheds (steps target) (steps (linkTarget target)) := by
  unfold linkTarget
  dsimp only
  split
  · have hshort : pathNames (shortTarget target) ≠ [] := by
      rw [pathNames_shortTarget habsolute hne]
      rcases front_or_names habsolute hne with h | ⟨-, h⟩
      · rw [h]
        exact List.cons_ne_nil _ _
      · exact List.append_ne_nil_of_right_ne_nil _ h
    rw [steps_eq (pathNames_ne_nil hne habsolute), steps_eq hshort]
    simp only [getLast?_split_shortTarget habsolute hne]
    rw [pathNames_shortTarget habsolute hne]
    exact (sheds_pathNames habsolute).append (.refl _)
  · exact .refl _

end Build.Archive

end ImagePipeline
