import Mathlib.Tactic.ByContra

/-!
# The first that fits

Rules and names are tried in order, and the first one that fits decides.

* `IsFirst`: a member of a list fits, and none before it does.
* `IsFirst.unique`, `isFirst_congr`: what comes first is settled by what fits.
* `exists_isFirst_iff`: some member comes first exactly if some member fits.
* `unique_of_before`: with what comes first, the members before it are settled too.
-/

namespace ImagePipeline

variable {α : Type} {p q : α → Prop} {l : List α} {a b : α}

/-- `a` is the first member of a list with the property `p`. -/
inductive IsFirst (p : α → Prop) : List α → α → Prop where
  | here {a : α} {l : List α} (holds : p a) : IsFirst p (a :: l) a
  | later {a b : α} {l : List α} (fails : ¬ p b) (first : IsFirst p l a) : IsFirst p (b :: l) a

theorem IsFirst.holds (h : IsFirst p l a) : p a := by
  induction h with
  | here holds => exact holds
  | later _ _ ih => exact ih

theorem IsFirst.mem (h : IsFirst p l a) : a ∈ l := by
  induction h with
  | here => exact List.mem_cons_self
  | later _ _ ih => exact List.mem_cons_of_mem _ ih

theorem IsFirst.unique (ha : IsFirst p l a) (hb : IsFirst p l b) : a = b := by
  induction ha with
  | here holds =>
    cases hb with
    | here => rfl
    | later fails => exact absurd holds fails
  | later fails _ ih =>
    cases hb with
    | here holds => exact absurd holds fails
    | later _ first => exact ih first

theorem IsFirst.mono (hpq : ∀ x ∈ l, p x ↔ q x) (h : IsFirst p l a) : IsFirst q l a := by
  induction h with
  | here holds => exact .here ((hpq _ List.mem_cons_self).1 holds)
  | later fails _ ih =>
    refine .later (fun hq => fails ((hpq _ List.mem_cons_self).2 hq)) (ih fun x hx => ?_)
    exact hpq x (List.mem_cons_of_mem _ hx)

/-- What comes first is settled by what fits. -/
theorem isFirst_congr (hpq : ∀ x ∈ l, p x ↔ q x) : IsFirst p l a ↔ IsFirst q l a :=
  ⟨.mono hpq, .mono fun x hx => (hpq x hx).symm⟩

/-- Some member comes first exactly if some member fits. -/
theorem exists_isFirst_iff : (∃ a, IsFirst p l a) ↔ ∃ a ∈ l, p a := by
  constructor
  · rintro ⟨a, h⟩
    exact ⟨a, h.mem, h.holds⟩
  · rintro ⟨a, ha, hp⟩
    induction l with
    | nil => cases ha
    | cons b l ih =>
      by_cases hb : p b
      · exact ⟨b, .here hb⟩
      · have hal : a ∈ l := (List.mem_cons.1 ha).resolve_left fun hab => hb (hab ▸ hp)
        obtain ⟨c, hc⟩ := ih hal
        exact ⟨c, .later hb hc⟩

/-- The first member that fits and the members before it are settled by what fits. -/
theorem unique_of_before {before before' after after' : List α}
    (h : before ++ a :: after = before' ++ b :: after') (hbefore : ∀ x ∈ before, ¬ p x) (ha : p a)
    (hbefore' : ∀ x ∈ before', ¬ p x) (hb : p b) : before' = before ∧ b = a := by
  induction before generalizing before' with
  | nil =>
    cases before' with
    | nil => exact ⟨rfl, (List.cons.inj h).1.symm⟩
    | cons x before' =>
      cases (List.cons.inj h).1
      exact absurd ha (hbefore' _ List.mem_cons_self)
  | cons x before ih =>
    cases before' with
    | nil =>
      cases (List.cons.inj h).1
      exact absurd hb (hbefore _ List.mem_cons_self)
    | cons y before' =>
      obtain ⟨rfl, hrest⟩ := List.cons.inj h
      obtain ⟨rfl, hab⟩ := ih hrest (fun z hz => hbefore z (List.mem_cons_of_mem x hz))
        fun z hz => hbefore' z (List.mem_cons_of_mem x hz)
      exact ⟨rfl, hab⟩

end ImagePipeline
