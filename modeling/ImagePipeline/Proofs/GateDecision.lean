import ImagePipeline.Gate
import Mathlib.Order.Defs.LinearOrder

/-!
# When the gate lets an image pass

The gate compares two images by the dates of their commits and, at one date, by their recipes.
Dates are instants, and instants are linearly ordered: first by the second, then by the nanosecond.

* `Instant.instLinearOrder`: the order in which "not earlier" is "at the same time or later".
* `Gate.decide_publish_iff`: what a verdict in favour of an image rests on.
* `Gate.decide_of_not_publish`: what could be merged and is held back is not newer than what the
  registry has.
* `Gate.not_publish_self`: no image replaces itself.
-/

namespace ImagePipeline

/-- Of two instants one is not later than the other. -/
instance Instant.instLinearOrder : LinearOrder Instant where
  le a b := ¬ b < a
  lt a b := a < b
  le_refl := Instant.lt_irrefl
  le_trans a b c hab hbc hca := by
    rcases Instant.lt_trichotomy a b with h | rfl | h
    · exact hbc (Instant.lt_trans hca h)
    · exact hbc hca
    · exact hab h
  lt_iff_le_not_ge a b := by
    constructor
    · exact fun h => ⟨fun hba => Instant.lt_irrefl a (Instant.lt_trans h hba), fun hab => hab h⟩
    · exact fun h => Decidable.not_not.1 h.2
  le_antisymm a b hab hba := ((Instant.lt_trichotomy a b).resolve_left hba).resolve_right hab
  le_total a b := by
    by_cases h : b < a
    · exact .inr fun hab => Instant.lt_irrefl a (Instant.lt_trans hab h)
    · exact .inl h
  toDecidableLE a b := inferInstanceAs (Decidable (¬ b < a))

namespace Gate

variable {l : ValidLabels} {r : Option ValidLabels} {force mergeable : Bool}

/-- An image passes if the pull request can be merged and the image has something over the one in
the registry, should there be one. -/
theorem decide_publish_iff :
    (decide l r force mergeable).publish = true ↔
      mergeable = true ∧ ∀ v, r = some v → force = true ∨ v.commitDate < l.commitDate ∨
        (l.commitDate = v.commitDate ∧ l.recipeHash ≠ v.recipeHash) := by
  cases mergeable with
  | false => simp [decide]
  | true =>
    cases r with
    | none => simp [decide]
    | some v =>
      cases force with
      | true => simp [decide]
      | false =>
        by_cases hlater : v.commitDate < l.commitDate
        · simp [decide, hlater]
        · by_cases hdate : l.commitDate = v.commitDate
          · by_cases hrecipe : l.recipeHash = v.recipeHash
            · simp [decide, hlater, hrecipe]
            · have hearlier : ¬ v.commitDate < v.commitDate := lt_irrefl _
              simp [decide, hdate, hrecipe, hearlier]
          · simp [decide, hlater, hdate]

/-- What could be merged and does not pass is not newer than what the registry has. -/
theorem decide_of_not_publish (h : (decide l r force true).publish = false) :
    decide l r force true = ⟨false, .remoteSameOrNewer⟩ := by
  have hreason := decide_publish l r force true
  have hmergeable : (decide l r force true).reason ≠ .unmergeableState := by
    unfold decide
    rw [Bool.not_true, if_neg Bool.false_ne_true]
    cases r with
    | none => simp
    | some v =>
      dsimp only
      split_ifs <;> simp
  generalize decide l r force true = verdict at h hreason hmergeable ⊢
  obtain ⟨publish, reason⟩ := verdict
  cases reason <;> simp_all [Reason.publishes]

/-- No image replaces itself. -/
theorem not_publish_self : (decide l (some l) false mergeable).publish = false := by
  rw [← Bool.not_eq_true, decide_publish_iff]
  rintro ⟨-, h⟩
  rcases h l rfl with h | h | h
  · cases h
  · exact lt_irrefl _ h
  · exact h.2 rfl

end Gate

end ImagePipeline
