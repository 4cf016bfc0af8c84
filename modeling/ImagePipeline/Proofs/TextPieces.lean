import ImagePipeline.Text.Pieces

/-!
# Laws of cutting texts

What cutting does to a text that is put together: the pieces of two texts with a separator between
them are those of the one and those of the other, a text without separators is its own piece, and
such pieces are got back from the text that they make.  A text that is cut once is cut at its first
separator, if it has one.
-/

namespace ImagePipeline.Text

variable {sep : Char}

@[simp] theorem splitChars_nil (sep : Char) : splitChars sep [] = [[]] := rfl

theorem splitChars_cons_of_ne {c : Char} {cs piece : List Char} {pieces : List (List Char)}
    (hc : c ≠ sep) (h : splitChars sep cs = piece :: pieces) :
    splitChars sep (c :: cs) = (c :: piece) :: pieces := by
  rw [splitChars, if_neg hc, h]

/-- The pieces on both sides of a separator are those of the two sides. -/
theorem splitChars_append_cons (sep : Char) (a b : List Char) :
    splitChars sep (a ++ sep :: b) = splitChars sep a ++ splitChars sep b := by
  induction a with
  | nil => rw [List.nil_append, splitChars_nil, splitChars, if_pos rfl, List.singleton_append]
  | cons c cs ih =>
    by_cases hc : c = sep
    · rw [List.cons_append, splitChars, if_pos hc, ih, splitChars, if_pos hc, List.cons_append]
    · obtain ⟨piece, pieces, hpieces⟩ := List.exists_cons_of_ne_nil (splitChars_ne_nil sep cs)
      have hlong : splitChars sep (cs ++ sep :: b) = piece :: (pieces ++ splitChars sep b) := by
        rw [ih, hpieces, List.cons_append]
      rw [List.cons_append, splitChars_cons_of_ne hc hlong, splitChars_cons_of_ne hc hpieces,
        List.cons_append]

theorem splitChars_of_not_mem {cs : List Char} (h : sep ∉ cs) : splitChars sep cs = [cs] := by
  induction cs with
  | nil => rfl
  | cons c cs ih =>
    rw [List.mem_cons, not_or] at h
    obtain ⟨hc, hcs⟩ := h
    exact splitChars_cons_of_ne (Ne.symm hc) (ih hcs)

/-- A piece holds no separator. -/
theorem not_mem_of_mem_splitChars {cs piece : List Char} (h : piece ∈ splitChars sep cs) :
    sep ∉ piece := by
  induction cs generalizing piece with
  | nil =>
    obtain rfl := List.mem_singleton.1 h
    exact List.not_mem_nil
  | cons c cs ih =>
    obtain ⟨first, pieces, hpieces⟩ := List.exists_cons_of_ne_nil (splitChars_ne_nil sep cs)
    by_cases hc : c = sep
    · rw [splitChars, if_pos hc] at h
      rcases List.mem_cons.1 h with rfl | h
      · exact List.not_mem_nil
      · exact ih h
    · rw [splitChars_cons_of_ne hc hpieces] at h
      rw [hpieces] at ih
      rcases List.mem_cons.1 h with rfl | h
      · rw [List.mem_cons, not_or]
        exact ⟨Ne.symm hc, ih List.mem_cons_self⟩
      · exact ih (List.mem_cons_of_mem _ h)

/-- The characters of a piece are characters of the text. -/
theorem mem_of_mem_splitChars {cs piece : List Char} {c : Char} (h : piece ∈ splitChars sep cs)
    (hc : c ∈ piece) : c ∈ cs := by
  induction cs generalizing piece with
  | nil =>
    obtain rfl := List.mem_singleton.1 h
    exact hc
  | cons d cs ih =>
    obtain ⟨first, pieces, hpieces⟩ := List.exists_cons_of_ne_nil (splitChars_ne_nil sep cs)
    by_cases hd : d = sep
    · rw [splitChars, if_pos hd] at h
      rcases List.mem_cons.1 h with rfl | h
      · cases hc
      · exact List.mem_cons_of_mem d (ih h hc)
    · rw [splitChars_cons_of_ne hd hpieces] at h
      rw [hpieces] at ih
      rcases List.mem_cons.1 h with rfl | h
      · rcases List.mem_cons.1 hc with rfl | hc
        · exact List.mem_cons_self
        · exact List.mem_cons_of_mem d (ih List.mem_cons_self hc)
      · exact List.mem_cons_of_mem d (ih (List.mem_cons_of_mem _ h) hc)

/-- Pieces with a separator in front of each. -/
theorem cons_joinChars_append (sep : Char) (first : List (List Char)) {rest : List (List Char)}
    (hrest : rest ≠ []) :
    sep :: joinChars sep (first ++ rest) =
      first.flatMap (sep :: ·) ++ sep :: joinChars sep rest := by
  induction first with
  | nil => rfl
  | cons piece first ih =>
    rw [List.flatMap_cons, List.append_assoc, ← ih, List.cons_append, joinChars]
    · rfl
    · intro hnil
      exact hrest (List.append_eq_nil_iff.1 hnil).2

theorem split_append_append (sep : Char) (a b : String) :
    split sep (a ++ String.singleton sep ++ b) = split sep a ++ split sep b := by
  rw [split, String.toList_append, String.toList_append, String.toList_singleton,
    List.append_assoc, List.singleton_append, splitChars_append_cons, List.map_append]
  rfl

theorem split_of_not_mem {s : String} (h : sep ∉ s.toList) : split sep s = [s] := by
  rw [split, splitChars_of_not_mem h, List.map_cons, List.map_nil, String.ofList_toList]

theorem not_mem_of_mem_split {s piece : String} (h : piece ∈ split sep s) :
    sep ∉ piece.toList := by
  obtain ⟨cs, hcs, rfl⟩ := List.mem_map.1 h
  rw [String.toList_ofList]
  exact not_mem_of_mem_splitChars hcs

theorem mem_of_mem_split {s piece : String} {c : Char} (h : piece ∈ split sep s)
    (hc : c ∈ piece.toList) : c ∈ s.toList := by
  obtain ⟨cs, hcs, rfl⟩ := List.mem_map.1 h
  rw [String.toList_ofList] at hc
  exact mem_of_mem_splitChars hcs hc

/-! ## Cutting once -/

/-- A text is cut at the first separator, which both parts together lack. -/
theorem cut_eq_some_iff {s left right : String} :
    cut sep s = some (left, right) ↔
      s = left ++ String.singleton sep ++ right ∧ sep ∉ left.toList := by
  have htext : s = left ++ String.singleton sep ++ right ↔
      s.toList = left.toList ++ sep :: right.toList := by
    rw [← String.toList_inj]
    simp
  rw [htext, ← cutChars_eq_some_iff, cut, Option.map_eq_some_iff]
  constructor
  · rintro ⟨_, h, heq⟩
    cases heq
    simpa using h
  · intro h
    exact ⟨_, h, by simp⟩

/-- Only a text without the separator is not cut. -/
theorem cut_eq_none_iff {s : String} : cut sep s = none ↔ sep ∉ s.toList := by
  rw [cut, Option.map_eq_none_iff]
  constructor
  · intro h hmem
    obtain ⟨left, right, hs, hleft⟩ := List.eq_append_cons_of_mem hmem
    exact nomatch h.symm.trans (cutChars_eq_some_iff.2 ⟨hs, hleft⟩)
  · intro h
    cases hcut : cutChars sep s.toList with
    | none => rfl
    | some parts =>
      obtain ⟨hs, -⟩ := cutChars_eq_some_iff.1 hcut
      exact absurd (hs ▸ List.mem_append_right _ List.mem_cons_self) h

/-! ## Joining -/

/-- Pieces without the separator are those of the text that they make. -/
theorem splitChars_joinChars {pieces : List (List Char)} (hne : pieces ≠ [])
    (h : ∀ piece ∈ pieces, sep ∉ piece) : splitChars sep (joinChars sep pieces) = pieces := by
  induction pieces with
  | nil => exact absurd rfl hne
  | cons piece pieces ih =>
    have hpiece := h piece List.mem_cons_self
    cases pieces with
    | nil => exact splitChars_of_not_mem hpiece
    | cons next pieces =>
      have hrest := ih (List.cons_ne_nil _ _) fun p hp => h p (List.mem_cons_of_mem _ hp)
      rw [joinChars, splitChars_append_cons, splitChars_of_not_mem hpiece, hrest,
        List.singleton_append]
      exact List.cons_ne_nil _ _

theorem split_ofList_joinChars {pieces : List (List Char)} (hne : pieces ≠ [])
    (h : ∀ piece ∈ pieces, sep ∉ piece) :
    split sep (String.ofList (joinChars sep pieces)) = pieces.map String.ofList := by
  rw [split, String.toList_ofList, splitChars_joinChars hne h]

theorem mem_joinChars {c : Char} {pieces : List (List Char)} (h : c ∈ joinChars sep pieces) :
    c = sep ∨ ∃ piece ∈ pieces, c ∈ piece := by
  fun_induction joinChars sep pieces with
  | case1 => cases h
  | case2 piece => exact .inr ⟨piece, List.mem_cons_self, h⟩
  | case3 piece pieces _ ih =>
    rcases List.mem_append.1 h with h | h
    · exact .inr ⟨piece, List.mem_cons_self, h⟩
    · rcases List.mem_cons.1 h with rfl | h
      · exact .inl rfl
      · obtain hsep | ⟨piece', hpiece', hc⟩ := ih h
        · exact .inl hsep
        · exact .inr ⟨piece', List.mem_cons_of_mem _ hpiece', hc⟩

/-- Pieces between slashes are those of the text that they make. -/
theorem split_intercalate {pieces : List String} (h : ∀ piece ∈ pieces, '/' ∉ piece.toList)
    (hne : pieces ≠ []) : split '/' ("/".intercalate pieces) = pieces := by
  induction pieces with
  | nil => exact absurd rfl hne
  | cons piece pieces ih =>
    have hpiece := h piece List.mem_cons_self
    cases pieces with
    | nil => rw [String.intercalate_singleton, split_of_not_mem hpiece]
    | cons next pieces =>
      rw [String.intercalate_cons_cons, show "/" = String.singleton '/' from rfl,
        split_append_append, split_of_not_mem hpiece, show String.singleton '/' = "/" from rfl,
        ih (fun p hp => h p (List.mem_cons_of_mem _ hp)) (List.cons_ne_nil _ _),
        List.singleton_append]

/-- A text is made of its pieces. -/
theorem intercalate_split (s : String) : "/".intercalate (split '/' s) = s := by
  have hjoin (pieces : List (List Char)) :
      ("/".intercalate (pieces.map String.ofList)).toList = joinChars '/' pieces := by
    fun_induction joinChars '/' pieces with
    | case1 => rfl
    | case2 piece => simp
    | case3 piece pieces hne ih =>
      obtain ⟨next, rest, rfl⟩ := List.exists_cons_of_ne_nil hne
      rw [List.map_cons, List.map_cons, String.intercalate_cons_cons, String.toList_append,
        String.toList_append, String.toList_ofList, ← List.map_cons, ih]
      exact List.append_assoc _ _ _
  rw [← String.toList_inj, split, hjoin, joinChars_splitChars]

/-! ## Stripping -/

/-- What is stripped from the end of a text is a run of the character. -/
theorem exists_stripEndChars_append (c : Char) (cs : List Char) :
    ∃ n, cs = stripEndChars c cs ++ List.replicate n c := by
  refine ⟨(cs.reverse.takeWhile (· == c)).length, ?_⟩
  have hrun : List.replicate (cs.reverse.takeWhile (· == c)).length c =
      cs.reverse.takeWhile (· == c) := by
    refine (List.eq_replicate_iff.2 ⟨rfl, fun d hd => ?_⟩).symm
    exact beq_iff_eq.1 (List.all_eq_true.1 List.all_takeWhile d hd)
  rw [← List.reverse_inj, List.reverse_append, List.reverse_replicate, hrun, stripEndChars,
    List.reverse_reverse, List.takeWhile_append_dropWhile]

/-- Nothing is stripped from a text that ends in another character. -/
theorem stripEnd_append_of_not_mem {s name : String} (hname : name ≠ "") (h : sep ∉ name.toList) :
    stripEnd sep (s ++ name) = s ++ name := by
  have hlast : ∃ d ds, name.toList.reverse = d :: ds := by
    refine List.exists_cons_of_ne_nil fun hnil => hname ?_
    rw [← String.toList_inj, List.reverse_eq_nil_iff.1 hnil]
    rfl
  obtain ⟨d, ds, hd⟩ := hlast
  have hsep : ¬ (d == sep) = true := by
    intro heq
    have hmem : d ∈ name.toList.reverse := hd ▸ List.mem_cons_self
    exact h (beq_iff_eq.1 heq ▸ List.mem_reverse.1 hmem)
  rw [stripEnd, stripEndChars, String.toList_append, List.reverse_append, hd, List.cons_append,
    List.dropWhile_cons_of_neg (p := fun x => x == sep) hsep, ← List.cons_append, ← hd,
    ← List.reverse_append, List.reverse_reverse, ← String.toList_append, String.ofList_toList]

end ImagePipeline.Text
