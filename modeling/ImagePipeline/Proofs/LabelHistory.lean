import ImagePipeline.Proofs.LabelValidation
import ImagePipeline.Proofs.SerializedForm

/-!
# Labels by their history

Labels come about by insertions, and a key may be written many times.  What is found under it is
what was written last, so of a whole history validation sees three texts at most: those written last
under the keys of the family.

* `LastWritten`: the text that a history leaves under a key; `get?_insertAll` says that it is what
  is found there.
* `Verdict`: what becomes of labels with a history, said without the labels.
* `validate_history`: that is what validation says, whatever else was written, and whether the
  labels were inserted one by one or collected in one go.
-/

namespace ImagePipeline

namespace Labels

variable {entries entries' : List (String × String)} {key value : String} {family : Family}
  {image : String} {r r' : Except Refusal ValidLabels}

/-- The labels after some insertions, in order. -/
def insertAll (ls : Labels) : List (String × String) → Labels
  | [] => ls
  | (key, value) :: rest => (ls.insert key value).insertAll rest

/-- The history leaves this text under the key: it was written, and the key was not written
again. -/
def LastWritten (entries : List (String × String)) (key value : String) : Prop :=
  ∃ before after, entries = before ++ (key, value) :: after ∧ ∀ e ∈ after, e.1 ≠ key

/-- The history leaves no text under the key, or the empty one. -/
def Lacks (entries : List (String × String)) (key : String) : Prop :=
  (∀ e ∈ entries, e.1 ≠ key) ∨ LastWritten entries key ""

/-! ## What is found -/

theorem insertAll_eq (ls : Labels) (entries : List (String × String)) :
    ls.insertAll entries = entries.foldl (fun ls e => ls.insert e.1 e.2) ls := by
  induction entries generalizing ls with
  | nil => rfl
  | cons e entries ih => exact ih (ls.insert e.1 e.2)

/-- Labels that are collected are those that are inserted one by one. -/
theorem ofList_eq_insertAll (entries : List (String × String)) :
    ofList entries = empty.insertAll entries :=
  (insertAll_eq empty entries).symm

theorem lastWritten_iff :
    LastWritten entries key value ↔ entries.reverse.lookup key = some value := by
  rw [List.lookup_eq_some_iff]
  constructor
  · rintro ⟨before, after, rfl, hafter⟩
    refine ⟨after.reverse, before.reverse, by simp, fun e he => ?_⟩
    exact bne_iff_ne.2 (Ne.symm (hafter e (List.mem_reverse.1 he)))
  · rintro ⟨after, before, hentries, hafter⟩
    refine ⟨before.reverse, after.reverse, ?_, fun e he => ?_⟩
    · rw [← List.reverse_reverse entries, hentries]
      simp
    · exact Ne.symm (bne_iff_ne.1 (hafter e (List.mem_reverse.1 he)))

theorem lookup_reverse_eq_none_iff :
    entries.reverse.lookup key = none ↔ ∀ e ∈ entries, e.1 ≠ key := by
  rw [List.lookup_eq_none_iff]
  simp only [List.mem_reverse, bne_iff_ne]
  exact forall₂_congr fun e _ => ne_comm

/-- What is found is what was written last. -/
theorem get?_insertAll :
    (empty.insertAll entries).get? key = some value ↔ LastWritten entries key value := by
  rw [lastWritten_iff, ← ofList_eq_insertAll, get?_ofList]

theorem LastWritten.unique {value' : String} (h : LastWritten entries key value)
    (h' : LastWritten entries key value') : value = value' :=
  Option.some.inj ((lastWritten_iff.1 h).symm.trans (lastWritten_iff.1 h'))

/-- Labels have a value under a key exactly if their history does not lack one. -/
theorem lacks_iff : Lacks entries key ↔ (empty.insertAll entries).hasValue key = false := by
  rw [hasValue, ← ofList_eq_insertAll, get?_ofList, Lacks, lastWritten_iff,
    ← lookup_reverse_eq_none_iff]
  cases entries.reverse.lookup key with
  | none => simp
  | some text => simp

instance (entries : List (String × String)) (key : String) : Decidable (Lacks entries key) :=
  decidable_of_iff _ lacks_iff.symm

/-- A history that does not lack a key leaves a text there. -/
theorem exists_of_not_lacks (h : ¬ Lacks entries key) :
    ∃ text, LastWritten entries key text ∧ text ≠ "" := by
  rw [lacks_iff, Bool.not_eq_false, hasValue_iff] at h
  obtain ⟨text, htext, hne⟩ := h
  exact ⟨text, get?_insertAll.1 htext, hne⟩

theorem missing_insertAll (entries : List (String × String)) (keys : LabelKeys) :
    (empty.insertAll entries).missing keys = keys.all.filter (Lacks entries ·) := by
  refine List.filter_congr fun key _ => ?_
  rw [Bool.eq_iff_iff, Bool.not_eq_true', decide_eq_true_iff, lacks_iff]

/-! ## What validation says -/

/-- What becomes of labels with a history.  The keys that it lacks are reported together, in order;
then the date, if it cannot be read, as it was written; and otherwise the labels are valid, with the
commit and the recipe as they were written. -/
inductive Verdict (entries : List (String × String)) (family : Family) (image : String) :
    Except Refusal ValidLabels → Prop where
  | incomplete
      (hlacks : ∃ key ∈ family.labelKeys.all, Lacks entries key) :
      Verdict entries family image
        (.error (.missingLabels image (family.labelKeys.all.filter (Lacks entries ·))))
  | undated {text : String} (hcomplete : ∀ key ∈ family.labelKeys.all, ¬ Lacks entries key)
      (htext : LastWritten entries family.labelKeys.commitDate text)
      (hdate : Instant.read? text = none) :
      Verdict entries family image (.error (.badCommitDate image text))
  | valid {commit text recipeHash : String} {date : Instant}
      (hcomplete : ∀ key ∈ family.labelKeys.all, ¬ Lacks entries key)
      (hcommit : LastWritten entries family.labelKeys.commit commit)
      (htext : LastWritten entries family.labelKeys.commitDate text)
      (hdate : Instant.read? text = some date)
      (hrecipeHash : LastWritten entries family.labelKeys.recipeHash recipeHash) :
      Verdict entries family image (.ok ⟨family.labelKeys, commit, date, recipeHash⟩)

theorem Verdict.unique (h : Verdict entries family image r) (h' : Verdict entries family image r') :
    r = r' := by
  have hno {P : Prop} (hlacks : ∃ key ∈ family.labelKeys.all, Lacks entries key)
      (hcomplete : ∀ key ∈ family.labelKeys.all, ¬ Lacks entries key) : P := by
    obtain ⟨key, hkey, hlacks⟩ := hlacks
    exact absurd hlacks (hcomplete key hkey)
  cases h with
  | incomplete hlacks =>
    cases h' with
    | incomplete => rfl
    | undated hcomplete => exact hno hlacks hcomplete
    | valid hcomplete => exact hno hlacks hcomplete
  | undated hcomplete htext hdate =>
    cases h' with
    | incomplete hlacks => exact hno hlacks hcomplete
    | undated _ htext' => rw [htext.unique htext']
    | valid _ _ htext' hdate' =>
      rw [htext.unique htext', hdate'] at hdate
      cases hdate
  | valid hcomplete hcommit htext hdate hrecipeHash =>
    cases h' with
    | incomplete hlacks => exact hno hlacks hcomplete
    | undated _ htext' hdate' =>
      rw [htext.unique htext', hdate'] at hdate
      cases hdate
    | valid _ hcommit' htext' hdate' hrecipeHash' =>
      rw [htext.unique htext', hdate'] at hdate
      cases hdate
      rw [hcommit.unique hcommit', hrecipeHash.unique hrecipeHash']

theorem verdict_validate (entries : List (String × String)) (family : Family) (image : String) :
    Verdict entries family image ((empty.insertAll entries).validate family image) := by
  unfold validate
  dsimp only
  split
  next hmissing =>
    rw [missing_insertAll, List.filter_eq_nil_iff] at hmissing
    have hcomplete : ∀ key ∈ family.labelKeys.all, ¬ Lacks entries key := by
      simpa using hmissing
    have htext {key : String} (hkey : key ∈ family.labelKeys.all) :
        LastWritten entries key (((empty.insertAll entries).get? key).getD "") := by
      obtain ⟨text, htext, -⟩ := exists_of_not_lacks (hcomplete key hkey)
      rw [get?_insertAll.2 htext]
      exact htext
    split
    next date hdate =>
      exact .valid hcomplete (htext (by simp [LabelKeys.all])) (htext (by simp [LabelKeys.all]))
        hdate (htext (by simp [LabelKeys.all]))
    next hdate => exact .undated hcomplete (htext (by simp [LabelKeys.all])) hdate
  next hmissing =>
    rw [missing_insertAll] at hmissing ⊢
    obtain ⟨key, hkey⟩ := List.exists_mem_of_ne_nil _ hmissing
    rw [List.mem_filter, decide_eq_true_iff] at hkey
    exact .incomplete ⟨key, hkey⟩

theorem validate_insertAll_eq_iff :
    (empty.insertAll entries).validate family image = r ↔ Verdict entries family image r := by
  constructor
  · rintro rfl
    exact verdict_validate entries family image
  · exact (verdict_validate entries family image).unique

/-- Only what is written last under the keys of the family counts. -/
theorem Lacks.congr
    (hlast : ∀ value, LastWritten entries' key value ↔ LastWritten entries key value) :
    Lacks entries' key ↔ Lacks entries key := by
  have hlookup : entries'.reverse.lookup key = entries.reverse.lookup key :=
    Option.ext fun value => by rw [← lastWritten_iff, ← lastWritten_iff, hlast]
  rw [Lacks, Lacks, lastWritten_iff, lastWritten_iff, ← lookup_reverse_eq_none_iff,
    ← lookup_reverse_eq_none_iff, hlookup]

theorem Verdict.congr (h : Verdict entries family image r)
    (hlast : ∀ key ∈ family.labelKeys.all, ∀ value,
      LastWritten entries' key value ↔ LastWritten entries key value) :
    Verdict entries' family image r := by
  have hlacks {key : String} (hkey : key ∈ family.labelKeys.all) :
      Lacks entries' key ↔ Lacks entries key := Lacks.congr (hlast key hkey)
  have hcomplete (h : ∀ key ∈ family.labelKeys.all, ¬ Lacks entries key) :
      ∀ key ∈ family.labelKeys.all, ¬ Lacks entries' key :=
    fun key hkey => mt (hlacks hkey).1 (h key hkey)
  have hwritten {key text : String} (h : LastWritten entries key text)
      (hkey : key ∈ family.labelKeys.all) : LastWritten entries' key text :=
    (hlast key hkey text).2 h
  cases h with
  | incomplete h =>
    have hfilter : family.labelKeys.all.filter (Lacks entries ·) =
        family.labelKeys.all.filter (Lacks entries' ·) :=
      List.filter_congr fun key hkey => decide_eq_decide.2 (hlacks hkey).symm
    obtain ⟨key, hkey, h⟩ := h
    rw [hfilter]
    exact .incomplete ⟨key, hkey, (hlacks hkey).2 h⟩
  | undated h htext hdate =>
    exact .undated (hcomplete h) (hwritten htext (by simp [LabelKeys.all])) hdate
  | valid h hcommit htext hdate hrecipeHash =>
    exact .valid (hcomplete h) (hwritten hcommit (by simp [LabelKeys.all]))
      (hwritten htext (by simp [LabelKeys.all])) hdate
      (hwritten hrecipeHash (by simp [LabelKeys.all]))

/-- **Validation by history.**  Labels that come about by insertions are refused or valid as their
history tells: for the keys of the family that it lacks, all in one refusal; then for the text of
the date; and else with the texts as they were written last.  Another history with the same last
texts under these keys, whatever else is in it, gives the same result, and so do the same entries
collected in one go. -/
theorem validate_history (entries : List (String × String)) (family : Family) (image : String) :
    (∀ r, (empty.insertAll entries).validate family image = r ↔ Verdict entries family image r) ∧
      (∀ entries', (∀ key ∈ family.labelKeys.all, ∀ value,
          LastWritten entries' key value ↔ LastWritten entries key value) →
        (empty.insertAll entries').validate family image =
          (empty.insertAll entries).validate family image) ∧
      ofList entries = empty.insertAll entries := by
  refine ⟨fun r => validate_insertAll_eq_iff, fun entries' hlast => ?_, ofList_eq_insertAll entries⟩
  exact validate_insertAll_eq_iff.2 ((verdict_validate entries family image).congr hlast)

/-- A commit that is emptied and written again, a date that is blank, and labels of another family
in between. -/
theorem validate_history_overwritten :
    (empty.insertAll [("onnx_mlir_sha1", "a"), ("onnx_mlir_sha1_date", " "),
        ("llvm_project_sha1", "b"), ("onnx_mlir_sha1", ""), ("onnx_mlir_dockerfile_sha1", "c"),
        ("onnx_mlir_sha1", "d")]).validate .product "i" = .error (.badCommitDate "i" " ") ∧
      (empty.insertAll [("onnx_mlir_dockerfile_sha1", "c"), ("onnx_mlir_sha1_date", " "),
        ("onnx_mlir_sha1", "d")]).validate .product "i" = .error (.badCommitDate "i" " ") := by
  obtain ⟨hverdict, hsame, -⟩ := validate_history
    [("onnx_mlir_dockerfile_sha1", "c"), ("onnx_mlir_sha1_date", " "), ("onnx_mlir_sha1", "d")]
    .product "i"
  have hdate : (empty.insertAll [("onnx_mlir_dockerfile_sha1", "c"), ("onnx_mlir_sha1_date", " "),
      ("onnx_mlir_sha1", "d")]).validate .product "i" = .error (.badCommitDate "i" " ") := by
    refine (hverdict _).2 (.undated (by decide) ?_ (by decide))
    exact lastWritten_iff.2 (by decide)
  refine ⟨(hsame _ fun key hkey value => ?_).trans hdate, hdate⟩
  rw [lastWritten_iff, lastWritten_iff]
  have hkeys : ∀ key ∈ Family.product.labelKeys.all,
      [("onnx_mlir_sha1", "a"), ("onnx_mlir_sha1_date", " "), ("llvm_project_sha1", "b"),
        ("onnx_mlir_sha1", ""), ("onnx_mlir_dockerfile_sha1", "c"),
        ("onnx_mlir_sha1", "d")].reverse.lookup key =
      [("onnx_mlir_dockerfile_sha1", "c"), ("onnx_mlir_sha1_date", " "),
        ("onnx_mlir_sha1", "d")].reverse.lookup key := by decide
  rw [hkeys key hkey]

end Labels

end ImagePipeline
