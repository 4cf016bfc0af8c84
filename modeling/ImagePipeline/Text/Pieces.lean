/-!
# Cutting texts

Texts are cut at characters: into the pieces between separators, at the first separator, or
before the separators that end them. The functions on lists of characters do the work; those
on `String` only convert.

* `splitChars` yields one piece more than there are separators, so the empty text is one
  empty piece; `joinChars_splitChars` says that the pieces lose nothing.
* `cutChars` cuts at the first separator and drops it.
* `stripEndChars` removes the run of one character that ends a text.
-/

namespace ImagePipeline.Text

/-- The pieces between the separators. -/
def splitChars (sep : Char) : List Char → List (List Char)
  | [] => [[]]
  | c :: cs =>
    if c = sep then [] :: splitChars sep cs
    else
      match splitChars sep cs with
      | [] => [[c]]
      | piece :: pieces => (c :: piece) :: pieces

theorem splitChars_ne_nil (sep : Char) (cs : List Char) : splitChars sep cs ≠ [] := by
  cases cs with
  | nil => simp [splitChars]
  | cons c cs =>
    rw [splitChars]
    split
    · simp
    · split <;> simp

/-- The pieces with a separator between each two of them. -/
def joinChars (sep : Char) : List (List Char) → List Char
  | [] => []
  | [piece] => piece
  | piece :: pieces => piece ++ sep :: joinChars sep pieces

/-- Joining the pieces gives the text back. -/
theorem joinChars_splitChars (sep : Char) (cs : List Char) :
    joinChars sep (splitChars sep cs) = cs := by
  induction cs with
  | nil => rfl
  | cons c cs ih =>
    rw [splitChars]
    split
    · next h =>
      subst h
      cases hs : splitChars c cs with
      | nil => exact absurd hs (splitChars_ne_nil _ _)
      | cons p ps => rw [← ih, hs]; rfl
    · cases hs : splitChars sep cs with
      | nil => exact absurd hs (splitChars_ne_nil _ _)
      | cons p ps =>
        rw [hs] at ih
        cases ps with
        | nil => simpa [joinChars] using ih
        | cons q qs => simpa [joinChars] using ih

/-- The pieces of a text between the separators. -/
def split (sep : Char) (s : String) : List String :=
  (splitChars sep s.toList).map String.ofList

/-- What stands before the first separator and what stands after it. -/
def cutChars (sep : Char) : List Char → Option (List Char × List Char)
  | [] => none
  | c :: cs =>
    if c = sep then some ([], cs)
    else (cutChars sep cs).map fun (left, right) => (c :: left, right)

/-- What stands before the first separator of a text and what stands after it. -/
def cut (sep : Char) (s : String) : Option (String × String) :=
  (cutChars sep s.toList).map fun (left, right) => (String.ofList left, String.ofList right)

/-- Cutting loses only the separator, and the part before it holds none. -/
theorem cutChars_eq_some_iff {sep : Char} {cs left right : List Char} :
    cutChars sep cs = some (left, right) ↔ cs = left ++ sep :: right ∧ sep ∉ left := by
  induction cs generalizing left with
  | nil => simp [cutChars]
  | cons c cs ih =>
    rw [cutChars]
    split
    · next h =>
      subst h
      cases left with
      | nil => simp
      | cons l ls => simp; intro h; simp [h]
    · next h =>
      cases left with
      | nil => simp [h]
      | cons l ls =>
        simp only [Option.map_eq_some_iff, Prod.exists, Prod.mk.injEq, List.cons.injEq,
          List.cons_append, List.mem_cons, not_or]
        constructor
        · rintro ⟨a, b, hab, ⟨rfl, rfl⟩, rfl⟩
          obtain ⟨rfl, hn⟩ := ih.1 hab
          exact ⟨⟨rfl, rfl⟩, Ne.symm h, hn⟩
        · rintro ⟨⟨rfl, rfl⟩, -, hn⟩
          exact ⟨ls, right, ih.2 ⟨rfl, hn⟩, ⟨rfl, rfl⟩, rfl⟩

/-- The characters without the run of `c` that ends them. -/
def stripEndChars (c : Char) (cs : List Char) : List Char :=
  (cs.reverse.dropWhile (· == c)).reverse

/-- The text without the run of `c` that ends it. -/
def stripEnd (c : Char) (s : String) : String :=
  String.ofList (stripEndChars c s.toList)

/-- What follows a given beginning. -/
def afterPrefix? : List Char → List Char → Option (List Char)
  | [], cs => some cs
  | _ :: _, [] => none
  | p :: ps, c :: cs => if p = c then afterPrefix? ps cs else none

theorem afterPrefix?_eq_some_iff {ps cs rest : List Char} :
    afterPrefix? ps cs = some rest ↔ cs = ps ++ rest := by
  induction ps generalizing cs with
  | nil => simp [afterPrefix?, eq_comm]
  | cons p ps ih =>
    cases cs with
    | nil => simp [afterPrefix?]
    | cons c cs =>
      rw [afterPrefix?]
      split
      · next h => subst h; simp [ih]
      · next h => simp [Ne.symm h]

/-- Whether a text begins with another. -/
def startsWith (start s : String) : Bool :=
  (afterPrefix? start.toList s.toList).isSome

/-- Whether a text ends with another. -/
def endsWith (finish s : String) : Bool :=
  (afterPrefix? finish.toList.reverse s.toList.reverse).isSome

end ImagePipeline.Text
