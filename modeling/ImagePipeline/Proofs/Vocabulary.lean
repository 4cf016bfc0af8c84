import ImagePipeline.BuildOutcome
import ImagePipeline.Image.Kind
import ImagePipeline.Proofs.LetterCase
import ImagePipeline.Proofs.TrimmedText
import ImagePipeline.PullRequest.Action
import ImagePipeline.PullRequest.Mergeability
import ImagePipeline.PullRequest.Trigger
import Mathlib.Data.List.Find

/-!
# Vocabularies

States of pull requests, outcomes of builds, actions and trigger phrases are words of small
vocabularies.  A text is read after trimming, two of the four in any letter case, and one that is no
word means something all the same.  What a text is read as has a text of its own, and reading that
one changes nothing.

* `IsStable`: words are read from their texts, what was read is read again from its text, no text
  that is kept is that of a word, and blanks around a text do not matter.
* `Vocabulary`: what the four readers have in common; `Vocabulary.isStable`.
* `find?_lowerIn`: where words end, which decides about a letter's lower-case form, does not matter.
* `readers_stable`: all four readers are stable, and the one of image kinds as far as it reads.
-/

namespace ImagePipeline

open PullRequest (Action Mergeability Trigger)

variable {α : Type}

/-- A reader of a vocabulary does not change what it has read. -/
structure IsStable (words : List α) (text : α → String) (read : String → α) : Prop where
  /-- A word is read from its text. -/
  read_text : ∀ a ∈ words, read (text a) = a
  /-- What was read from any text is read again from its own. -/
  read_text_read : ∀ s, read (text (read s)) = read s
  /-- What is no word shows the text it was read from, without the blanks at both ends, and that
  text is not the one of a word. -/
  of_not_mem : ∀ s, read s ∉ words →
    text (read s) = Text.trim s ∧ ∀ a ∈ words, text a ≠ text (read s)
  /-- Blanks around a text do not matter. -/
  read_surrounded : ∀ (front s back : String),
    (∀ c ∈ front.toList ++ back.toList, Text.isBlank c = true) → read (front ++ s ++ back) = read s

/-- A vocabulary: words with texts that tell them apart, and what any other text means, which is one
of the words or keeps the text. -/
structure Vocabulary (α : Type) where
  words : List α
  text : α → String
  /-- What a text that is no word means. -/
  otherwise : String → α
  /-- How letters are made alike before texts are compared. -/
  fold : String → String
  find?_text : ∀ a ∈ words, words.find? (text · == text a) = some a
  fold_trim_text : ∀ a ∈ words, fold (Text.trim (text a)) = text a
  otherwise_text : ∀ s, otherwise (fold s) ∈ words ∨ text (otherwise (fold s)) = s

namespace Vocabulary

variable {v : Vocabulary α} {a : α}

/-- What a text means when it is trimmed and its letters are made alike. -/
def read (v : Vocabulary α) (s : String) : α :=
  (v.words.find? (v.text · == v.fold (Text.trim s))).getD (v.otherwise (v.fold (Text.trim s)))

theorem read_congr {s t : String} (h : Text.trim s = Text.trim t) : v.read s = v.read t := by
  rw [read, read, h]

theorem read_text_of_mem (ha : a ∈ v.words) : v.read (v.text a) = a := by
  rw [read, v.fold_trim_text a ha, v.find?_text a ha, Option.getD_some]

/-- What is read is a word, or keeps the text that was trimmed. -/
theorem read_mem_or (v : Vocabulary α) (s : String) :
    v.read s ∈ v.words ∨ v.text (v.read s) = Text.trim s := by
  unfold read
  cases hfind : v.words.find? (v.text · == v.fold (Text.trim s)) with
  | some b => exact .inl (List.mem_of_find?_eq_some hfind)
  | none => exact v.otherwise_text (Text.trim s)

theorem read_text_read (v : Vocabulary α) (s : String) : v.read (v.text (v.read s)) = v.read s := by
  rcases v.read_mem_or s with hword | htext
  · exact read_text_of_mem hword
  · rw [htext]
    exact read_congr (Text.trim_trim s)

/-- Readers of vocabularies are stable. -/
theorem isStable (v : Vocabulary α) : IsStable v.words v.text v.read where
  read_text _ := read_text_of_mem
  read_text_read := v.read_text_read
  of_not_mem s hs := by
    refine ⟨(v.read_mem_or s).resolve_left hs, fun a ha heq => hs ?_⟩
    have hread : v.read s = a := by rw [← v.read_text_read s, ← heq, read_text_of_mem ha]
    exact hread ▸ ha
  read_surrounded _ s _ hblank := read_congr (Text.trim_surrounded hblank s)

end Vocabulary

/-! ## The four vocabularies -/

/-- The states of a pull request, in small letters. -/
def PullRequest.Mergeability.vocabulary : Vocabulary Mergeability where
  words := Mergeability.all
  text := Mergeability.name
  otherwise _ := .unknown
  fold := Text.lower
  find?_text := by decide
  fold_trim_text := by decide
  otherwise_text _ := .inl (by decide)

/-- The outcomes of a build, in capital letters. -/
def BuildOutcome.vocabulary : Vocabulary BuildOutcome where
  words := BuildOutcome.all
  text := BuildOutcome.name
  otherwise _ := .unknown
  fold := Text.upper
  find?_text := by decide
  fold_trim_text := by decide
  otherwise_text _ := .inl (by decide)

/-- The actions, as they are written. -/
def PullRequest.Action.vocabulary : Vocabulary Action where
  words := Action.known
  text := Action.text
  otherwise := .other
  fold := id
  find?_text := by decide
  fold_trim_text := by decide
  otherwise_text _ := .inr rfl

/-- The trigger phrases, as they are written. -/
def PullRequest.Trigger.vocabulary : Vocabulary Trigger where
  words := Trigger.known
  text := Trigger.text
  otherwise := .other
  fold := id
  find?_text := by decide
  fold_trim_text := by decide
  otherwise_text _ := .inr rfl

/-! ## Small letters -/

/-- The first word whose text is the lower-case form of a text is the same by any rule that tells
where words end. -/
theorem find?_lowerIn {words : List α} {text : α → String}
    (hascii : ∀ a ∈ words, (text a).toList.all (·.toNat < 128) = true)
    (final : List Char → List Char → Bool) (s : String) :
    words.find? (text · == Text.lowerIn final s) = words.find? (text · == Text.lower s) := by
  refine List.find?_congr fun a ha => ?_
  have hword : ∀ c ∈ (text a).toList, c.toNat < 128 := by simpa using hascii a ha
  rw [Bool.eq_iff_iff, beq_iff_eq, beq_iff_eq, eq_comm, Text.lowerIn_eq_iff hword, eq_comm]

theorem PullRequest.Mergeability.ofName_lowerIn (final : List Char → List Char → Bool)
    (s : String) : ofName (Text.lowerIn final s) = ofName (Text.lower s) := by
  rw [ofName, ofName, find?_lowerIn (by decide)]

theorem ImageKind.ofName?_lowerIn (final : List Char → List Char → Bool) (s : String) :
    ofName? (Text.lowerIn final s) = ofName? (Text.lower s) :=
  find?_lowerIn (by decide) final s

/-- An image kind is read again from its name. -/
theorem ImageKind.read?_name (kind : ImageKind) : read? kind.name = some kind := by
  have hlower : Text.lower kind.name = kind.name := by
    cases kind <;> decide
  rw [read?, hlower, ofName_name]

/-! ## All readers -/

/-- **What is read from a text is read again from its own text.**  Trimming takes away the white
space at both ends of a text and nothing else.  On that ground the readers of states, outcomes,
actions and trigger phrases are stable; and the kind of an image, where a text names one, is read
again from its name.  States and image kinds are read in small letters; whichever rule tells where a
word ends, and with it the form of a sigma, they are read the same. -/
theorem readers_stable (final : List Char → List Char → Bool) :
    (∀ s, Text.TrimsTo s.toList (Text.trim s).toList) ∧
    IsStable Mergeability.all Mergeability.name Mergeability.read ∧
    IsStable BuildOutcome.all BuildOutcome.name BuildOutcome.read ∧
    IsStable Action.known Action.text Action.read ∧
    IsStable Trigger.known Trigger.text Trigger.read ∧
    (∀ s kind, ImageKind.read? s = some kind → ImageKind.read? kind.name = some kind) ∧
    ∀ s, Mergeability.ofName (Text.lowerIn final (Text.trim s)) = Mergeability.read s ∧
      ImageKind.ofName? (Text.lowerIn final s) = ImageKind.read? s := by
  -- Each of the four readers is by definition that of its vocabulary.
  refine ⟨fun s => ?_, Mergeability.vocabulary.isStable, BuildOutcome.vocabulary.isStable,
    Action.vocabulary.isStable, Trigger.vocabulary.isStable, fun _ kind _ => kind.read?_name,
    fun s => ⟨Mergeability.ofName_lowerIn final _, ImageKind.ofName?_lowerIn final s⟩⟩
  rw [Text.toList_trim]
  exact Text.trimChars_eq_iff.1 rfl

/-- Foreign letters and foreign blanks: a Kelvin sign is a `k` and a dotless `ı` is an `I`.  A text
that is kept loses its blanks once. -/
theorem readers_stable_foreign :
    Mergeability.read ("\u3000" ++ "bloc\u212Aed" ++ "\u0085\n") = .blocked ∧
    BuildOutcome.read ("\u2028" ++ "fa\u0131lure" ++ "") = .failure ∧
    Action.read (Action.read "\u00A0edited ").text = .other "edited" ∧
    Trigger.read ("" ++ "test this" ++ "\t") = .other "test this" ∧
    ImageKind.read? "USR" = some .usr ∧ ImageKind.read? ImageKind.usr.name = some .usr := by
  obtain ⟨-, hstate, houtcome, haction, htrigger, hkind, -⟩ := readers_stable fun _ _ => true
  have husr : ImageKind.read? "USR" = some .usr := by decide
  refine ⟨?_, ?_, ?_, ?_, husr, hkind _ _ husr⟩
  · rw [hstate.read_surrounded _ _ _ (List.all_eq_true.1 (by decide))]
    decide
  · rw [houtcome.read_surrounded _ _ _ (List.all_eq_true.1 (by decide))]
    decide
  · rw [haction.read_text_read]
    decide
  · rw [htrigger.read_surrounded _ _ _ (List.all_eq_true.1 (by decide))]
    decide

end ImagePipeline
