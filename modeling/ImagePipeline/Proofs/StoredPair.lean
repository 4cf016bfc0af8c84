import ImagePipeline.Build.Credentials
import ImagePipeline.Proofs.TextPieces
import ImagePipeline.Proofs.TrimmedText
import ImagePipeline.Proofs.WrittenBase64
import Mathlib.Logic.ExistsUnique

/-!
# Stored credentials

The engine's configuration file keeps a user and a password as one text with a colon between them,
and that text as the written form of its UTF-8 bytes.  The user ends at the first colon, so the
password may hold more of them.

* `Stores`: a stored text is the written form of a text, with blanks around it.
* `Faulty`: the two ways in which it may be the written form of none.
* `decode_of_stores`, `decode_of_faulty`, `stores_or_faulty`: what is read in each case, and that
  there is no other.
* `decode_stored`: a pair is read exactly if it is stored.
-/

namespace ImagePipeline

theorem Text.encode_ne_nil {s : String} (h : s ≠ "") : encode s ≠ [] := by
  intro hnil
  have hread := decode_encode s
  rw [hnil, show decode [] = some "" from rfl] at hread
  exact h (Option.some.inj hread).symm

/-- What is written of some bytes is not empty. -/
theorem Base64.Spelling.chars_ne_nil {bytes : List UInt8} (hbytes : bytes ≠ [])
    (s : Spelling bytes) : s.chars ≠ [] := by
  intro hnil
  have hread := decode_eq_some_iff.2 ⟨s, hnil.symm⟩
  exact hbytes (Option.some.inj hread).symm

namespace Credentials

variable {registry auth text user password : String} {fault : CredentialsFault}

/-- A stored text is the written form of a text, with blanks around it. -/
def Stores (auth text : String) : Prop :=
  ∃ s : Base64.Spelling (Text.encode text), (Text.trim auth).toList = s.chars

/-- What may be wrong with a stored text: it is the written form of no bytes, or of bytes that are
not those of a text. -/
inductive Faulty (auth : String) : CredentialsFault → Prop where
  | badEncoding (h : ∀ bytes (s : Base64.Spelling bytes), (Text.trim auth).toList ≠ s.chars) :
      Faulty auth .badEncoding
  | notText {bytes : List UInt8} (s : Base64.Spelling bytes)
      (hs : (Text.trim auth).toList = s.chars) (h : ∀ text, Text.encode text ≠ bytes) :
      Faulty auth .notText

theorem decode_of_stores (registry : String) (h : Stores auth text) :
    decode registry auth =
      .ok ((Text.cut ':' text).map fun (user, password) => ⟨user, password, registry⟩) := by
  obtain ⟨s, hs⟩ := h
  rw [Text.toList_trim] at hs
  have hbytes := Base64.decode_eq_some_iff.2 ⟨s, hs⟩
  simp only [decode, hbytes, Text.decode_encode]

theorem decode_of_faulty (registry : String) (h : Faulty auth fault) :
    decode registry auth = .error (.credentials registry fault) := by
  cases h with
  | badEncoding h =>
    have hbytes : Base64.decode (Text.trimChars auth.toList) = none := by
      refine Option.eq_none_iff_forall_not_mem.2 fun bytes hread => ?_
      obtain ⟨s, hs⟩ := Base64.decode_eq_some_iff.1 hread
      exact h bytes s ((Text.toList_trim auth).trans hs)
    simp only [decode, hbytes]
  | notText s hs h =>
    rw [Text.toList_trim] at hs
    have hbytes := Base64.decode_eq_some_iff.2 ⟨s, hs⟩
    have htext : Text.decode _ = none :=
      Option.eq_none_iff_forall_not_mem.2 fun text hread => h text (Text.encode_of_decode hread)
    simp only [decode, hbytes, htext]

/-- A stored text is the written form of a text, or one of the two faults is there. -/
theorem stores_or_faulty (auth : String) :
    (∃ text, Stores auth text) ∨ ∃ fault, Faulty auth fault := by
  by_cases hspelled : ∃ bytes, ∃ s : Base64.Spelling bytes, (Text.trim auth).toList = s.chars
  · obtain ⟨bytes, s, hs⟩ := hspelled
    by_cases htext : ∃ text, Text.encode text = bytes
    · obtain ⟨text, rfl⟩ := htext
      exact .inl ⟨text, s, hs⟩
    · exact .inr ⟨_, .notText s hs (not_exists.1 htext)⟩
  · exact .inr ⟨_, .badEncoding fun bytes s hs => hspelled ⟨bytes, s, hs⟩⟩

/-- No other pair is read than one that is stored. -/
theorem stores_of_decode {c : Credentials} (h : decode registry auth = .ok (some c)) :
    c.registry = registry ∧ ':' ∉ c.user.toList ∧ Stores auth (c.user ++ ":" ++ c.password) := by
  rcases stores_or_faulty auth with ⟨text, hstores⟩ | ⟨fault, hfaulty⟩
  · obtain ⟨⟨user, password⟩, hcut, rfl⟩ :=
      Option.map_eq_some_iff.1 (Except.ok.inj ((decode_of_stores registry hstores).symm.trans h))
    obtain ⟨rfl, hcolon⟩ := Text.cut_eq_some_iff.1 hcut
    exact ⟨rfl, hcolon, hstores⟩
  · exact nomatch (decode_of_faulty registry hfaulty).symm.trans h

theorem decode_of_stores_pair (hcolon : ':' ∉ user.toList)
    (h : Stores auth (user ++ ":" ++ password)) :
    decode registry auth = .ok (some ⟨user, password, registry⟩) := by
  have hcut : Text.cut ':' (user ++ ":" ++ password) = some (user, password) :=
    Text.cut_eq_some_iff.2 ⟨rfl, hcolon⟩
  rw [decode_of_stores registry h, hcut]
  rfl

/-- The written form of a text stores it, whatever blanks are around. -/
theorem stores_blank (htext : text ≠ "") {front back : List Char}
    (hblank : ∀ c ∈ front ++ back, Text.isBlank c = true)
    (s : Base64.Spelling (Text.encode text)) :
    Stores (String.ofList (front ++ (s.chars ++ back))) text := by
  refine ⟨s, ?_⟩
  rw [Text.toList_trim, String.toList_ofList]
  refine Text.trimChars_append_of_no_blank hblank (fun c hc => ?_)
    (s.chars_ne_nil (Text.encode_ne_nil htext))
  exact Base64.isBlank_of_mem_encode (s.chars_eq ▸ hc)

/-- **Stored pairs.**  For every user without a colon and every password, the written form of the
two with a colon between them is read as this user and password, whatever blanks are around it.
Nothing else is read as a pair: without its blanks, a stored text that is read as one is the written
form of the pair, and the user has no colon.  Bytes of any number have just one written form. -/
theorem decode_stored (registry : String) :
    (∀ (user password : String) (front back : List Char)
      (s : Base64.Spelling (Text.encode (user ++ ":" ++ password))),
        ':' ∉ user.toList → (∀ c ∈ front ++ back, Text.isBlank c = true) →
          decode registry (String.ofList (front ++ (s.chars ++ back))) =
            .ok (some ⟨user, password, registry⟩)) ∧
    (∀ (auth : String) (c : Credentials), decode registry auth = .ok (some c) →
      c.registry = registry ∧ ':' ∉ c.user.toList ∧
        ∃ s : Base64.Spelling (Text.encode (c.user ++ ":" ++ c.password)),
          (Text.trim auth).toList = s.chars) ∧
    ∀ bytes, ∃! chars, ∃ s : Base64.Spelling bytes, s.chars = chars := by
  refine ⟨fun user password front back s hcolon hblank => ?_, fun auth c => stores_of_decode,
    fun bytes => ?_⟩
  · have htext : user ++ ":" ++ password ≠ "" := by simp
    exact decode_of_stores_pair hcolon (stores_blank htext hblank s)
  · obtain ⟨s, hs⟩ := Base64.Spelling.exists_chars_eq_encode bytes
    exact ⟨s.chars, ⟨s, rfl⟩, fun chars ⟨s', hs'⟩ => hs' ▸ s'.chars_unique s⟩

/-- A password with a colon and a character of two bytes, and blanks at both ends. -/
theorem decode_stored_blanks :
    decode "docker.io" "\tb25ueG1saXI6YTrDqQ==\n" =
        .ok (some ⟨"onnxmlir", "a:é", "docker.io"⟩) ∧
      ':' ∉ "onnxmlir".toList ∧
        ∃ s : Base64.Spelling (Text.encode ("onnxmlir" ++ ":" ++ "a:é")),
          (Text.trim "\tb25ueG1saXI6YTrDqQ==\n").toList = s.chars := by
  obtain ⟨hread, hstored, -⟩ := decode_stored "docker.io"
  obtain ⟨s, hs⟩ := Base64.Spelling.exists_chars_eq_encode
    (Text.encode ("onnxmlir" ++ ":" ++ "a:é"))
  have hchars : s.chars = "b25ueG1saXI6YTrDqQ==".toList := hs.trans (by decide +kernel)
  have hblank : ∀ c ∈ ['\t'] ++ ['\n'], Text.isBlank c = true := List.all_eq_true.1 rfl
  have hauth : String.ofList (['\t'] ++ (s.chars ++ ['\n'])) = "\tb25ueG1saXI6YTrDqQ==\n" := by
    rw [hchars]
    decide +kernel
  have hpair := hread "onnxmlir" "a:é" ['\t'] ['\n'] s (by decide) hblank
  rw [hauth] at hpair
  exact ⟨hpair, (hstored _ _ hpair).2⟩

end Credentials

end ImagePipeline
