import ImagePipeline.Build.Recipe
import ImagePipeline.Proofs.SecureHash

/-!
# The digest of a file that is read in pieces

A file is hashed while it is read, and a read may deliver any number of bytes up to the room that
there is.  Between two reads the hasher keeps the bytes of the block that is not yet complete.

* `Hasher.Holds`: what a hasher remembers of a message, namely the digest of its complete blocks and
  the bytes after them; `holds_pushByte` and `holds_push` say that no cut of the message shows.
* `finish_of_holds`: when the padding has followed, no byte is left over.
* `delivers_fullReads`, `digestReads_eq`: the reads of a file deliver its bytes in order.
* `fileDigest_of_delivers`: so the digest of a file is that of the standard, whatever the reads.
-/

namespace ImagePipeline

namespace Sha1

variable {message : List UInt8} {h : Hasher} {n : Nat}

/-! ## A message that arrives in pieces -/

/-- A hasher has taken in a message: it has the digest of the complete blocks, and waits with the
bytes after them. -/
structure Hasher.Holds (h : Hasher) (message : List UInt8) : Prop where
  length_eq : h.length = message.length
  digest_eq : h.digest =
    (blocks (message.length / 64) message).foldl Digest.absorb .start
  pending_eq : h.pending.reverse = message.drop (64 * (message.length / 64))

theorem holds_empty : Hasher.empty.Holds [] := ⟨rfl, rfl, rfl⟩

theorem blocks_append (hlong : 64 * n ≤ message.length) (more : List UInt8) :
    blocks n (message ++ more) = blocks n message := by
  induction n with
  | zero => rfl
  | succ n ih =>
    rw [blocks_succ, blocks_succ, ih (by omega), List.drop_append_of_le_length (by omega),
      List.take_append_of_le_length (by rw [List.length_drop]; omega)]

/-- The byte that completes a block takes the waiting bytes with it. -/
theorem holds_pushByte (hholds : h.Holds message) (byte : UInt8) :
    (h.pushByte byte).Holds (message ++ [byte]) := by
  obtain ⟨hlength, hdigest, hpending⟩ := hholds
  have hcomplete : 64 * (message.length / 64) ≤ message.length := Nat.mul_div_le _ _
  rw [Hasher.pushByte, hlength]
  split
  next hfull =>
    have hcount : (message.length + 1) / 64 = message.length / 64 + 1 := by omega
    refine ⟨by rw [List.length_append, List.length_singleton], ?_, ?_⟩
    · rw [List.length_append, List.length_singleton, hcount, blocks_succ,
        blocks_append hcomplete, List.foldl_append, ← hdigest,
        List.drop_append_of_le_length hcomplete, ← hpending, List.reverse_cons,
        List.take_of_length_le]
      · rfl
      · rw [hpending, List.length_append, List.length_drop, List.length_singleton]
        omega
    · rw [List.length_append, List.length_singleton, hcount, List.drop_eq_nil_of_le]
      · rfl
      · rw [List.length_append, List.length_singleton]
        omega
  next hopen =>
    have hcount : (message.length + 1) / 64 = message.length / 64 := by omega
    refine ⟨by rw [List.length_append, List.length_singleton], ?_, ?_⟩
    · rw [List.length_append, List.length_singleton, hcount, blocks_append hcomplete, hdigest]
    · rw [List.length_append, List.length_singleton, hcount,
        List.drop_append_of_le_length hcomplete, ← hpending, List.reverse_cons]

theorem holds_push (hholds : h.Holds message) (piece : List UInt8) :
    (h.push piece).Holds (message ++ piece) := by
  induction piece generalizing h message with
  | nil =>
    rw [List.append_nil]
    exact hholds
  | cons byte piece ih =>
    rw [← List.singleton_append, ← List.append_assoc]
    exact ih (holds_pushByte hholds byte)

/-- The digest of a message that has been taken in. -/
theorem finish_of_holds (hholds : h.Holds message) : h.finish = ofMessage message := by
  rw [Hasher.finish, hholds.length_eq, (holds_push hholds (padding message.length)).digest_eq]
  rfl

/-! ## The text of a digest -/

/-- The digest of the standard in hexadecimal notation. -/
def hexDigest (message : List UInt8) : String :=
  String.ofList (Standard.hexDigits (Standard.digest (bitsOf message)))

theorem length_hexDigits (bits : List Bool) :
    (Standard.hexDigits bits).length = bits.length / 4 := by
  fun_induction Standard.hexDigits bits with
  | case1 a b c d rest ih =>
    simp only [List.length_cons, ih]
    omega
  | case2 bits hshort =>
    have hlt : bits.length < 4 := by
      match bits, hshort with
      | [], _ | [_], _ | [_, _], _ | [_, _, _], _ => simp
      | a :: b :: c :: d :: rest, hshort => exact absurd rfl (hshort a b c d rest)
    rw [List.length_nil, Nat.div_eq_of_lt hlt]

/-- All digits are in lower case. -/
theorem mem_hexDigits {bits : List Bool} {c : Char} (hc : c ∈ Standard.hexDigits bits) :
    c ∈ "0123456789abcdef".toList := by
  have hdigit : ∀ a b c d,
      (Standard.number [a, b, c, d]).digitChar ∈ "0123456789abcdef".toList := by
    decide
  fun_induction Standard.hexDigits bits with
  | case1 a b c d rest ih =>
    rcases List.mem_cons.1 hc with rfl | hc
    · exact hdigit a b c d
    · exact ih hc
  | case2 => cases hc

/-- A digest has forty digits. -/
theorem length_hexDigest (message : List UInt8) : (hexDigest message).length = 40 := by
  have hbits : ∀ v : Standard.Value, v.bits.length = 160 := fun v => by
    simp only [Standard.Value.bits, List.flatMap_cons, List.flatMap_nil, List.length_append,
      Standard.length_bits, List.length_nil]
  rw [hexDigest, String.length_ofList, length_hexDigits, Standard.digest, hbits]

end Sha1

namespace Build

open Files (Tree Location)

variable {content : List UInt8} {reads : List (List UInt8)} {t : Tree} {here : Location}
  {path : String}

/-! ## The reads of a file -/

/-- Some reads deliver a content: its bytes in order, in each read at least one of them and as many
as there is room for at most. -/
structure Delivers (content : List UInt8) (reads : List (List UInt8)) : Prop where
  flatten_eq : reads.flatten = content
  ne_nil : ∀ piece ∈ reads, piece ≠ []
  length_le : ∀ piece ∈ reads, piece.length ≤ pieceSize

theorem flatten_fullReads {size : Nat} (hsize : 0 < size) (bytes : List UInt8) :
    (fullReads size bytes).flatten = bytes := by
  fun_induction fullReads size bytes with
  | case1 bytes hend =>
    rw [hend.resolve_left (Nat.ne_of_gt hsize)]
    rfl
  | case2 bytes _ ih => rw [List.flatten_cons, ih, List.take_append_drop]

theorem mem_fullReads {size : Nat} {bytes piece : List UInt8}
    (hpiece : piece ∈ fullReads size bytes) : piece ≠ [] ∧ piece.length ≤ size := by
  fun_induction fullReads size bytes with
  | case1 => cases hpiece
  | case2 bytes hmore ih =>
    rcases List.mem_cons.1 hpiece with rfl | hpiece
    · rw [not_or] at hmore
      exact ⟨fun hnil => (List.take_eq_nil_iff.1 hnil).elim hmore.1 hmore.2,
        List.length_take_le _ _⟩
    · exact ih hpiece

/-- Full reads deliver a content. -/
theorem delivers_fullReads (content : List UInt8) :
    Delivers content (fullReads pieceSize content) :=
  ⟨flatten_fullReads (by decide) content, fun _ hpiece => (mem_fullReads hpiece).1,
    fun _ hpiece => (mem_fullReads hpiece).2⟩

/-- No read of a content is taken for the end of the file. -/
theorem digestReads_eq (hreads : ∀ piece ∈ reads, piece ≠ []) (h : Sha1.Hasher) :
    digestReads h reads = h.push reads.flatten := by
  induction reads generalizing h with
  | nil => rfl
  | cons piece reads ih =>
    obtain ⟨byte, rest, rfl⟩ := List.exists_cons_of_ne_nil (hreads piece List.mem_cons_self)
    rw [digestReads, ih (fun piece hpiece => hreads piece (List.mem_cons_of_mem _ hpiece)),
      List.flatten_cons, Sha1.Hasher.push_append]
    exact List.cons_ne_nil _ _

/-- The digest of what some reads deliver. -/
theorem toHex_digestReads (hreads : Delivers content reads) :
    (digestReads .empty reads).finish.toHex = Sha1.hexDigest content := by
  have hholds : (Sha1.Hasher.empty.push reads.flatten).Holds ([] ++ reads.flatten) :=
    Sha1.holds_push Sha1.holds_empty reads.flatten
  rw [digestReads_eq hreads.ne_nil, Sha1.finish_of_holds hholds, List.nil_append,
    hreads.flatten_eq, Sha1.toHex_ofMessage, Sha1.hexDigest]

/-- **The digest of a file.**  If a path leads to a file, its digest is the SHA-1 digest of the
standard of the whole content, in forty hexadecimal digits in lower case, however the reads deliver
the content. -/
theorem fileDigest_of_delivers (hread : t.readBytes here path = .ok content) :
    (Sha1.hexDigest content).length = 40 ∧
      (∀ c ∈ (Sha1.hexDigest content).toList, c ∈ "0123456789abcdef".toList) ∧
      (∀ deliver, Delivers content (deliver content) →
        fileDigestBy deliver t here path = .ok (Sha1.hexDigest content)) ∧
      fileDigest t here path = .ok (Sha1.hexDigest content) := by
  have hdigest : ∀ deliver, Delivers content (deliver content) →
      fileDigestBy deliver t here path = .ok (Sha1.hexDigest content) := by
    intro deliver hdeliver
    rw [fileDigestBy, hread]
    exact congrArg Except.ok (toHex_digestReads hdeliver)
  refine ⟨Sha1.length_hexDigest content, fun c hc => ?_, hdigest,
    hdigest _ (delivers_fullReads content)⟩
  rw [Sha1.hexDigest, String.toList_ofList] at hc
  exact Sha1.mem_hexDigits hc

/-- A file of three bytes, read byte by byte. -/
theorem fileDigest_byte_by_byte :
    let t := Files.Tree.empty.put [] "abc" (.file [0x61, 0x62, 0x63])
    t.readBytes [] "/abc" = .ok [0x61, 0x62, 0x63] ∧
      Delivers [0x61, 0x62, 0x63] ([0x61, 0x62, 0x63].map fun byte => [byte]) ∧
      fileDigestBy (fun bytes => bytes.map fun byte => [byte]) t [] "/abc" =
        fileDigest t [] "/abc" := by
  intro t
  have hread : t.readBytes [] "/abc" = .ok [0x61, 0x62, 0x63] := by decide +kernel
  have hdeliver : Delivers [0x61, 0x62, 0x63] ([0x61, 0x62, 0x63].map fun byte => [byte]) :=
    ⟨rfl, by simp, by simp [pieceSize]⟩
  obtain ⟨-, -, hdigest, hfull⟩ := fileDigest_of_delivers hread
  exact ⟨hread, hdeliver, (hdigest _ hdeliver).trans hfull.symm⟩

end Build

end ImagePipeline
