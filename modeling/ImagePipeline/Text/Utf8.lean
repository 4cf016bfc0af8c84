/-!
# UTF-8

Bytes of a text and the text of bytes. Only well-formed UTF-8 is a text: surrogates, overlong
forms and cut sequences are refused.

* `decode_encode`: the bytes of a text denote that text.
* `encode_of_decode`: no other bytes do.
-/

namespace ImagePipeline.Text

/-- The UTF-8 bytes of a text. -/
def encode (s : String) : List UInt8 :=
  s.toByteArray.data.toList

/-- The text that the bytes are, if they are well-formed UTF-8. -/
def decode (bytes : List UInt8) : Option String :=
  String.fromUTF8? ⟨bytes.toArray⟩

theorem fromUTF8?_toByteArray (s : String) : String.fromUTF8? s.toByteArray = some s := by
  unfold String.fromUTF8?
  rw [dif_pos s.isValidUTF8]
  rfl

theorem decode_encode (s : String) : decode (encode s) = some s := by
  have h : (⟨(encode s).toArray⟩ : ByteArray) = s.toByteArray := by
    simp [encode]
  rw [decode, h, fromUTF8?_toByteArray]

theorem encode_of_decode {bytes : List UInt8} {s : String} (h : decode bytes = some s) :
    encode s = bytes := by
  unfold decode String.fromUTF8? at h
  split at h
  · cases h; simp [encode, String.fromUTF8]
  · simp at h

end ImagePipeline.Text
