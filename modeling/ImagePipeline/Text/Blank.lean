/-!
# White space and trimming

`isBlank` is the Unicode property White_Space, which is wider than `Char.isWhitespace` and
narrower than "invisible": zero-width characters and the byte order mark are not in it.

* `trim` removes the blank characters at both ends of a text and nothing else.
* `isBlankText` holds of the texts that trimming empties.
-/

namespace ImagePipeline.Text

/-- The characters with the White_Space property. -/
def isBlank (c : Char) : Bool :=
  let n := c.toNat
  (9 ≤ n && n ≤ 13) || n == 32 || n == 0x85 || n == 0xA0 || n == 0x1680
    || (0x2000 ≤ n && n ≤ 0x200A) || n == 0x2028 || n == 0x2029 || n == 0x202F
    || n == 0x205F || n == 0x3000

/-- The characters without the blank ones at the end. -/
def trimEndChars (cs : List Char) : List Char :=
  (cs.reverse.dropWhile isBlank).reverse

/-- The characters without the blank ones at both ends. -/
def trimChars (cs : List Char) : List Char :=
  trimEndChars (cs.dropWhile isBlank)

/-- The text without the blank characters at both ends. -/
def trim (s : String) : String :=
  String.ofList (trimChars s.toList)

/-- The texts with no character that is not blank, the empty one among them. -/
def isBlankText (s : String) : Bool :=
  s.toList.all isBlank

@[simp] theorem toList_trim (s : String) : (trim s).toList = trimChars s.toList := by
  simp [trim]

@[simp] theorem trimEndChars_nil : trimEndChars [] = [] := rfl

@[simp] theorem trimChars_nil : trimChars [] = [] := rfl

/-- A character that is not blank ends the trimming from the left. -/
theorem trimChars_cons_of_not_blank {c : Char} (cs : List Char) (h : isBlank c = false) :
    trimChars (c :: cs) = trimEndChars (c :: cs) := by
  simp [trimChars, h]

theorem trimChars_cons_of_blank {c : Char} (cs : List Char) (h : isBlank c = true) :
    trimChars (c :: cs) = trimChars cs := by
  simp [trimChars, h]

end ImagePipeline.Text
