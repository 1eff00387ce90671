import PCode.Wire.LittleEndian

/-!
# Text as bytes

A text is stored in UTF-8. Bytes that are no text in UTF-8 cannot be read back.

* `text?_utf8`: a stored text reads back as itself.
-/

namespace PCode.Text

/-- The text in UTF-8. -/
def utf8 (text : String) : Bytes := text.toUTF8.data.toList

/-- The text that the bytes hold in UTF-8. -/
def text? (bytes : Bytes) : Option String := String.fromUTF8? ⟨bytes.toArray⟩

theorem text?_utf8 (text : String) : text? (utf8 text) = some text := by
  simp only [text?, utf8, String.fromUTF8?, Array.toArray_toList]
  exact dif_pos text.isValidUTF8

end PCode.Text
