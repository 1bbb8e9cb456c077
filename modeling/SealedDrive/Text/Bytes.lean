/-!
Octet strings and the UTF-8 text they may hold. Keys, sealed messages and files are octet strings;
names and records are text.
-/

namespace SealedDrive

/-- An octet string. -/
abbrev Bytes := List UInt8

namespace Bytes

/-- The octets a text is encoded as. -/
def ofText (text : String) : Bytes := text.toUTF8.data.toList

/-- The text the octets encode, when they are well formed UTF-8. -/
def text? (bytes : Bytes) : Option String := String.fromUTF8? ⟨bytes.toArray⟩

/-- Reading back the octets of a text gives that text. -/
theorem text?_ofText (text : String) : text? (ofText text) = some text := by
  have h : (⟨(ofText text).toArray⟩ : ByteArray) = text.toByteArray := by
    simp [ofText]
  simp [text?, h, String.fromUTF8?, String.isValidUTF8]
  rfl

/-- Only the octets of a text read as that text. -/
theorem ofText_of_text? {bytes : Bytes} {text : String} (h : text? bytes = some text) :
    ofText text = bytes := by
  unfold text? String.fromUTF8? at h
  split at h
  · cases h; simp [ofText, String.fromUTF8]
  · cases h

end Bytes
end SealedDrive
