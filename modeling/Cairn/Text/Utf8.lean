/-!
# Cairn — text as bytes

Texts are stored and read as UTF-8. Every text has bytes; not all bytes are a
text.

## Main statements

* `ofUtf8?_utf8Bytes`    — the bytes of a text are read as that text.
* `utf8Bytes_of_ofUtf8?` — bytes that are read as a text are the bytes of it.
-/

namespace Cairn

/-- The bytes of a text. -/
def utf8Bytes (s : String) : List UInt8 :=
  s.toByteArray.data.toList

/-- The text that the bytes encode. -/
def ofUtf8? (bytes : List UInt8) : Option String :=
  String.fromUTF8? ⟨bytes.toArray⟩

@[simp] theorem ofUtf8?_utf8Bytes (s : String) : ofUtf8? (utf8Bytes s) = some s := by
  simp [ofUtf8?, utf8Bytes, String.fromUTF8?, String.fromUTF8, s.isValidUTF8]

theorem utf8Bytes_of_ofUtf8? {bytes : List UInt8} {s : String} (h : ofUtf8? bytes = some s) :
    utf8Bytes s = bytes := by
  unfold ofUtf8? String.fromUTF8? at h
  split at h
  · cases h
    simp [utf8Bytes, String.fromUTF8]
  · simp at h

end Cairn
