/-
# Texts as bytes

The bytes of a text are those of its characters, one after the other, and they are a text
again.  So a cut between two characters is a cut between the bytes of those before it and of
those behind it.
-/

import Mathlib.Data.String.Basic

namespace PageBinding
namespace Text

variable {s : String} {t : List Char}

/-- The bytes of a text are the encoding of its characters. -/
theorem toByteArray_eq (h : s.toList = t) : s.toByteArray = t.utf8Encode := by
  rw [← h, String.utf8Encode_toList]

/-- The encoding of characters is that of each of them, in a row. -/
theorem data_utf8Encode (t : List Char) :
    t.utf8Encode.data.toList = t.flatMap String.utf8EncodeChar := by
  rw [List.utf8Encode]
  simp

/-- The bytes of a text read as this text. -/
theorem fromUTF8?_toUTF8 (s : String) : String.fromUTF8? s.toUTF8 = some s :=
  dif_pos s.isValidUTF8

/-- What stands between two positions. -/
theorem extract_middle (a b c : ByteArray) :
    (a ++ (b ++ c)).extract a.size (a.size + b.size) = b := by
  rw [ByteArray.extract_append, Nat.sub_self, Nat.add_sub_cancel_left,
    ByteArray.extract_append_eq_left rfl, ByteArray.extract_eq_empty_iff.2 (by simp),
    ByteArray.empty_append]

end Text
end PageBinding
