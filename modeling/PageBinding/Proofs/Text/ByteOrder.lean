/-
# Texts in the order of their bytes

Texts are compared character by character, and characters by their numbers.  Their UTF-8
bytes are in the same order (`bytes_lt`): of two characters the one with the greater number
has the greater byte where their bytes differ first (`encodeChar_lt`).
-/

import PageBinding.Proofs.Text.Encoded

namespace PageBinding
namespace Text

/-- The bytes of a text. -/
def bytes (s : String) : List UInt8 := s.toUTF8.data.toList

/-- The bytes of a text are those of its characters. -/
theorem bytes_eq (s : String) : bytes s = s.toList.flatMap String.utf8EncodeChar := by
  rw [bytes, String.toUTF8_eq_toByteArray, toByteArray_eq rfl, data_utf8Encode]

/-- The bytes of a character are before those of each greater one, whatever follows. -/
theorem encodeChar_lt {c d : Char} (h : c < d) (x y : List UInt8) :
    String.utf8EncodeChar c ++ x < String.utf8EncodeChar d ++ y := by
  have hlt : c.val.toNat < d.val.toNat := UInt32.lt_iff_toNat_lt.1 h
  have hmax : d.val.toNat ≤ 0x10ffff := by
    have := d.toNat_val
    rcases d.valid with h | h <;> omega
  rw [String.utf8EncodeChar, String.utf8EncodeChar]
  generalize c.val.toNat = v at hlt
  generalize d.val.toNat = w at hlt hmax
  -- A longer encoding begins with a greater byte, and encodings of one length are digits.
  split_ifs <;>
    simp (disch := omega) only [List.cons_append, List.nil_append, List.cons_lt_cons_iff,
      UInt8.lt_iff_toNat_lt, ← UInt8.toNat_inj, UInt8.toNat_ofNat', Nat.mod_eq_of_lt] <;>
    omega

/-- A common front does not change the order. -/
theorem append_lt_append {α : Type} [LT α] {x y : List α} (h : x < y) :
    ∀ p : List α, p ++ x < p ++ y
  | [] => h
  | _ :: p => List.cons_lt_cons_iff.2 (.inr ⟨rfl, append_lt_append h p⟩)

/-- The bytes of texts are in the order of their characters. -/
theorem flatMap_encodeChar_lt : ∀ {a b : List Char}, a < b →
    a.flatMap String.utf8EncodeChar < b.flatMap String.utf8EncodeChar
  | [], [], h => absurd h (List.not_lt_nil _)
  | _ :: _, [], h => absurd h (List.not_lt_nil _)
  | [], d :: b, _ => by
    obtain ⟨x, xs, hd⟩ := List.exists_cons_of_ne_nil (String.utf8EncodeChar_ne_nil (c := d))
    rw [List.flatMap_nil, List.flatMap_cons, hd]
    exact List.nil_lt_cons ..
  | c :: a, d :: b, h => by
    rw [List.flatMap_cons, List.flatMap_cons]
    rcases List.cons_lt_cons_iff.1 h with hcd | ⟨rfl, hab⟩
    · exact encodeChar_lt hcd _ _
    · exact append_lt_append (flatMap_encodeChar_lt hab) _

/-- **Texts and their bytes are in the same order.** -/
theorem bytes_lt {s t : String} : bytes s < bytes t ↔ s < t := by
  have mono : ∀ {s t : String}, s < t → bytes s < bytes t := fun h => by
    rw [bytes_eq, bytes_eq]
    exact flatMap_encodeChar_lt h
  refine ⟨fun h => ?_, mono⟩
  rcases lt_trichotomy s t with hst | rfl | hst
  · exact hst
  · exact absurd h (List.lt_irrefl _)
  · exact absurd (List.lt_trans h (mono hst)) (List.lt_irrefl _)

end Text
end PageBinding
