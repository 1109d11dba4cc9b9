import Mathlib.Data.String.Basic

namespace TagBase.Text

def bytes (text : String) : List UInt8 := text.toUTF8.data.toList

def size (text : List Char) : Nat := (String.ofList text).utf8ByteSize

@[simp] theorem size_nil : size [] = 0 := rfl

@[simp] theorem size_append (text rest : List Char) :
    size (text ++ rest) = size text + size rest := by
  rw [size, String.ofList_append, String.utf8ByteSize_append, size, size]

@[simp] theorem size_cons (c : Char) (rest : List Char) :
    size (c :: rest) = c.utf8Size + size rest := by
  rw [size, String.ofList_cons, String.utf8ByteSize_append, String.utf8ByteSize_singleton, size]

theorem bytes_eq_flatMap (text : String) :
    bytes text = text.toList.flatMap String.utf8EncodeChar := by
  rw [bytes, String.toUTF8, ← String.utf8Encode_toList, List.utf8Encode,
    List.toList_data_toByteArray]

/-- The first difference of two lists of bytes is a smaller byte on the left. -/
def Precedes : List UInt8 → List UInt8 → Prop
  | x :: l, y :: m => x < y ∨ x = y ∧ Precedes l m
  | _, _ => False

theorem Precedes.append_lt {l m : List UInt8} (h : Precedes l m) (s t : List UInt8) :
    l ++ s < m ++ t := by
  induction l generalizing m with
  | nil => exact h.elim
  | cons x l ih =>
      cases m with
      | nil => exact h.elim
      | cons y m =>
          rw [List.cons_append, List.cons_append, List.cons_lt_cons_iff]
          exact h.imp_right fun ⟨heq, hrest⟩ => ⟨heq, ih hrest⟩

theorem precedes_utf8EncodeChar {c d : Char} (h : c < d) :
    Precedes (String.utf8EncodeChar c) (String.utf8EncodeChar d) := by
  have hlt : c.val.toNat < d.val.toNat := h
  have hd : d.val.toNat < 0x110000 := by
    rcases d.valid with hvalid | ⟨-, hvalid⟩ <;> omega
  simp only [String.utf8EncodeChar]
  split_ifs <;>
    simp (disch := omega) only [Precedes, UInt8.lt_iff_toNat_lt, ← UInt8.toNat_inj,
      UInt8.toNat_ofNat', Nat.mod_eq_of_lt] <;>
    omega

theorem flatMap_utf8EncodeChar_lt {l m : List Char} (h : l < m) :
    l.flatMap String.utf8EncodeChar < m.flatMap String.utf8EncodeChar := by
  induction l generalizing m with
  | nil =>
      cases m with
      | nil => simp at h
      | cons d m =>
          rw [List.flatMap_cons, List.flatMap_nil]
          cases hd : String.utf8EncodeChar d with
          | nil => exact absurd hd String.utf8EncodeChar_ne_nil
          | cons byte rest => exact List.nil_lt_cons byte _
  | cons c l ih =>
      cases m with
      | nil => simp at h
      | cons d m =>
          rw [List.flatMap_cons, List.flatMap_cons]
          rcases List.cons_lt_cons_iff.mp h with hcd | ⟨rfl, hrest⟩
          · exact (precedes_utf8EncodeChar hcd).append_lt _ _
          · exact List.append_left_lt (ih hrest)

/-- The order of texts is the order of their bytes. -/
theorem bytes_lt_iff {a b : String} : bytes a < bytes b ↔ a < b := by
  rw [bytes_eq_flatMap, bytes_eq_flatMap, String.lt_iff_toList_lt]
  refine ⟨fun h => ?_, flatMap_utf8EncodeChar_lt⟩
  rcases lt_trichotomy a b with hab | rfl | hba
  · exact hab
  · exact absurd h (List.lt_irrefl _)
  · exact absurd (flatMap_utf8EncodeChar_lt hba) (List.lt_asymm h)

end TagBase.Text
