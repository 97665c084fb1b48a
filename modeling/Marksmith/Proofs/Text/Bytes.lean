import Mathlib.Data.List.Basic

/-!
Texts in ASCII. The characters of a text are decoded from its bytes one behind the other; where all
bytes are ASCII, each of them is a character (`toList_eq_map_bytes`). So what holds of the characters
of names that are written out can be computed from their bytes.
-/

namespace Marksmith.Text

/-- The bytes of a text. -/
def bytes (s : String) : List UInt8 := s.toByteArray.data.toList

theorem utf8EncodeChar_ofUInt8 {b : UInt8} (ascii : b < 128) :
    String.utf8EncodeChar (Char.ofUInt8 b) = [b] := by
  have low : b.toNat < 128 := UInt8.lt_iff_toNat_lt.mp ascii
  have single : (Char.ofUInt8 b).utf8Size = 1 := by
    have small : b.toUInt32 ≤ 127 := by
      rw [UInt32.le_iff_toNat_le, UInt8.toNat_toUInt32]
      exact Nat.le_of_lt_succ low
    exact if_pos small
  rw [String.utf8EncodeChar_eq_singleton single]
  exact congrArg (fun b => [b]) b.toUInt8_toUInt32

/-- Where all bytes of a text are ASCII, each of them is a character. -/
theorem toList_eq_map_bytes {s : String} (ascii : (bytes s).all (· < 128)) :
    s.toList = (bytes s).map Char.ofUInt8 := by
  have below : ∀ b ∈ bytes s, b < 128 := fun b mem =>
    of_decide_eq_true (List.all_eq_true.mp ascii b mem)
  have encoded : ((bytes s).map Char.ofUInt8).flatMap String.utf8EncodeChar = bytes s := by
    rw [List.flatMap_map]
    calc (bytes s).flatMap (fun b => String.utf8EncodeChar (Char.ofUInt8 b))
        = (bytes s).flatMap fun b => [b] :=
          List.flatMap_congr fun b mem => utf8EncodeChar_ofUInt8 (below b mem)
      _ = bytes s := List.flatMap_singleton' _
  have same : String.ofList ((bytes s).map Char.ofUInt8) = s := by
    rw [← String.toByteArray_inj, String.toByteArray_ofList, List.utf8Encode, encoded]
    refine ByteArray.ext ?_
    rw [List.data_toByteArray, bytes, Array.toArray_toList]
  rw [← String.toList_ofList (l := (bytes s).map Char.ofUInt8), same]

/-- What holds of each byte as a character holds of each character. The bytes are gone through as a
list: a bounded quantifier over bytes may be decided by going through all bytes there are. -/
theorem forall_mem_toList_of_bytes {p : Char → Prop} [DecidablePred p] {s : String}
    (each : (bytes s).all fun b => b < 128 ∧ p (Char.ofUInt8 b)) : ∀ c ∈ s.toList, p c := by
  have both : ∀ b ∈ bytes s, b < 128 ∧ p (Char.ofUInt8 b) := fun b mem =>
    of_decide_eq_true (List.all_eq_true.mp each b mem)
  have ascii : (bytes s).all (· < 128) :=
    List.all_eq_true.mpr fun b mem => decide_eq_true (both b mem).1
  rw [toList_eq_map_bytes ascii, List.forall_mem_map]
  exact fun b mem => (both b mem).2

end Marksmith.Text
