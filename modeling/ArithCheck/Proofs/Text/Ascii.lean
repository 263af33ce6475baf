import ArithCheck.Text.Utf8
import Mathlib.Data.List.Basic

/-!
# ASCII text

Bytes below 128 are characters of their own: the text `ascii w` has one character for each byte of
`w`, UTF-8 reads `w` as this text (`decode_ascii`) and writes the text as `w` (`encode_ascii`).
-/

namespace ArithCheck.Text

/-- The text with one character for each byte. -/
def ascii (w : List UInt8) : String := String.ofList (w.map fun b => Char.ofNat b.toNat)

theorem toNat_ofNat_byte (b : UInt8) : (Char.ofNat b.toNat).toNat = b.toNat := by
  have hb := b.toNat_lt
  rw [Char.ofNat, dif_pos (Or.inl (by omega))]
  rfl

namespace Utf8

theorem decode_ascii {w : List UInt8} (h : ∀ b ∈ w, b < 0x80) : decode w = .ok (ascii w) := by
  rw [decode, decodeFrom_ascii 0 w h]
  rfl

/-! ## Writing ASCII text -/

theorem toList_loop (bs : ByteArray) (i : Nat) (acc : List UInt8) :
    ByteArray.toList.loop bs i acc = acc.reverse ++ bs.data.toList.drop i := by
  fun_induction ByteArray.toList.loop bs i acc with
  | case1 i acc h ih =>
    have hi : i < bs.data.toList.length := h
    have hg : bs.get! i = bs.data.toList[i] := getElem!_pos bs.data i h
    rw [ih, hg, List.drop_eq_getElem_cons hi]
    simp only [List.reverse_cons, List.append_assoc, List.singleton_append]
  | case2 i acc h =>
    have hi : bs.data.toList.length ≤ i := Nat.le_of_not_lt h
    rw [List.drop_eq_nil_of_le hi, List.append_nil]

theorem toList_data (bs : ByteArray) : bs.toList = bs.data.toList := by
  rw [ByteArray.toList, toList_loop]
  rfl

theorem utf8EncodeChar_byte {b : UInt8} (h : b < 0x80) :
    String.utf8EncodeChar (Char.ofNat b.toNat) = [b] := by
  have hb : b.toNat < 128 := UInt8.lt_iff_toNat_lt.mp h
  have hv : (Char.ofNat b.toNat).val.toNat = b.toNat := toNat_ofNat_byte b
  rw [String.utf8EncodeChar_eq_singleton]
  · refine congrArg (fun c => [c]) (UInt8.toNat_inj.mp ?_)
    rw [UInt32.toNat_toUInt8, hv]
    omega
  · rw [Char.utf8Size_eq_one_iff, UInt32.le_iff_toNat_le, hv]
    exact Nat.le_of_lt_succ hb

theorem encode_eq (text : String) :
    encode text = text.toList.flatMap String.utf8EncodeChar := by
  have hbytes : text.toByteArray = text.toList.utf8Encode := by
    rw [← String.toByteArray_ofList, String.ofList_toList]
  rw [encode, String.toUTF8_eq_toByteArray, toList_data, hbytes, List.utf8Encode,
    List.toList_data_toByteArray]

theorem encode_injective : Function.Injective encode := fun s t h => by
  rw [encode, encode, toList_data, toList_data, Array.toList_inj] at h
  exact String.toByteArray_inj.mp (ByteArray.ext h)

theorem encode_ascii {w : List UInt8} (h : ∀ b ∈ w, b < 0x80) : encode (ascii w) = w := by
  rw [encode_eq, ascii, String.toList_ofList]
  induction w with
  | nil => rfl
  | cons b w ih =>
    rw [List.map_cons, List.flatMap_cons, utf8EncodeChar_byte (h b (by simp)),
      ih fun c hc => h c (by simp [hc])]
    rfl

end Utf8

end ArithCheck.Text
