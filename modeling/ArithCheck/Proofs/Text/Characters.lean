import ArithCheck.Proofs.Position
import ArithCheck.Proofs.Text.Ascii
import Mathlib.Tactic.SplitIfs

/-!
# Characters and their bytes

UTF-8 writes an ASCII character as one byte below 128 and starts every other character with a lead
byte, which is 192 or more. So the ASCII bytes at the front of a text are its characters there
(`exists_rest`), and what is counted in bytes up to their end comes out the same in characters
(`position_ascii`).
-/

namespace ArithCheck.Text

/-- The position behind a text, counted in characters: a line feed starts a new line, and every
other character moves one column to the right. -/
def position (text : String) : Position :=
  ⟨1 + (text.toList.count '\n' : Nat),
    1 + ((text.toList.reverse.takeWhile (· ≠ '\n')).length : Nat)⟩

variable {w z : List UInt8} {text : String}

theorem ofNat_byte_eq_lf_iff (b : UInt8) : Char.ofNat b.toNat = '\n' ↔ b = 0x0A := by
  refine ⟨fun h => UInt8.toNat_inj.mp ?_, fun h => h ▸ rfl⟩
  rw [← toNat_ofNat_byte, h]
  rfl

/-- With one character for each byte, positions in characters are positions in bytes. -/
theorem position_ascii (w : List UInt8) : position (ascii w) = Position.start.advance w := by
  have hlf : ∀ b : UInt8, (Char.ofNat b.toNat == '\n') = (b == 0x0A) := fun b => by
    rw [Bool.eq_iff_iff, beq_iff_eq, beq_iff_eq]
    exact ofNat_byte_eq_lf_iff b
  have hother : (fun c : Char => decide (c ≠ '\n')) ∘ (fun b : UInt8 => Char.ofNat b.toNat) =
      fun b => decide (b ≠ 0x0A) := funext fun b => by
    simp only [Function.comp_apply, ne_eq, ofNat_byte_eq_lf_iff]
  rw [Position.advance_start, position, ascii, String.toList_ofList, List.count, List.countP_map,
    ← List.map_reverse, List.takeWhile_map, List.length_map, hother, Position.lastLine,
    List.length_reverse]
  refine congrArg₂ Position.mk (congrArg (fun n : Nat => 1 + (n : Int)) ?_) rfl
  exact List.countP_congr fun b _ => by simp [hlf]

theorem ascii_append (w z : List UInt8) : ascii (w ++ z) = ascii w ++ ascii z := by
  simp [ascii, String.ofList_append]

namespace Utf8

/-- A character is an ASCII byte, or its encoding starts with a lead byte. -/
theorem byte_or_lead (c : Char) : (∃ b : UInt8, b < 0x80 ∧ c = Char.ofNat b.toNat) ∨
    ∃ b bs, 0xC0 ≤ b ∧ String.utf8EncodeChar c = b :: bs := by
  by_cases hc : c.toNat < 0x80
  · have hbyte : (UInt8.ofNat c.toNat).toNat = c.toNat :=
      UInt8.toNat_ofNat_of_lt' (Nat.lt_trans hc (by decide))
    refine .inl ⟨UInt8.ofNat c.toNat, ?_, ?_⟩
    · rw [UInt8.lt_iff_toNat_lt, hbyte]
      exact hc
    · rw [hbyte, Char.ofNat_toNat]
  · have hv : ¬ c.val.toNat ≤ 127 := fun h => hc (Nat.lt_succ_of_le h)
    have hlead : ∀ n, 0xC0 ≤ n → n < 256 → (0xC0 : UInt8) ≤ UInt8.ofNat n := fun n hn hlt => by
      rw [UInt8.le_iff_toNat_le, UInt8.toNat_ofNat_of_lt' hlt]
      exact hn
    right
    simp only [String.utf8EncodeChar, hv, if_false]
    split_ifs
    · exact ⟨_, _, hlead _ (by omega) (by omega), rfl⟩
    · exact ⟨_, _, hlead _ (by omega) (by omega), rfl⟩
    · exact ⟨_, _, hlead _ (by omega) (by omega), rfl⟩

/-- ASCII bytes at the front of an encoded text are the characters at its front. -/
theorem exists_rest (hw : ∀ b ∈ w, b < 0x80) (h : w ++ z = encode text) :
    ∃ rest, text = ascii w ++ rest ∧ z = encode rest := by
  obtain ⟨cs, rfl⟩ : ∃ cs, text = String.ofList cs := ⟨text.toList, text.ofList_toList.symm⟩
  rw [encode_eq, String.toList_ofList] at h
  suffices ∃ ds, cs = w.map (fun b => Char.ofNat b.toNat) ++ ds ∧
      z = ds.flatMap String.utf8EncodeChar by
    obtain ⟨ds, rfl, rfl⟩ := this
    exact ⟨String.ofList ds, String.ofList_append, by rw [encode_eq, String.toList_ofList]⟩
  induction w generalizing cs with
  | nil => exact ⟨cs, rfl, h⟩
  | cons b w ih =>
    cases cs with
    | nil => cases h
    | cons c cs =>
      rw [List.flatMap_cons] at h
      obtain ⟨b', hb', rfl⟩ | ⟨b', bs, hb', hc⟩ := byte_or_lead c
      · rw [utf8EncodeChar_byte hb'] at h
        obtain ⟨rfl, htail⟩ := List.cons.inj h
        obtain ⟨ds, rfl, rfl⟩ := ih (fun d hd => hw d (by simp [hd])) cs htail
        exact ⟨ds, rfl, rfl⟩
      · -- The text would start with a lead byte.
        rw [hc] at h
        obtain rfl : b = b' := (List.cons.inj h).1
        exact absurd (UInt8.lt_of_le_of_lt hb' (hw b (by simp))) (by decide)

theorem encode_singleton (c : Char) :
    encode (String.singleton c) = String.utf8EncodeChar c := by
  simp [encode_eq]

/-- The first byte of an encoded text is the first one of its first character, and a lead byte if
this is no ASCII character. -/
theorem head_encode {b : UInt8} (h : b :: z = encode text) :
    ∃ c ∈ text.toList.head?, b ∈ (encode (String.singleton c)).head? ∧
      (0x80 ≤ c.toNat → 0xC0 ≤ b) := by
  rw [encode_eq] at h
  cases hcs : text.toList with
  | nil => rw [hcs] at h; cases h
  | cons c cs =>
    rw [hcs, List.flatMap_cons] at h
    refine ⟨c, rfl, ?_⟩
    rw [encode_singleton]
    obtain ⟨b', hb', rfl⟩ | ⟨b', bs, hb', hc⟩ := byte_or_lead c
    · rw [utf8EncodeChar_byte hb'] at h ⊢
      obtain rfl : b = b' := (List.cons.inj h).1
      rw [UInt8.lt_iff_toNat_lt] at hb'
      refine ⟨rfl, fun hc => absurd hb' ?_⟩
      rw [toNat_ofNat_byte] at hc
      exact Nat.not_lt.mpr hc
    · rw [hc] at h ⊢
      obtain rfl : b = b' := (List.cons.inj h).1
      exact ⟨rfl, fun _ => hb'⟩

end Utf8

end ArithCheck.Text
