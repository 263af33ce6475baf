import ArithCheck.Proofs.Text.Ascii
import ArithCheck.Text.Quoted

/-!
# Plain text

Bytes that stand for themselves in quoted text and are no blanks. Text made of them is quoted by
putting single quotes around it (`quoted_ascii`), and holds no blanks (`not_mem_ascii`).
-/

namespace ArithCheck.Text

/-- The visible ASCII characters, except for the single quote and the backslash. -/
def isPlain (b : UInt8) : Bool := 0x20 < b && b < 0x7F && b ≠ 0x27 && b ≠ 0x5C

theorem isPrintable_of_ascii {c : Char} (h : 0x20 ≤ c.toNat) (h' : c.toNat < 0x7F) :
    isPrintable c = true := by
  obtain ⟨rest, hranges⟩ : ∃ rest, unprintableRanges = (0x0, 0x1F) :: (0x7F, 0xA0) :: rest :=
    ⟨_, rfl⟩
  rw [isPrintable, hranges, inRanges, inRanges, if_neg (by omega), if_neg (by omega),
    if_pos (by omega)]
  rfl

variable {b : UInt8} {w : List UInt8}

theorem isPlain_iff : isPlain b = true ↔
    0x20 < b.toNat ∧ b.toNat < 0x7F ∧ b.toNat ≠ 0x27 ∧ b.toNat ≠ 0x5C := by
  simp [isPlain, UInt8.lt_iff_toNat_lt, ← UInt8.toNat_inj, and_assoc]

theorem ofNat_byte_ne {c : Char} (h : b.toNat ≠ c.toNat) : Char.ofNat b.toNat ≠ c := by
  rintro rfl
  exact h (toNat_ofNat_byte b).symm

/-- A plain byte is none of the characters that are written in another way. -/
theorem escape_plain (h : isPlain b = true) :
    escape '\x27' (Char.ofNat b.toNat) = [Char.ofNat b.toNat] := by
  obtain ⟨hlow, hhigh, hquote, hbackslash⟩ := isPlain_iff.mp h
  have hlf : b.toNat ≠ '\n'.toNat := by show b.toNat ≠ 0x0A; omega
  have hcr : b.toNat ≠ '\r'.toNat := by show b.toNat ≠ 0x0D; omega
  have htab : b.toNat ≠ '\t'.toNat := by show b.toNat ≠ 0x09; omega
  have hc := toNat_ofNat_byte b
  have hprintable : isPrintable (Char.ofNat b.toNat) = true :=
    isPrintable_of_ascii (by omega) (by omega)
  have hspecial : ¬ (Char.ofNat b.toNat = '\x27' || Char.ofNat b.toNat = '\x5c') = true := by
    simpa using ⟨ofNat_byte_ne hquote, ofNat_byte_ne hbackslash⟩
  rw [escape, if_neg hspecial, if_neg (ofNat_byte_ne hlf), if_neg (ofNat_byte_ne hcr),
    if_neg (ofNat_byte_ne htab), if_pos hprintable]

theorem mem_ascii {c : Char} : c ∈ (ascii w).toList ↔ ∃ b ∈ w, Char.ofNat b.toNat = c := by
  rw [ascii, String.toList_ofList, List.mem_map]

/-- Plain text holds no character at or below the space. -/
theorem not_mem_ascii (h : ∀ b ∈ w, isPlain b = true) {c : Char} (hc : c.toNat ≤ 0x20) :
    c ∉ (ascii w).toList := by
  intro hmem
  obtain ⟨b, hb, rfl⟩ := mem_ascii.mp hmem
  have hlow := (isPlain_iff.mp (h b hb)).1
  rw [toNat_ofNat_byte] at hc
  omega

/-- Plain text is quoted as it is. -/
theorem quoted_ascii (h : ∀ b ∈ w, isPlain b = true) :
    (quoted (ascii w)).toList = '\x27' :: (ascii w).toList ++ ['\x27'] := by
  have hquote : '\x27' ∉ (ascii w).toList := fun hmem => by
    obtain ⟨b, hb, heq⟩ := mem_ascii.mp hmem
    exact ofNat_byte_ne (isPlain_iff.mp (h b hb)).2.2.1 heq
  have hquoteOf : quoteOf (ascii w).toList = '\x27' := by simp [quoteOf, hquote]
  have hescape : (ascii w).toList.flatMap (escape '\x27') = (ascii w).toList := by
    calc (ascii w).toList.flatMap (escape '\x27')
      _ = (ascii w).toList.flatMap fun c => [c] := by
          refine List.flatMap_congr fun c hc => ?_
          obtain ⟨b, hb, rfl⟩ := mem_ascii.mp hc
          exact escape_plain (h b hb)
      _ = (ascii w).toList := List.flatMap_singleton' _
  rw [quoted, hquoteOf, hescape, String.toList_ofList]

end ArithCheck.Text
