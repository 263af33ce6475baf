import ArithCheck.Proofs.Scanner.FaultPlace
import ArithCheck.Proofs.Scanner.Layout
import ArithCheck.Proofs.Text.Characters

/-!
# Positions in characters

A scanner counts bytes, and nobody sees it: nothing but ASCII characters is read until a fault is
found, and a fault is in front of a character. So all positions that come out of a text are those
counted in its characters.
-/

namespace ArithCheck

open Arithmetic Text

/-- A lead byte is named by its code. -/
theorem LexicalCause.message_of_lead {b : UInt8} (h : 0xC0 ≤ b) :
    (LexicalCause.unexpectedByte b).message =
      "Invalid byte 0x" ++ String.ofList (Text.hex 2 b.toNat) := by
  rw [LexicalCause.message_unexpectedByte, if_neg]
  exact fun hprint => absurd (UInt8.le_trans h hprint.2) (by decide)

namespace Arithmetic

variable {bytes z : List UInt8} {ps : List Piece}

theorem Cuts.ascii (h : Cuts bytes ps z) : ∀ b ∈ bytesOf ps, b < 0x80 := by
  induction h with
  | done => exact List.forall_mem_nil _
  | piece hq _ _ _ ih =>
    intro b hb
    rw [bytesOf_cons, List.mem_append] at hb
    exact hb.elim (State.ascii_of_reach hq b) (ih b)

end Arithmetic

/-- A token that stands in the ASCII part at the front of a text has its position there. -/
theorem Token.Stands.characters {text : String} {t : Token} {v z x w : List UInt8}
    (h : t.Stands v x w) (hv : ∀ b ∈ v, b < 0x80) (htext : v ++ z = Utf8.encode text) :
    ∃ u rest, text = u ++ t.value ++ rest ∧
      t.Stands (Utf8.encode text) (Utf8.encode u) (Utf8.encode t.value) ∧
      t.position = Text.position u ∧
      t.location.endColumn = some (Text.position (u ++ t.value)).column := by
  obtain ⟨y, rfl⟩ := h.front
  have hx : ∀ b ∈ x, b < 0x80 := fun b hb => hv b (by simp [hb])
  have hw : ∀ b ∈ w, b < 0x80 := fun b hb => hv b (by simp [hb])
  have hvalue : t.value = ascii w :=
    Utf8.encode_injective (h.encode.trans (Utf8.encode_ascii hw).symm)
  obtain ⟨rest, hrest, -⟩ := Utf8.exists_rest (w := x ++ w) (z := y ++ z)
    (List.forall_mem_append.mpr ⟨hx, hw⟩) (by rw [← htext]; simp)
  refine ⟨ascii x, rest, by rw [hrest, hvalue, ascii_append], ?_, ?_, ?_⟩
  · rw [Utf8.encode_ascii hx, h.encode]
    exact { h with front := ⟨y ++ z, by rw [← htext]; simp⟩ }
  · rw [h.position, position_ascii]
  · rw [hvalue, ← ascii_append, position_ascii, Position.advance_append, ← h.position,
      Position.advance_of_not_mem _ (lf_not_mem h.not_blank), Token.location, h.length]

/-- The positions that come out of a text, read in UTF-8, are those of its characters. A token
stands where its value is in the text, and its line, its column and the column of its end count the
characters up to there. A fault is in front of a character, or behind all of them if the text ends
too early, and its line and column count the characters that are in front of it. The byte that it
names is the first one of this character: outside of ASCII a lead byte, and no continuation byte. -/
theorem positions_in_characters (text : String) (file : Option String) (tracing : Bool) :
    let bytes := Utf8.encode text
    let tape := (Scanner.ofBytes arithmetic bytes file tracing).tape
    (∀ t ∈ tape.tokens, ∃ u rest, text = u ++ t.value ++ rest ∧
      t.Stands bytes (Utf8.encode u) (Utf8.encode t.value) ∧
      t.position = Text.position u ∧
      t.location.endColumn = some (Text.position (u ++ t.value)).column) ∧
    ∀ fault ∈ tape.fault, ∃ cause u rest, text = u ++ rest ∧
      FaultOffset bytes (Utf8.encode u).length ∧
      fault = .lexical cause (Text.position u) file ∧
      (rest = "" → ∃ w, cause = .unexpectedEnd w) ∧
      ∀ c ∈ rest.toList.head?, ∃ b ∈ (Utf8.encode (String.singleton c)).head?,
        cause = .unexpectedByte b ∧ (0x80 ≤ c.toNat → 0xC0 ≤ b ∧
          fault.text = "Invalid byte 0x" ++ String.ofList (Text.hex 2 b.toNat)) := by
  intro bytes tape
  obtain ⟨ps, z, ending, hcuts, hend⟩ := exists_cuts_ending file .start bytes
  have htape : tape = ⟨tokensOf file .start ps, ending, file, tracing⟩ :=
    (Scanner.ready_ofBytes bytes file tracing).tape_of_cuts hcuts hend
  rw [htape]
  refine ⟨fun t ht => ?_, fun fault hfault => ?_⟩
  · obtain ⟨x, w, hstands⟩ := hcuts.stands [] t ht
    exact hstands.characters hcuts.ascii hcuts.bytes_append
  · obtain rfl : ending = some fault := hfault
    cases hend with
    | @byte w rest q b hq hf hb =>
      have hfront : ∀ c ∈ bytesOf ps ++ w, c < 0x80 :=
        List.forall_mem_append.mpr ⟨hcuts.ascii, State.ascii_of_reach hq⟩
      obtain ⟨r, hr, hbyte⟩ := Utf8.exists_rest (z := b :: rest) hfront
        (by rw [List.append_assoc]; exact hcuts.bytes_append)
      obtain ⟨c, hc, hlead, hother⟩ := Utf8.head_encode hbyte
      refine ⟨.unexpectedByte b, ascii (bytesOf ps ++ w), r, hr, ?_, ?_, ?_, ?_⟩
      · rw [Utf8.encode_ascii hfront]
        exact (faultOffset_byte hcuts hq hf hb).1
      · rw [position_ascii, Position.advance_append]
      · rintro rfl
        cases hc
      · intro c' hc'
        obtain rfl : c = c' := Option.mem_unique hc hc'
        exact ⟨b, hlead, rfl, fun hwide =>
          ⟨hother hwide, LexicalCause.message_of_lead (hother hwide)⟩⟩
    | cutOff hq =>
      have hall : ∀ c ∈ bytes, c < 0x80 := by
        rw [← hcuts.bytes_append, List.forall_mem_append]
        exact ⟨hcuts.ascii, State.ascii_of_reach hq⟩
      have htext : text = ascii bytes :=
        Utf8.encode_injective (Utf8.encode_ascii hall).symm
      refine ⟨.unexpectedEnd z, text, "", by simp, ?_, ?_, fun _ => ⟨z, rfl⟩, nofun⟩
      · exact faultOffset_cutOff hcuts hq
      · rw [htext, position_ascii, ← Position.advance_append, hcuts.bytes_append]

end ArithCheck
