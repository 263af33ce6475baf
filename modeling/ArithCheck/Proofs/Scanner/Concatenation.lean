import ArithCheck.Proofs.Scanner.Reading
import ArithCheck.Proofs.Scanner.Tokens

/-!
# Scanning a concatenation

What a blank between two byte strings does: it ends the last lexeme of the first one, if this one is
complete, and otherwise it is at fault itself. So scanning does not look behind the first part while
it reads it, and reads the second part as if it stood alone.

* `Cuts.tapeAt_append`: in front of a blank, or at the end, a text is read as it is alone;
* `tape_append_blank`: the concatenation law.
-/

namespace ArithCheck

open Arithmetic

/-- The fault with a blank behind the text: an end of the input that came too early is now a byte
that cannot follow. -/
def Fault.before (b : UInt8) : Fault → Fault
  | .lexical (.unexpectedEnd _) position file => .lexical (.unexpectedByte b) position file
  | fault => fault

namespace Arithmetic

variable {file : Option String} {tracing : Bool} {p : Position} {u z rest : List UInt8}
  {ps : List Piece}

/-- A lexeme that makes a token stops in front of a blank. -/
theorem State.stops_blank {q : State} {k : Token.Kind} (hk : q.kind? = some k)
    (hrest : ∀ b ∈ rest.head?, isBlank b = true) : q.Stops rest := by
  intro b hb
  have hblank := hrest b hb
  cases hnext : q.next? b with
  | none => rfl
  | some t =>
    rcases State.next?_of_kind hk hnext with ⟨-, hdigit | rfl⟩ | ⟨-, hletter⟩
    · rw [isDigit_of_isBlank hblank] at hdigit
      cases hdigit
    · cases hblank
    · rw [isLetter_of_isBlank hblank] at hletter
      cases hletter

/-- A text that is cut into lexemes is read in front of a blank as it is alone. -/
theorem Cuts.tapeAt_append (h : Cuts u ps []) (hrest : ∀ b ∈ rest.head?, isBlank b = true)
    (p : Position) : tapeAt file tracing p (u ++ rest) =
      (tapeAt file tracing (p.advance u) rest).behind (tokensOf file p ps) := by
  generalize hz : ([] : List UInt8) = z at h
  induction h generalizing p with
  | done => subst hz; rfl
  | @piece w v z q ps hq hf hstop hcuts ih =>
    subst hz
    have htail := ih (p.advance w) rfl
    rw [List.append_assoc, Position.advance_append]
    cases hk : q.kind? with
    | none =>
      have hblank : Lexeme w none := lexeme_iff.mpr ⟨q, hq, hf, hk⟩
      cases hblank with
      | blank hbs => rw [tapeAt_blanks hbs.2, htail]; rfl
    | some k =>
      -- The byte behind the lexeme is one of the text, or it is the blank.
      have hstop' : q.Stops (v ++ rest) := by
        cases v with
        | nil => exact State.stops_blank hk hrest
        | cons b v => exact hstop
      rw [tapeAt_lexeme hq hf hstop', htail, hk, ← Tape.behind_append]
      rfl

/-- In front of a blank, what is behind the last lexeme stays at fault where it was. -/
theorem Ending.before_blank {fault : Fault} {b : UInt8} (h : Ending file p z (some fault))
    (hb : isBlank b = true) (rest : List UInt8) :
    Ending file p (z ++ b :: rest) (some (fault.before b)) := by
  cases h with
  | @byte w v q c hq hf hc =>
    rw [List.append_assoc]
    exact .byte hq hf hc
  | cutOff hq =>
    refine .byte hq rfl ?_
    rw [State.next?_point, isDigit_of_isBlank hb]
    rfl

theorem Ending.ne_nil {fault : Fault} (h : Ending file p z (some fault)) : z ≠ [] := by
  cases h with
  | byte => simp
  | cutOff hq => exact State.ne_nil_of_reach hq nofun

end Arithmetic

/-- The concatenation law. Let a blank stand between two byte strings `u` and `v`. If `u` scans
without a fault, then the whole is scanned as `u` and behind it `v`, with its fault if there is one,
at the positions that it has behind `u` and the blank, and with the same messages. If `u` has a
fault, the whole has the same tokens and the same fault at the same place, except where `u` ends
inside a lexeme: then the fault is the blank. -/
theorem tape_append_blank {b : UInt8} (hb : isBlank b = true) (u v : List UInt8)
    (file : Option String) (tracing : Bool) :
    let tape (bytes : List UInt8) := (Scanner.ofBytes arithmetic bytes file tracing).tape
    let base := Position.start.advance (u ++ [b])
    ((tape u).fault = none →
      tape (u ++ b :: v) = ((tape v).shift base).behind (tape u).tokens) ∧
    (∀ fault ∈ (tape v).fault, (fault.shift base).text = fault.text) ∧
    ∀ fault, (tape u).fault = some fault →
      tape (u ++ b :: v) = { tape u with fault := some (fault.before b) } := by
  intro tape base
  have htape : ∀ bytes, tape bytes = tapeAt file tracing .start bytes := fun _ => rfl
  obtain ⟨ps, z, ending, hcuts, hend⟩ := exists_cuts_ending file .start u
  have hu : tape u = ⟨tokensOf file .start ps, ending, file, tracing⟩ := tapeAt_of_cuts hcuts hend
  refine ⟨fun hnone => ?_, fun fault _ => fault.text_shift base, fun fault hfault => ?_⟩
  · obtain rfl : ending = none := by rw [hu] at hnone; exact hnone
    obtain rfl := hend.eq_nil
    have hblank : ∀ c ∈ [b], isBlank c = true := by simpa using hb
    calc tape (u ++ b :: v)
      _ = (tapeAt file tracing (Position.start.advance u) ([b] ++ v)).behind
            (tokensOf file .start ps) := hcuts.tapeAt_append (by simpa using hb) .start
      _ = (tapeAt file tracing (base.shift .start) v).behind (tokensOf file .start ps) := by
          rw [tapeAt_blanks hblank, ← Position.advance_append, Position.shift_start]
      _ = ((tape v).shift base).behind (tape u).tokens := by
          rw [tapeAt_shift (Int.le_refl 1), hu, htape]
  · obtain rfl : ending = some fault := by rw [hu] at hfault; exact hfault
    have hz := hend.ne_nil
    have hwhole : Cuts (u ++ b :: v) ps (z ++ b :: v) := by
      rw [← hcuts.bytes_append, List.append_assoc]
      refine hcuts.replace fun c hc => ?_
      obtain ⟨d, z, rfl⟩ := List.exists_cons_of_ne_nil hz
      exact hc
    rw [hu, htape, tapeAt_of_cuts hwhole (hend.before_blank hb v)]

/-- Behind a line feed the second part is read as the second line, up to its fault in column 3; in
front of it an unfinished number makes the line feed a fault. -/
theorem tape_append_blank_line_feed :
    let tape (bytes : List UInt8) := (Scanner.ofBytes arithmetic bytes none false).tape
    isBlank 0x0A = true ∧
      tape [0x31, 0x0A, 0x78, 0x20, 0x26] =
        ⟨[⟨.float, "1", ⟨1, 1⟩, none⟩, ⟨.variable, "x", ⟨2, 1⟩, none⟩],
          some (.lexical (.unexpectedByte 0x26) ⟨2, 3⟩ none), none, false⟩ ∧
      tape [0x31, 0x2E, 0x0A, 0x32] =
        ⟨[], some (.lexical (.unexpectedByte 0x0A) ⟨1, 3⟩ none), none, false⟩ := by
  intro tape
  have hb : isBlank 0x0A = true := rfl
  obtain ⟨hjoined, -, -⟩ := tape_append_blank hb [0x31] [0x78, 0x20, 0x26] none false
  obtain ⟨-, -, hfault⟩ := tape_append_blank hb [0x31, 0x2E] [0x32] none false
  exact ⟨hb, hjoined rfl, hfault (.lexical (.unexpectedEnd [0x31, 0x2E]) ⟨1, 3⟩ none) rfl⟩

end ArithCheck
