import ArithCheck.Proofs.Scanner.Suffix
import ArithCheck.Proofs.Scanner.Tape

/-!
# Reading from a position on

`tapeAt` is the tape of bytes that stand at some position of a larger text. It is read off one part
after the other: a lexeme that stops where the rest begins puts its token in front of the tape of
the rest (`tapeAt_lexeme`), and blanks only move the rest on (`tapeAt_blanks`), however the rest
goes on. Moving the position moves the tape (`tapeAt_shift`).
-/

namespace ArithCheck

open Arithmetic

/-- The tape with tokens put in front of it. -/
def Tape.behind (ts : List Token) (tape : Tape) : Tape := { tape with tokens := ts ++ tape.tokens }

@[simp] theorem Tape.behind_nil (tape : Tape) : tape.behind [] = tape := rfl

theorem Tape.behind_append (ts us : List Token) (tape : Tape) :
    tape.behind (ts ++ us) = (tape.behind us).behind ts := by
  simp [Tape.behind]

/-- The tape at the positions of a text that starts at `base`. -/
def Tape.shift (base : Position) (tape : Tape) : Tape :=
  { tape with
    tokens := tape.tokens.map (Token.shift base)
    fault := tape.fault.map (Fault.shift base) }

/-- The text of a fault does not depend on its place. -/
@[simp] theorem Fault.text_shift (base : Position) (fault : Fault) :
    (fault.shift base).text = fault.text := by
  cases fault <;> rfl

namespace Arithmetic

variable {file : Option String} {tracing : Bool} {base p : Position} {w g rest bytes : List UInt8}
  {q : State}

theorem tokensOf_shift (file : Option String) (hp : 1 ≤ p.line) (ps : List Piece) :
    tokensOf file (base.shift p) ps = (tokensOf file p ps).map (Token.shift base) := by
  induction ps generalizing p with
  | nil => rfl
  | cons piece ps ih =>
    have hrest := ih (Position.le_line_advance hp piece.bytes)
    rw [← Position.advance_shift base hp] at hrest
    rw [tokensOf, tokensOf, hrest]
    cases piece.kind <;> rfl

theorem Ending.shift {z : List UInt8} {fault : Option Fault} (base : Position) (hp : 1 ≤ p.line)
    (h : Ending file p z fault) : Ending file (base.shift p) z (fault.map (Fault.shift base)) := by
  cases h with
  | complete => exact .complete
  | @byte w rest q b hq hf hb =>
    show Ending file _ _ (some (.lexical _ (base.shift (p.advance w)) file))
    rw [← Position.advance_shift base hp]
    exact .byte hq hf hb
  | cutOff hq =>
    show Ending file _ _ (some (.lexical _ (base.shift (p.advance z)) file))
    rw [← Position.advance_shift base hp]
    exact .cutOff hq

/-- The tape of bytes that stand at a position. -/
def tapeAt (file : Option String) (tracing : Bool) (p : Position) (bytes : List UInt8) : Tape :=
  Scanner.tape ⟨{ Reader.new arithmetic file tracing with position := p }, .ofBytes bytes⟩

theorem tapeAt_of_cuts {ps : List Piece} {z : List UInt8} {fault : Option Fault}
    (hcuts : Cuts bytes ps z) (hend : Ending file (p.advance (bytesOf ps)) z fault) :
    tapeAt file tracing p bytes = ⟨tokensOf file p ps, fault, file, tracing⟩ := by
  have hready : Scanner.Ready
      ⟨{ Reader.new arithmetic file tracing with position := p }, .ofBytes bytes⟩ :=
    ⟨rfl, rfl, nofun⟩
  exact hready.tape_of_cuts hcuts hend

theorem tapeAt_nil : tapeAt file tracing p [] = ⟨[], none, file, tracing⟩ :=
  tapeAt_of_cuts .done .complete

/-- A lexeme comes in front of what is read behind it. -/
theorem tapeAt_lexeme (hq : State.start.reach w = some q) (hf : q.isFinal = true)
    (hstop : q.Stops rest) : tapeAt file tracing p (w ++ rest) =
      (tapeAt file tracing (p.advance w) rest).behind (tokensOf file p [⟨w, q.kind?⟩]) := by
  obtain ⟨ps, z, fault, hcuts, hend⟩ := exists_cuts_ending file (p.advance w) rest
  have hend' : Ending file (p.advance (bytesOf (⟨w, q.kind?⟩ :: ps))) z fault := by
    rw [bytesOf_cons, Position.advance_append]
    exact hend
  rw [tapeAt_of_cuts hcuts hend, tapeAt_of_cuts (.piece hq hf hstop hcuts) hend']
  cases q.kind? <;> simp [tokensOf, Tape.behind]

/-- Blanks in front of something else. -/
theorem tapeAt_run (hg : ∀ b ∈ g, isBlank b = true) (hrest : ∀ b ∈ rest.head?, isBlank b = false) :
    tapeAt file tracing p (g ++ rest) = tapeAt file tracing (p.advance g) rest := by
  by_cases hnil : g = []
  · rw [hnil]; rfl
  · have hq : State.start.reach g = some .blank := State.reach_of_spells ⟨hnil, hg⟩
    have hstop : State.blank.Stops rest := fun b hb => by
      rw [State.next?_blank, hrest b hb]
      rfl
    rw [tapeAt_lexeme hq rfl hstop]
    rfl

/-- Blanks move what is read behind them on, and nothing else. -/
theorem tapeAt_blanks (hg : ∀ b ∈ g, isBlank b = true) (rest : List UInt8) :
    tapeAt file tracing p (g ++ rest) = tapeAt file tracing (p.advance g) rest := by
  -- If the rest starts with blanks the two make one lexeme.
  have hblanks : ∀ b ∈ rest.takeWhile isBlank, isBlank b = true := fun b hb =>
    List.all_eq_true.mp List.all_takeWhile b hb
  have hstop : ∀ b ∈ (rest.dropWhile isBlank).head?, isBlank b = false := fun b hb => by
    have := List.head?_dropWhile_not isBlank rest
    rw [Option.mem_def.mp hb] at this
    simpa using this
  have hall : ∀ b ∈ g ++ rest.takeWhile isBlank, isBlank b = true := fun b hb =>
    (List.mem_append.mp hb).elim (hg b) (hblanks b)
  rw [← List.takeWhile_append_dropWhile (p := isBlank) (l := rest), ← List.append_assoc,
    tapeAt_run hall hstop, tapeAt_run hblanks hstop, Position.advance_append]

/-- At another position the tape is the same but for the positions. -/
theorem tapeAt_shift (hp : 1 ≤ p.line) (bytes : List UInt8) :
    tapeAt file tracing (base.shift p) bytes = (tapeAt file tracing p bytes).shift base := by
  obtain ⟨ps, z, fault, hcuts, hend⟩ := exists_cuts_ending file p bytes
  have hend' := hend.shift base (Position.le_line_advance hp (bytesOf ps))
  rw [← Position.advance_shift base hp] at hend'
  rw [tapeAt_of_cuts hcuts hend, tapeAt_of_cuts hcuts hend', tokensOf_shift file hp]
  rfl

end Arithmetic

end ArithCheck
