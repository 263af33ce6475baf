import ArithCheck.Proofs.Recognition.Lockstep
import ArithCheck.Proofs.Scanner.Tape

/-!
# Recognitions over a scanner and over its tape

Whatever its lexicon is, a scanner draws what is on its tape. So a recognition goes in step with the
one over the tape (`scanning`), if no lexeme may end where the automaton starts.
-/

namespace ArithCheck.Recognition

variable {r : Recognition Scanner} {q : Recognition Tape}

/-- A recognition over a scanner, and the same one over the tape of the scanner. -/
structure Scanning (r : Recognition Scanner) (q : Recognition Tape) : Prop where
  start : r.source.automaton.isFinal r.source.automaton.start = false
  tape : r.source.tape = q.source
  recognizer : r.toRecognizer = q.toRecognizer
  log : r.log = q.log

/-- What is left of it after a fault. -/
structure Ended (r : Recognition Scanner) (q : Recognition Tape) : Prop where
  lookahead : r.lookahead = q.lookahead
  file : r.source.file = q.source.file
  log : r.log = q.log

theorem Scanning.lookahead (h : Scanning r q) : r.lookahead = q.lookahead :=
  congrArg Recognizer.lookahead h.recognizer

theorem Scanning.ended (h : Scanning r q) : Ended r q :=
  ⟨h.lookahead, by rw [← h.tape, Scanner.tape_file], h.log⟩

/-- Drawing from a scanner is drawing from its tape. -/
theorem Scanning.advance (h : Scanning r q) :
    Agree Scanning Ended (advance r) (advance q) := by
  have hsteady := r.source.steady_nextToken
  have htracing : TokenSource.tracing r.source = TokenSource.tracing q.source := by
    rw [← h.tape]
    exact r.source.tape_tracing.symm
  cases hn : r.source.nextToken with
  | error fault s =>
    rw [hn] at hsteady
    have hpull : TokenSource.pull q.source = .error fault q.source := by
      rw [← h.tape, Scanner.tape_fault hn]
      rfl
    rw [advance_error hn, advance_error hpull]
    exact .error ⟨h.lookahead, hsteady.file.trans h.ended.file, h.log⟩
  | ok token s =>
    rw [hn] at hsteady
    have hpull : TokenSource.pull q.source = .ok token s.tape := by
      cases token with
      | none =>
        have hend := Scanner.tape_of_atEnd (Scanner.atEnd_of_nextTokenWithin hn)
        rw [← h.tape, Scanner.tape_none hn, hend]
        rfl
      | some t =>
        rw [← h.tape, Scanner.tape_token h.start hn]
        rfl
    rw [advance_eq hn, advance_eq hpull, htracing, h.recognizer, h.log]
    exact .ok ⟨hsteady.start_not_final h.start, rfl, rfl, rfl⟩

/-- A recognition over a scanner goes in step with the one over its tape. -/
def scanning : Lockstep Scanner Tape where
  holds := Scanning
  ended := Ended
  kindAhead r q h := by
    show Agree _ _ (.ok r.ahead r) (.ok q.ahead q)
    rw [ahead, h.lookahead]
    exact .ok h
  enter n active r q h := by
    rw [enter_eq, enter_eq, h.recognizer, h.log]
    exact .ok ⟨h.start, h.tape, rfl, rfl⟩
  advance _ _ h := h.advance
  throw _ _ _ h := .error h.ended

end ArithCheck.Recognition
