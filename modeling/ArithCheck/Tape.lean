import ArithCheck.Log
import ArithCheck.Scanner

/-!
# Tapes and other sources of tokens

A tape is what a scanner hands out from some moment on: tokens, and perhaps a fault after them.
Winding a scanner off to its end gives its tape. Tapes and scanners are both sources, from which
tokens can be drawn one at a time; what is defined for every source can be run over a scanner and
studied over a tape.
-/

namespace ArithCheck

/-- Tokens, and the fault that comes after them if it is not the end of the input; the name of
their file, and whether they are traced. -/
structure Tape where
  tokens : List Token
  fault : Option Fault
  file : Option String
  tracing : Bool
  deriving DecidableEq, Repr

/-- A state from which tokens can be drawn. -/
class TokenSource (σ : Type) where
  /-- The next token, or nothing at the end. -/
  pull : EStateM Fault σ (Option Token)
  /-- The name of the file that the tokens are from. -/
  file : σ → Option String
  /-- Whether every token drawn is to be logged. -/
  tracing : σ → Bool
  /-- The number of nonempty lexemes left is at most this. -/
  size : σ → Nat

namespace Tape

/-- Draws the first token. A fault stays where it is. -/
def pull : EStateM Fault Tape (Option Token) := fun tape =>
  match tape.tokens, tape.fault with
  | t :: rest, _ => .ok (some t) { tape with tokens := rest }
  | [], some fault => .error fault tape
  | [], none => .ok none tape

instance : TokenSource Tape where
  pull := pull
  file tape := tape.file
  tracing tape := tape.tracing
  size tape := tape.tokens.length

/-- The tokens, unless a fault comes after them. -/
def complete (tape : Tape) : Except Fault (List Token) :=
  match tape.fault with
  | some fault => .error fault
  | none => .ok tape.tokens

end Tape

namespace Scanner

/-- Draws tokens up to the end or to a fault. Unless lexemes are empty each token takes a byte, so
that `bound` need not be longer than the input, and one more for the end. -/
def windWithin : (bound : List UInt8) → Scanner → Tape × Scanner
  | [], s => (⟨[], some .stalled, s.file, s.tracing⟩, s)
  | _ :: bound, s =>
    match nextToken s with
    | .ok none s => (⟨[], none, s.file, s.tracing⟩, s)
    | .ok (some t) s =>
      let (tape, s) := windWithin bound s
      ({ tape with tokens := t :: tape.tokens }, s)
    | .error fault s => (⟨[], some fault, s.file, s.tracing⟩, s)

/-- All that the scanner hands out up to the end or to a fault, and the scanner after that. -/
def wind (s : Scanner) : Tape × Scanner := windWithin s.bound s

/-- The tape of a scanner. -/
def tape (s : Scanner) : Tape := s.wind.1

instance : TokenSource Scanner where
  pull := nextToken
  file s := s.file
  tracing s := s.tracing
  size s := s.input.length

end Scanner

namespace Log

/-- The record of a drawn token, if tokens are traced. -/
def ofToken (tracing : Bool) (token : Option Token) : List Record :=
  if tracing then token.toList.map Record.token else []

/-- The records of the tokens of a tape, if they are traced. -/
def ofTape (tape : Tape) : List Record :=
  if tape.tracing then tape.tokens.map Record.token else []

end Log

end ArithCheck
