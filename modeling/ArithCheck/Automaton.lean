import ArithCheck.Fault

/-!
# Automata over bytes

A lexicon is a deterministic automaton: it says which bytes may follow each other in a lexeme, at
which states a lexeme may end, and what kind of lexeme ends there. Its states are numbers. Its
answers may be faults, because an automaton may check what it is asked or run out of resources.

`follow` runs an automaton along the longest part of an input that it can follow: it stops in
front of the first byte that has no transition, or that the automaton fails on.
-/

namespace ArithCheck

/-- What a scanner looks at next: a byte, or the end of its stream. -/
inductive Symbol
  | byte (b : UInt8)
  | endOfStream
  deriving DecidableEq, Repr, Inhabited

/-- The number of a symbol: the byte itself, and -1 for the end of the stream. -/
def Symbol.code : Symbol → Int
  | .byte b => b.toNat
  | .endOfStream => -1

structure Automaton where
  /-- The state in which every lexeme starts. -/
  start : Int
  /-- Whether a lexeme may end in a state. -/
  isFinal : Int → Bool
  /-- The state after a byte, if the byte may follow. -/
  next : Int → UInt8 → Except Fault (Option Int)
  /-- Asked at the end of the stream, after which nothing follows. -/
  finish : Int → Except Fault Unit
  /-- What kind of lexeme ends in a state. -/
  tag : Int → Except Fault Int

namespace Automaton

/-- The state after a symbol. No state follows at the end of the stream. -/
def step (a : Automaton) (state : Int) : Symbol → Except Fault (Option Int)
  | .byte b => a.next state b
  | .endOfStream => (a.finish state).map fun _ => none

/-- How far an automaton could follow an input: the part that it followed, the state in which
that ended, and the rest of the input. -/
structure Trail where
  lexeme : List UInt8
  state : Int
  rest : List UInt8
  deriving DecidableEq, Repr

/-- The trail of an input from a state. -/
def follow (a : Automaton) (state : Int) : List UInt8 → Trail
  | [] => ⟨[], state, []⟩
  | b :: rest =>
    match a.next state b with
    | .ok (some next) =>
      let trail := a.follow next rest
      { trail with lexeme := b :: trail.lexeme }
    | _ => ⟨[], state, b :: rest⟩

/-- A trail loses nothing of the input. -/
theorem lexeme_append_rest (a : Automaton) (state : Int) (input : List UInt8) :
    (a.follow state input).lexeme ++ (a.follow state input).rest = input := by
  induction input generalizing state with
  | nil => rfl
  | cons b rest ih =>
    rw [follow]
    split
    · simpa using ih _
    · rfl

end Automaton

end ArithCheck
