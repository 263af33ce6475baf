import ArithCheck.Automaton

/-!
# Automata given by tables

A table lists the transitions of an automaton as edges over ranges of symbols. The first edge that
fits decides, and an edge to 0 says that there is no transition. A table can also name pairs of a
state and a symbol at which the automaton runs out of resources.
-/

namespace ArithCheck

namespace Automaton

/-- Transitions from `source` to `target` on the symbols from `low` to `high`. -/
structure Edge where
  source : Int
  low : Int
  high : Int
  target : Int
  deriving DecidableEq, Repr

structure Table where
  start : Int
  final : List Int
  edges : List Edge
  /-- The tags of states. The last entry for a state counts. -/
  tags : List (Int × Int)
  /-- The states and symbols at which the automaton is exhausted. -/
  exhausted : List (Int × Int)
  deriving DecidableEq, Repr

namespace Table

/-- Whether the automaton runs out of resources on a symbol. -/
def check (t : Table) (state : Int) (symbol : Symbol) : Except Fault Unit :=
  if t.exhausted.contains (state, symbol.code) then .error .exhausted else .ok ()

/-- The target of the first edge that fits a byte, unless it is 0. -/
def target? (t : Table) (state : Int) (b : UInt8) : Option Int := do
  let edge ← t.edges.find? fun e =>
    e.source = state && e.low ≤ (b.toNat : Int) && (b.toNat : Int) ≤ e.high
  guard (edge.target ≠ 0)
  return edge.target

/-- The tag of a state, -1 for a state without one. -/
def tag (t : Table) (state : Int) : Int :=
  ((t.tags.reverse.find? (·.1 = state)).map (·.2)).getD (-1)

def automaton (t : Table) : Automaton where
  start := t.start
  isFinal := t.final.contains
  next state b := (t.check state (.byte b)).map fun _ => t.target? state b
  finish state := t.check state .endOfStream
  tag state := .ok (t.tag state)

end Table

end Automaton

end ArithCheck
