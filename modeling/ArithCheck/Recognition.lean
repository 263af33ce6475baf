import ArithCheck.Grammar
import ArithCheck.Tape

/-!
# Recognizing expressions

The recognizer descends through the rules of the grammar with one token of lookahead. Each rule
takes from its source the tokens that it can use, leaves the first other one ahead, and says
whether those it took make a sentence. Chains of operators of equal rank are taken in a loop, and
everything else by one rule entering another.

* `rule` is the descent: it is over at once when more rules are in progress than the limit allows;
* `recognize` asks for an expression with nothing behind it.

The recognizer writes a log, of the rules it enters if they are traced, and of the verdict.
-/

namespace ArithCheck

open Token

/-- A recognizer without its source: whether it traces rules, and the token ahead, which is absent
at the start and at the end of the input. -/
structure Recognizer where
  tracing : Bool
  lookahead : Option Token
  deriving DecidableEq, Repr

/-- A recognizer at the start of an input. -/
def Recognizer.new (tracing : Bool) : Recognizer := ⟨tracing, none⟩

/-- A recognizer at work: its source and the log written so far. -/
structure Recognition (σ : Type) extends Recognizer where
  source : σ
  log : Log

/-- A computation of a recognizer over a source. -/
abbrev Recognize (σ α : Type) : Type := EStateM Fault (Recognition σ) α

namespace Recognition

variable {σ : Type} [TokenSource σ]

/-- How many rules may be in progress at the same time unless something else is asked for. -/
def nestingLimit : Nat := 950

/-- Adds a record to the log. -/
def write (record : Log.Record) : Recognize σ Unit :=
  modify fun r => { r with log := r.log.push record }

/-- The kind of the token ahead. -/
def kindAhead : Recognize σ (Option Kind) := do
  return (← get).lookahead.map (·.kind)

/-- Draws the next token. If that fails the token ahead stays. -/
def advance : Recognize σ Unit := fun r =>
  match TokenSource.pull r.source with
  | .ok token source =>
    let records := Log.ofToken (TokenSource.tracing r.source) token
    .ok () { r with source := source, lookahead := token, log := r.log ++ records }
  | .error fault source => .error fault { r with source := source }

/-- Takes the token ahead if it is of the given kind. -/
def terminal (k : Kind) : Recognize σ Bool := do
  if (← kindAhead) = some k then
    advance
    return true
  return false

/-- Both of two parts, the second only after the first has succeeded. -/
def both (first second : Recognize σ Bool) : Recognize σ Bool := do
  if ← first then second else return false

/-- Operators with an operand behind each, for as long as there is an operator ahead. As each of
them takes tokens, `bound` need not exceed the number of tokens left. -/
def chain (operators : List Kind) (operand : Recognize σ Bool) :
    (bound : Nat) → Recognize σ Bool
  | 0 => throw .stalled
  | bound + 1 => do
    match ← kindAhead with
    | none => return true
    | some k =>
      if k ∈ operators then
        both (both (terminal k) operand) (chain operators operand bound)
      else return true

/-- Logs that a rule is entered. -/
def enter (n : Nonterminal) (active : Nat) : Recognize σ Unit := do
  let r ← get
  if r.tracing then write (.enter n active r.lookahead)

/-- The rule of a nonterminal, with `active` rules in progress around it, and `budget` rules that
may be in progress from here on. No chain has more than `width` operators. -/
def rule (width : Nat) : (budget active : Nat) → Nonterminal → Recognize σ Bool
  | 0, _, _ => throw .exhausted
  | budget + 1, active, n => do
    enter n (active + 1)
    let call := rule width budget (active + 1)
    match n with
    | .e => both (call .t) (call .ee)
    | .ee => chain [.plus, .minus] (call .t) width
    | .t => both (call .x) (call .tt)
    | .tt => chain [.times, .divide] (call .x) width
    | .x => both (call .y) (call .xx)
    | .xx =>
      if (← kindAhead) = some .pow then both (terminal .pow) (call .x) else return true
    | .y =>
      match ← kindAhead with
      | some .plus => both (terminal .plus) (call .f)
      | some .minus => both (terminal .minus) (call .f)
      | _ => call .f
    | .f =>
      match ← kindAhead with
      | some .lparen => both (terminal .lparen) (both (call .e) (terminal .rparen))
      | some .float => terminal .float
      | some .variable => terminal .variable
      | _ => return false

/-- A number of operators that no chain exceeds over the rest of a source. -/
def width (r : Recognition σ) : Nat := TokenSource.size r.source + 2

/-- A rule on its own. -/
def start (limit : Nat) (n : Nonterminal) : Recognize σ Bool := do
  rule (← get).width limit 0 n

/-- A computation whose exhaustion counts as too deep a nesting at the token ahead. -/
def nested {α : Type} (body : Recognize σ α) : Recognize σ α := fun r =>
  match body r with
  | .error .exhausted r =>
    .error (.nesting (r.lookahead.map (·.position)) (TokenSource.file r.source)) r
  | result => result

/-- Whether the whole input is one expression. -/
def recognize (limit : Nat) : Recognize σ Bool := do
  advance
  let complete ← nested (start limit .e)
  let rest := (← get).lookahead
  if complete then
    if let some token := rest then write (.trailing token.location)
  let accepted := complete && rest.isNone
  write (.verdict accepted)
  return accepted

end Recognition

end ArithCheck
