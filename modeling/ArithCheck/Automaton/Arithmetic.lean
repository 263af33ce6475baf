import ArithCheck.Automaton
import ArithCheck.Token

/-!
# The lexicon of arithmetic

Its lexemes are

* numbers: digits, with a point and more digits behind them or without;
* variables: letters;
* the operators and brackets `+ - * / ^ ( )`, one byte each;
* blanks: spaces, tabs, carriage returns and line feeds.

`State.next?` has the transitions between the thirteen states. `successor` and `value` answer the
same for the numbers of states and symbols, and refuse numbers that stand for none; `arithmetic`
is the automaton that goes through them.
-/

namespace ArithCheck

namespace Arithmetic

def isDigit (b : UInt8) : Bool := 0x30 ≤ b && b ≤ 0x39

def isLetter (b : UInt8) : Bool := 0x41 ≤ b && b ≤ 0x5A || 0x61 ≤ b && b ≤ 0x7A

/-- Space, tab, carriage return and line feed. -/
def isBlank (b : UInt8) : Bool := b = 0x20 || b = 0x09 || b = 0x0D || b = 0x0A

/-- What has been read of a lexeme. -/
inductive State
  /-- Nothing. -/
  | start
  /-- Digits. -/
  | integer
  /-- Digits and a point, which more digits have to follow. -/
  | point
  /-- Digits, a point and digits. -/
  | fraction
  /-- Letters. -/
  | identifier
  | plus | minus | times | divide | pow | lparen | rparen
  /-- Blanks. -/
  | blank
  deriving DecidableEq, Repr, Inhabited

namespace State

/-- Every state, in the order of the numbers. -/
def all : List State :=
  [.start, .integer, .point, .fraction, .identifier, .plus, .minus, .times, .divide, .pow,
    .lparen, .rparen, .blank]

/-- The number of a state. The numbers run from 1, and 0 stands for no state. -/
def code : State → Int
  | .start => 1
  | .integer => 2
  | .point => 3
  | .fraction => 4
  | .identifier => 5
  | .plus => 6
  | .minus => 7
  | .times => 8
  | .divide => 9
  | .pow => 10
  | .lparen => 11
  | .rparen => 12
  | .blank => 13

/-- The state with a given number. -/
def ofCode? (n : Int) : Option State :=
  all.find? (·.code = n)

/-- Whether a lexeme may end in the state. -/
def isFinal : State → Bool
  | .start | .point => false
  | _ => true

/-- The state of the single-byte lexeme of an operator or bracket. -/
def ofPunctuation? (b : UInt8) : Option State :=
  if b = 0x2B then some .plus
  else if b = 0x2D then some .minus
  else if b = 0x2A then some .times
  else if b = 0x2F then some .divide
  else if b = 0x5E then some .pow
  else if b = 0x28 then some .lparen
  else if b = 0x29 then some .rparen
  else none

/-- The state after one more byte, if the byte may follow. -/
def next? (s : State) (b : UInt8) : Option State :=
  match s with
  | .start =>
    if isDigit b then some .integer
    else if isLetter b then some .identifier
    else if isBlank b then some .blank
    else ofPunctuation? b
  | .integer => if isDigit b then some .integer else if b = 0x2E then some .point else none
  | .point | .fraction => if isDigit b then some .fraction else none
  | .identifier => if isLetter b then some .identifier else none
  | .blank => if isBlank b then some .blank else none
  | _ => none

/-- The kind of token that ends in the state. Blanks are no tokens, and at `start` and `point` no
lexeme ends. -/
def kind? : State → Option Token.Kind
  | .integer | .fraction => some .float
  | .identifier => some .variable
  | .plus => some .plus
  | .minus => some .minus
  | .times => some .times
  | .divide => some .divide
  | .pow => some .pow
  | .lparen => some .lparen
  | .rparen => some .rparen
  | .start | .point | .blank => none

/-- The tag of the kind, 0 for blanks, and -1 where no lexeme ends. -/
def tag (s : State) : Int :=
  match s.kind? with
  | some k => k.tag
  | none => if s = .blank then 0 else -1

theorem mem_all (s : State) : s ∈ all := by cases s <;> decide

@[simp] theorem ofCode?_code (s : State) : ofCode? s.code = some s := by cases s <;> decide

theorem code_of_ofCode? {n : Int} {s : State} (h : ofCode? n = some s) : s.code = n := by
  simpa using List.find?_some h

theorem code_ne_zero (s : State) : s.code ≠ 0 := by cases s <;> decide

theorem code_injective {s t : State} (h : s.code = t.code) : s = t := by
  have := congrArg ofCode? h
  simpa using this

end State

/-- The state with a given number, or a fault. -/
def stateOf (n : Int) : Except Fault State :=
  match State.ofCode? n with
  | some s => .ok s
  | none => .error (.unknownState n)

/-- The number of the state after a symbol, both given as numbers; 0 if there is none. At the end
of the stream, symbol -1, there is none whatever the state. -/
def successor (state symbol : Int) : Except Fault Int := do
  if symbol = -1 then return 0
  let s ← stateOf state
  if 0 ≤ symbol && symbol < 256 then
    return ((s.next? (UInt8.ofNat symbol.toNat)).map State.code).getD 0
  else throw (.outsideAlphabet symbol)

/-- The tag of a state given by its number. -/
def value (state : Int) : Except Fault Int :=
  (stateOf state).map State.tag

/-- The numbers of the states that an input leads through, up to the 0 after which there is
nothing to follow. -/
def walk (state : Int) : List UInt8 → List Int
  | [] => [state]
  | b :: rest =>
    match successor state b.toNat with
    | .ok next => if next = 0 then [state, 0] else state :: walk next rest
    | .error _ => [state]

/-- The numbers of the final states. -/
def finals : List Int :=
  (State.all.filter State.isFinal).map State.code

/-- How many states there are, and how many of them are final. -/
def describe : String :=
  s!"ArithmeticAutomaton(states={State.all.length}, final={finals.length})"

/-- The automaton of the lexicon. -/
def arithmetic : Automaton where
  start := State.start.code
  isFinal := finals.contains
  next state b := (successor state b.toNat).map fun n => if n = 0 then none else some n
  finish state := (successor state (-1)).map fun _ => ()
  tag := value

/-- The successor of a state on a byte. -/
theorem successor_code (s : State) (b : UInt8) :
    successor s.code b.toNat = .ok (((s.next? b).map State.code).getD 0) := by
  have hb : b.toNat < 256 := b.toNat_lt
  have hbyte : (0 ≤ (b.toNat : Int) && (b.toNat : Int) < 256) = true := by simp; omega
  have hend : (b.toNat : Int) ≠ -1 := by omega
  simp only [successor, if_neg hend, stateOf, State.ofCode?_code, bind, Except.bind, hbyte, if_true,
    pure, Except.pure, Int.toNat_natCast, UInt8.ofNat_toNat]

theorem value_code (s : State) : value s.code = .ok s.tag := by
  simp [value, stateOf, Except.map]

/-- On the numbers of states the automaton answers as the states do. -/
theorem arithmetic_next (s : State) (b : UInt8) :
    arithmetic.next s.code b = .ok ((s.next? b).map State.code) := by
  simp only [arithmetic, successor_code, Except.map]
  cases s.next? b with
  | none => rfl
  | some t => simp [State.code_ne_zero]

theorem arithmetic_finish (state : Int) : arithmetic.finish state = .ok () := rfl

theorem arithmetic_isFinal (s : State) : arithmetic.isFinal s.code = s.isFinal := by
  cases s <;> decide

theorem arithmetic_tag (s : State) : arithmetic.tag s.code = .ok s.tag := value_code s

end Arithmetic

end ArithCheck
