import ArithCheck.Fault

/-!
# Tokens

A token is a lexeme with its kind, the position of its first byte and the file it was read from.

There are nine kinds of tokens of an arithmetic expression. A kind has a tag, the number by which
an automaton names it; the tags of the kinds are the numbers from 1 to 9.
-/

namespace ArithCheck

namespace Token

inductive Kind
  | float | variable | plus | minus | times | divide | pow | lparen | rparen
  deriving DecidableEq, Repr, Inhabited

namespace Kind

/-- Every kind, in the order of the tags. -/
def all : List Kind :=
  [.float, .variable, .plus, .minus, .times, .divide, .pow, .lparen, .rparen]

def tag : Kind → Int
  | .float => 1
  | .variable => 2
  | .plus => 3
  | .minus => 4
  | .times => 5
  | .divide => 6
  | .pow => 7
  | .lparen => 8
  | .rparen => 9

def name : Kind → String
  | .float => "FLOAT"
  | .variable => "VARIABLE"
  | .plus => "PLUS"
  | .minus => "MINUS"
  | .times => "TIMES"
  | .divide => "DIVIDE"
  | .pow => "POW"
  | .lparen => "LPAREN"
  | .rparen => "RPAREN"

/-- The name in lowercase, for listings. -/
def label : Kind → String
  | .float => "float"
  | .variable => "variable"
  | .plus => "plus"
  | .minus => "minus"
  | .times => "times"
  | .divide => "divide"
  | .pow => "pow"
  | .lparen => "lparen"
  | .rparen => "rparen"

/-- The kind with a given tag. -/
def ofTag? (n : Int) : Option Kind :=
  all.find? (·.tag = n)

/-- The kind with a given name. -/
def ofName? (s : String) : Option Kind :=
  all.find? (·.name = s)

/-- The kind with a given tag, or a fault. -/
def ofTag (n : Int) : Except Fault Kind :=
  match ofTag? n with
  | some k => .ok k
  | none => .error (.unknownTag n)

/-- The kind with a given name, or a fault. -/
def ofName (s : String) : Except Fault Kind :=
  match ofName? s with
  | some k => .ok k
  | none => .error (.unknownName s)

theorem mem_all (k : Kind) : k ∈ all := by cases k <;> decide

@[simp] theorem ofTag?_tag (k : Kind) : ofTag? k.tag = some k := by cases k <;> decide

theorem tag_of_ofTag? {n : Int} {k : Kind} (h : ofTag? n = some k) : k.tag = n := by
  simpa using List.find?_some h

theorem ofTag?_eq_some_iff {n : Int} {k : Kind} : ofTag? n = some k ↔ k.tag = n :=
  ⟨tag_of_ofTag?, fun h => h ▸ ofTag?_tag k⟩

@[simp] theorem ofTag_tag (k : Kind) : ofTag k.tag = .ok k := by simp [ofTag]

end Kind

end Token

structure Token where
  kind : Token.Kind
  value : String
  position : Position
  file : Option String
  deriving DecidableEq, Repr, Inhabited

namespace Token

/-- Where the token stands. The end counts the characters of the lexeme. -/
def location (t : Token) : Location where
  line := t.position.line
  column := t.position.column
  endColumn := some (t.position.column + t.value.length)
  file := t.file

/-- A token stays as it is: to assign to one of its fields is a fault. -/
def assign (_ : Token) (field : String) : Except Fault Token := .error (.frozenField field)

/-- The kind, the lexeme and the position, for logs. -/
def describe (t : Token) : String :=
  s!"Token({t.kind.name}, {Text.quoted t.value}, {t.position})"

/-- A token that may be absent. -/
def describe? : Option Token → String
  | none => "None"
  | some t => t.describe

end Token

end ArithCheck
