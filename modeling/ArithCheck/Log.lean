import ArithCheck.Grammar
import ArithCheck.Token

/-!
# Logs

A log is the sequence of records that scanning and recognizing write: the tokens produced and the
rules entered, if they are traced, and what becomes of an expression. Every record belongs to a
channel, which is named below the channel of the whole program.
-/

namespace ArithCheck

namespace Log

/-- The name of the channel that all others are below. -/
def root : String := "exprcheck"

/-- The level of every record. -/
def level : String := "DEBUG"

/-- A name below the root channel, unless it is the root channel or stands below it already. -/
def qualify (name : String) : String :=
  if name = root || (root ++ ".").isPrefixOf name then name else root ++ "." ++ name

inductive Channel
  | scanner
  | recognizer
  deriving DecidableEq, Repr

def Channel.name : Channel → String
  | .scanner => qualify "lexer.core"
  | .recognizer => qualify "recognizer"

inductive Record
  /-- A token is produced. -/
  | token (t : Token)
  /-- A rule of the grammar is entered with a token ahead; `active` rules are now in progress, this
  one included. -/
  | enter (n : Nonterminal) (active : Nat) (ahead : Option Token)
  /-- Input is left over after an expression. -/
  | trailing (l : Location)
  | verdict (accepted : Bool)
  deriving DecidableEq, Repr

namespace Record

def channel : Record → Channel
  | .token _ => .scanner
  | _ => .recognizer

/-- The text of a record. -/
def text : Record → String
  | .token t => s!"token {t.describe}"
  | .enter n _ ahead => s!"{n.name} at {Token.describe? ahead}"
  | .trailing l => s!"trailing input at {l.render}"
  | .verdict true => "verdict: accept"
  | .verdict false => "verdict: reject"

end Record

end Log

/-- Records in the order in which they were written. -/
abbrev Log := Array Log.Record

end ArithCheck
