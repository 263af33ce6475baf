import ArithCheck.Position
import ArithCheck.Text.Utf8

/-!
# Faults and diagnostics

A fault is what can stop the scanning or the recognition of an input, by cause. An input that reads
well but is no expression is no fault: it is rejected.

A diagnostic is a message about a place in a file. Every part of the place may be missing; the
parts that are there stand in front of the message, joined by colons. The faults that are about the
input are reported as diagnostics.
-/

namespace ArithCheck

/-! ## Diagnostics -/

structure Diagnostic where
  message : String
  line : Option Int
  column : Option Int
  file : Option String
  deriving DecidableEq, Repr, Inhabited

namespace Diagnostic

/-- What a diagnostic is about. -/
inductive Category
  /-- Anything at all. -/
  | general
  /-- Bytes that no token can hold. -/
  | lexical
  /-- An expression that nests too deeply to be followed. -/
  | nesting
  deriving DecidableEq, Repr, Inhabited

namespace Category

def all : List Category := [.general, .lexical, .nesting]

/-- The name by which a caller knows the category. -/
def name : Category → String
  | .general => "ExprcheckError"
  | .lexical => "LexicalError"
  | .nesting => "NestingError"

/-- Whether every diagnostic of category `c` is one of category `d`. -/
def within (c d : Category) : Bool :=
  d = .general || c = d

end Category

/-- The known parts of the place, from the file to the column. -/
def place (d : Diagnostic) : List String :=
  d.file.toList ++ d.line.toList.map toString ++ d.column.toList.map toString

/-- The message behind its place. -/
def render (d : Diagnostic) : String :=
  if d.place.isEmpty then d.message
  else String.intercalate ":" d.place ++ " " ++ d.message

end Diagnostic

/-! ## Faults -/

/-- Why no lexeme could be completed. -/
inductive LexicalCause
  /-- A byte that nothing read so far can be followed by. -/
  | unexpectedByte (b : UInt8)
  /-- The input ends inside the lexeme that starts with these bytes. -/
  | unexpectedEnd (lexeme : List UInt8)
  deriving DecidableEq, Repr

/-- A printable ASCII byte is shown as the character that it is, any other by its code, and an
unfinished lexeme with one character a byte. -/
def LexicalCause.message : LexicalCause → String
  | .unexpectedByte b =>
    if 0x20 ≤ b && b < 0x7F then
      s!"Invalid character {Text.quoted (String.singleton (Char.ofNat b.toNat))}"
    else s!"Invalid byte 0x{String.ofList (Text.hex 2 b.toNat)}"
  | .unexpectedEnd lexeme =>
    let text := String.ofList (lexeme.map fun b => Char.ofNat b.toNat)
    s!"Unexpected end of input after {Text.quoted text}"

/-- Why a file cannot be read. -/
inductive ReadFailure
  | notFound
  /-- A file is used as a directory. -/
  | notDirectory
  /-- A directory is read as a file. -/
  | isDirectory
  | nameTooLong
  /-- Any other reason, with the number and the text that the system gives it. -/
  | other (number : Nat) (text : String)
  deriving DecidableEq, Repr

namespace ReadFailure

def number : ReadFailure → Nat
  | .notFound => 2
  | .notDirectory => 20
  | .isDirectory => 21
  | .nameTooLong => 36
  | .other number _ => number

def text : ReadFailure → String
  | .notFound => "No such file or directory"
  | .notDirectory => "Not a directory"
  | .isDirectory => "Is a directory"
  | .nameTooLong => "File name too long"
  | .other _ text => text

end ReadFailure

inductive Fault
  /-- No lexeme can be completed; the position is that of the byte at fault. -/
  | lexical (cause : LexicalCause) (position : Position) (file : Option String)
  /-- The expression nests too deeply; the position is that of the token ahead, if there is one. -/
  | nesting (position : Option Position) (file : Option String)
  /-- A limit on the work in progress is reached. -/
  | exhausted
  /-- An automaton that accepts the empty lexeme keeps the scanner from ever moving on. -/
  | stalled
  /-- A closed stream was used. -/
  | closedStream
  /-- A stream was sent to a place before its start. -/
  | negativeSeek (place : Int)
  /-- An automaton was asked about something that is none of its states. -/
  | unknownState (state : Int)
  /-- An automaton was asked about a symbol that is no byte. -/
  | outsideAlphabet (symbol : Int)
  /-- An automaton named a kind of token that does not exist. -/
  | unknownTag (tag : Int)
  /-- There is no kind of token of this name. -/
  | unknownName (name : String)
  /-- A field of something that cannot be changed was assigned to. -/
  | frozenField (name : String)
  /-- A record of settings was expected and something of another type given. -/
  | noRecord (typeName : String)
  /-- A file cannot be read. -/
  | unreadable (path : String) (failure : ReadFailure)
  /-- No file can be named by a path that holds a NUL. -/
  | embeddedNull
  /-- A lexeme is not UTF-8. -/
  | undecodable (fault : Text.Utf8.Fault)
  deriving DecidableEq, Repr

namespace Fault

/-- What is wrong with an expression that nests too deeply. -/
def nestingText : String := "Expression nested too deeply"

/-- The two faults that are about the input have a place in it. -/
def diagnostic? : Fault → Option Diagnostic
  | .lexical cause position file =>
    some ⟨cause.message, some position.line, some position.column, file⟩
  | .nesting position file =>
    some ⟨nestingText, position.map (·.line), position.map (·.column), file⟩
  | _ => none

/-- What is wrong, without the place. -/
def text : Fault → String
  | .lexical cause .. => cause.message
  | .nesting .. => nestingText
  | .exhausted => "exhausted"
  | .stalled => "no progress"
  | .closedStream => "I/O operation on closed file."
  | .negativeSeek place => s!"negative seek value {place}"
  | .unknownState state => s!"unknown state {state}"
  | .outsideAlphabet symbol => s!"symbol {symbol} outside alphabet"
  | .unknownTag tag => s!"{tag} is not a valid TokenType"
  | .unknownName name => Text.quoted name
  | .frozenField name => s!"cannot assign to field {Text.quoted name}"
  | .noRecord typeName => s!"'{typeName}' object has no attribute 'items'"
  | .unreadable path failure => s!"[Errno {failure.number}] {failure.text}: {Text.quoted path}"
  | .embeddedNull => "embedded null byte"
  | .undecodable fault => fault.message

/-- The name by which a caller knows the kind of a fault. -/
def kindName : Fault → String
  | .lexical .. => Diagnostic.Category.lexical.name
  | .nesting .. => Diagnostic.Category.nesting.name
  | .exhausted => "RecursionError"
  | .stalled => "Stalled"
  | .closedStream | .negativeSeek _ | .unknownTag _ | .embeddedNull => "ValueError"
  | .unknownState _ | .outsideAlphabet _ => "AssertionError"
  | .unknownName _ => "KeyError"
  | .frozenField _ => "FrozenInstanceError"
  | .noRecord _ => "AttributeError"
  | .unreadable _ .notFound => "FileNotFoundError"
  | .unreadable _ .notDirectory => "NotADirectoryError"
  | .unreadable _ .isDirectory => "IsADirectoryError"
  | .unreadable .. => "OSError"
  | .undecodable _ => "UnicodeDecodeError"

/-- The text of a fault, behind its place if it has one. -/
def message (fault : Fault) : String :=
  (fault.diagnostic?.map Diagnostic.render).getD fault.text

end Fault

end ArithCheck
