import ArithCheck.Automaton
import ArithCheck.Stream
import ArithCheck.Token

/-!
# Scanning

A scanner cuts a stream of bytes into lexemes along an automaton and makes tokens of them, one at
a time. A lexeme goes on for as long as the automaton can follow the input; the symbol at which it
stops is held back and looked at again at the start of the next lexeme. Nothing is ever put back
beyond that: where the automaton stops in a state that is not final there is no lexeme, even if a
shorter one would have been complete.

`munch` takes one lexeme, and `nextToken` takes lexemes up to the first that makes a token.
-/

namespace ArithCheck

/-- A scanner without its stream: its lexicon, the name of its file, whether it traces tokens, the
symbol held back, the lexeme taken last and the position of the first byte not in any lexeme. -/
structure Reader where
  automaton : Automaton
  file : Option String
  tracing : Bool
  pending : Option Symbol
  buffer : List UInt8
  position : Position

/-- A scanner with the stream that it reads. -/
structure Scanner extends Reader where
  stream : Stream

/-- A computation that moves a scanner on, whether it succeeds or ends in a fault. -/
abbrev Scan (α : Type) : Type := Scanner → EStateM.Result Fault Scanner α

namespace Reader

/-- A scanner at the start of its input. -/
def new (automaton : Automaton) (file : Option String) (tracing : Bool) : Reader :=
  ⟨automaton, file, tracing, none, [], .start⟩

/-- Whether the end of the input has been met. -/
def atEnd (r : Reader) : Bool := r.pending = some .endOfStream

end Reader

namespace Scanner

/-- A scanner of a byte string. -/
def ofBytes (automaton : Automaton) (bytes : List UInt8) (file : Option String)
    (tracing : Bool) : Scanner :=
  ⟨.new automaton file tracing, .ofBytes bytes⟩

/-- The byte held back, if it is one. -/
def held (s : Scanner) : List UInt8 :=
  match s.pending with
  | some (.byte b) => [b]
  | _ => []

/-- The bytes that can still be read from the stream. It is not read while the end is held back. -/
def available (s : Scanner) : List UInt8 :=
  if s.stream.closed || s.atEnd then [] else s.stream.unread

/-- The bytes to be scanned: the one held back and those that can still be read. -/
def input (s : Scanner) : List UInt8 := s.held ++ s.available

/-- The lexeme that the automaton follows, and where it stops. -/
def trail (s : Scanner) : Automaton.Trail :=
  s.automaton.follow s.automaton.start s.input

/-- The scanner after a trail: its lexeme and the byte behind it have been read, and nothing is
held back. -/
def after (s : Scanner) (t : Automaton.Trail) : Scanner :=
  { s with
    pending := none
    buffer := t.lexeme
    position := s.position.advance t.lexeme
    stream := s.stream.advance (t.lexeme.length + (t.rest.take 1).length - s.held.length) }

/-- The symbol behind a trail. The end is the one held back, or else it is found by reading the
stream, which has to be open for that. -/
def symbolAfter (s : Scanner) (t : Automaton.Trail) : Except Fault Symbol :=
  match t.rest with
  | b :: _ => .ok (.byte b)
  | [] => if s.stream.closed && !s.atEnd then .error .closedStream else .ok .endOfStream

/-- The fault of a symbol at which no lexeme can end. -/
def unexpected (s : Scanner) (symbol : Symbol) : Fault :=
  let cause := match symbol with
    | .byte b => LexicalCause.unexpectedByte b
    | .endOfStream => .unexpectedEnd s.buffer
  .lexical cause s.position s.file

/-- Takes one lexeme and gives its tag, or nothing where the input ends in the state in which
lexemes start. The symbol behind the lexeme is held back, but a symbol that is at fault is lost. -/
def munch : Scan (Option Int) := fun s =>
  let t := s.trail
  let taken := s.after t
  match s.symbolAfter t with
  | .error fault => .error fault taken
  | .ok symbol =>
    match s.automaton.step t.state symbol with
    | .error fault => .error fault taken
    | .ok _ =>
      let held := { taken with pending := some symbol }
      if s.automaton.isFinal t.state then
        match s.automaton.tag t.state with
        | .error fault => .error fault held
        | .ok tag => .ok (some tag) held
      else if symbol = .endOfStream && t.state = s.automaton.start then .ok none held
      else .error (taken.unexpected symbol) taken

/-- The token of the lexeme taken last, which started at `position` and has a tag other than that
of a lexeme to be dropped. -/
def tokenOf (s : Scanner) (position : Position) (tag : Int) : Except Fault Token := do
  let kind ← Token.Kind.ofTag tag
  let value ← (Text.Utf8.decode s.buffer).mapError .undecodable
  return ⟨kind, value, position, s.file⟩

/-- The next token. Lexemes with the tag 0 are dropped; unless it is empty, each of them takes a
byte, so that `bound` need not be longer than the input, and one more for the end. -/
def nextTokenWithin : (bound : List UInt8) → Scan (Option Token)
  | [], s => .error .stalled s
  | _ :: bound, s =>
    if s.atEnd then .ok none s
    else match munch s with
      | .error fault s' => .error fault s'
      | .ok none s' => .ok none s'
      | .ok (some tag) s' =>
        if tag = 0 then nextTokenWithin bound s'
        else match s'.tokenOf s.position tag with
          | .error fault => .error fault s'
          | .ok token => .ok (some token) s'

/-- A list that is longer than the bytes to be scanned. -/
def bound (s : Scanner) : List UInt8 := 0 :: 0 :: s.stream.unread

/-- The next token, or nothing at the end of the input, from where on nothing is read any more. -/
def nextToken : Scan (Option Token) := fun s => nextTokenWithin s.bound s

end Scanner

end ArithCheck
