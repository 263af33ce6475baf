import ArithCheck.Automaton.Arithmetic
import ArithCheck.Recognition
import ArithCheck.Settings

/-!
# Examining a byte string

The whole way from a byte string to a verdict: a scanner with the arithmetic lexicon and a
recognizer over it, both made under given settings. `recognize`, `recognizeFile` and `tokens` are
the questions that need no more than an answer.
-/

namespace ArithCheck

open Arithmetic (arithmetic)

namespace Settings

/-- A scanner made under the settings. -/
def reader (settings : Settings) (automaton : Automaton) (file : Option String) : Reader :=
  .new automaton file settings.traceTokens.isOn

/-- A recognizer made under the settings. -/
def recognizer (settings : Settings) : Recognizer := .new settings.traceRules.isOn

end Settings

/-- The end of a recognition: its verdict or fault, the scanner and the token ahead as they were
left, and the log. -/
structure Examination where
  verdict : Except Fault Bool
  scanner : Scanner
  lookahead : Option Token
  log : Log

namespace Examination

/-- The number of bytes read. -/
def read (e : Examination) : Nat := e.scanner.stream.position

/-- How a recognition ended. -/
def ofResult : EStateM.Result Fault (Recognition Scanner) Bool → Examination
  | .ok accepted r => ⟨.ok accepted, r.source, r.lookahead, r.log⟩
  | .error fault r => ⟨.error fault, r.source, r.lookahead, r.log⟩

/-- The examination of a stream under given settings, with at most `limit` rules in progress. -/
def ofStream (limit : Nat) (settings : Settings) (stream : Stream) (file : Option String) :
    Examination :=
  ofResult (Recognition.recognize limit
    { settings.recognizer with
      source := ⟨settings.reader arithmetic file, stream⟩
      log := #[] })

/-- The examination of a byte string. -/
def ofBytes (limit : Nat) (settings : Settings) (bytes : List UInt8) (file : Option String) :
    Examination :=
  ofStream limit settings (.ofBytes bytes) file

end Examination

/-- Whether a byte string is an expression. -/
def recognize (limit : Nat) (settings : Settings) (bytes : List UInt8) (file : Option String) :
    Except Fault Bool :=
  (Examination.ofBytes limit settings bytes file).verdict

/-- Whether the contents of a file are an expression, given a way to read files. The file is the
stream of a scanner of its own, which is named after it. -/
def recognizeFile (limit : Nat) (settings : Settings) (read : String → Except Fault (List UInt8))
    (path : String) : Except Fault Bool := do
  let stream := Stream.ofBytes (← read path)
  let scanner : Scanner := ⟨settings.reader arithmetic (some path), stream⟩
  let start : Recognition Scanner := ⟨settings.recognizer, scanner, #[]⟩
  (Examination.ofResult (Recognition.recognize limit start)).verdict

/-- The tokens of a byte string. -/
def tokens (bytes : List UInt8) (file : Option String) : Except Fault (List Token) :=
  (Scanner.ofBytes arithmetic bytes file false).tape.complete

/-- The version of the package. -/
def version : String := "0.1.0"

/-- The names that the package makes public, in the order of their characters. -/
def publicNames : List String := [
  "ArithmeticAutomaton", "Automaton", "ExprcheckError", "LexicalError", "NestingError",
  "Recognizer", "RecognizerConfig", "Scanner", "SourceLocation", "Token", "TokenType",
  "__version__", "config_context", "get_config", "recognize", "recognize_file", "reset_config",
  "set_config", "tokenize"]

end ArithCheck
