import ArithCheck.Command.Options
import ArithCheck.Examination
import ArithCheck.Path

/-!
# The command

The command examines one file. It prints a verdict, or the tokens of the file if it is asked to,
and complains about everything that keeps it from doing so. Its exit code tells the causes apart.

`perform` works on the contents of the file, or on the fault with which it could not be read. It
runs under settings of its own, and leaves the settings as they were.
-/

namespace ArithCheck.Command

/-- What the command complains about. -/
inductive Complaint
  | usage (e : UsageError)
  /-- A fault in the file, or one that keeps it from being read. -/
  | fault (f : Fault)
  deriving DecidableEq, Repr

/-- The line that says what is wrong, behind a reminder of the usage where that is wrong. -/
def Complaint.text : Complaint → String
  | .usage e => s!"{Command.usage}exprcheck: error: {e.message}\n"
  | .fault (.unreadable path failure) => s!"error: cannot read {path}: {failure.text}\n"
  | .fault f => s!"error: {f.message}\n"

/-- The exit code of a lexical fault. -/
def lexicalCode : Nat := 1

/-- The exit code where there is no file to examine. -/
def unreadableCode : Nat := 2

/-- The exit code of an expression that nests too deeply. -/
def nestingCode : Nat := 3

def Complaint.code : Complaint → Nat
  | .fault (.lexical ..) => lexicalCode
  | .fault (.nesting ..) => nestingCode
  | _ => unreadableCode

/-- What the command leaves behind: what it printed, the records of the log that it showed, and
what it complained about in the end. -/
structure Outcome where
  output : String
  log : Log
  complaint : Option Complaint
  deriving Repr

namespace Outcome

def code (o : Outcome) : Nat :=
  match o.complaint with
  | some complaint => complaint.code
  | none => 0

/-- The records of the log, a line each, behind the names of their channels. -/
def logText (o : Outcome) : String :=
  String.join (o.log.toList.map fun r => s!"{r.channel.name}: {r.text}\n")

/-- All that is written besides the output. -/
def errors (o : Outcome) : String :=
  o.logText ++ (o.complaint.map Complaint.text).getD ""

end Outcome

/-- A token of the listing: its position, its kind and its lexeme. -/
def listing (t : Token) : String :=
  s!"{t.position} {t.kind.label} {Text.quoted t.value}\n"

/-- The verdict that is printed. -/
def verdictText (accepted : Bool) : String :=
  if accepted then "accept\n" else "reject\n"

/-- The listing of the tokens of a file, which ends where a fault comes up. -/
def listTokens (settings : Settings) (stream : Stream) (file : String) : Outcome :=
  let reader := settings.reader Arithmetic.arithmetic (some file)
  let tape := Scanner.tape ⟨reader, stream⟩
  { output := String.join (tape.tokens.map listing)
    log := (Log.ofTape tape).toArray
    complaint := tape.fault.map .fault }

/-- The verdict on a file. -/
def judge (limit : Nat) (settings : Settings) (stream : Stream) (file : String) : Outcome :=
  let e := Examination.ofStream limit settings stream (some file)
  match e.verdict with
  | .ok accepted => ⟨verdictText accepted, e.log, none⟩
  | .error fault => ⟨"", e.log, some (.fault fault)⟩

/-- Whether the log is shown. -/
def Options.showsLog (o : Options) : Bool := o.verbose || o.trace

/-- The name of the file to be read. -/
def Options.file (o : Options) : String := Path.normalize o.path

/-- What the command does with the contents of its file. A file that cannot be read is complained
about; a path that can name no file is a fault of the call itself. -/
def perform (limit : Nat) (options : Options) (contents : Except Fault (List UInt8)) :
    EStateM Fault Settings Outcome :=
  Settings.within (.traceAll options.trace) do
    match contents with
    | .error (.unreadable path failure) =>
      return ⟨"", #[], some (.fault (.unreadable path failure))⟩
    | .error fault => throw fault
    | .ok bytes =>
      let settings ← Settings.current
      let examine := if options.tokens then listTokens else judge limit
      let outcome := examine settings (.ofBytes bytes) options.file
      return { outcome with log := if options.showsLog then outcome.log else #[] }

/-- What the command does with its arguments, given a way to read files. -/
def run (limit : Nat) (read : String → Except Fault (List UInt8)) (arguments : List String) :
    EStateM Fault Settings Outcome :=
  match parse arguments with
  | .error error => return ⟨"", #[], some (.usage error)⟩
  | .ok .help => return ⟨help, #[], none⟩
  | .ok (.check options) => perform limit options (read options.file)

end ArithCheck.Command
