import ArithCheck.Text.Quoted

/-!
# Options of the command

The command takes one path and four flags, in any order. Every argument is first classified on its
own: long flags may be shortened as far as they stay unambiguous, short flags may be joined, and
an argument that looks like a negative number or holds a space is no flag. What follows a first
`--` is no flag either. Then the arguments are gone through from left to right.
-/

namespace ArithCheck.Command

inductive Flag
  | help | tokens | trace | verbose
  deriving DecidableEq, Repr, Inhabited

namespace Flag

/-- The ways to write the flags, in the order in which they are listed. -/
def spellings : List (String × Flag) := [
  ("-h", .help), ("--help", .help), ("--tokens", .tokens), ("--trace", .trace),
  ("-v", .verbose), ("--verbose", .verbose)]

/-- The flag that is written in exactly this way. -/
def ofSpelling? (s : String) : Option Flag :=
  (spellings.find? (·.1 = s)).map (·.2)

/-- All the ways to write a flag. -/
def name (f : Flag) : String :=
  String.intercalate "/" ((spellings.filter (·.2 = f)).map (·.1))

end Flag

/-- What is wrong with the arguments. -/
inductive UsageError
  /-- A shortened flag could be any of several. -/
  | ambiguous (argument : String) (candidates : List String)
  /-- A flag is given a value. -/
  | ignoredValue (flag : Flag) (value : String)
  | missingPath
  | unrecognized (arguments : List String)
  deriving DecidableEq, Repr

def UsageError.message : UsageError → String
  | .ambiguous argument candidates =>
    let names := String.intercalate ", " candidates
    s!"ambiguous option: {argument} could match {names}"
  | .ignoredValue flag value =>
    s!"argument {flag.name}: ignored explicit argument {Text.quoted value}"
  | .missingPath => "the following arguments are required: path"
  | .unrecognized arguments => "unrecognized arguments: " ++ String.intercalate " " arguments

/-- An argument on its own. -/
inductive Argument
  | positional (text : String)
  /-- The first `--`, after which there are no more flags. -/
  | separator
  /-- A flag, the spelling that it was found by, and the text joined to that. -/
  | flag (flag : Flag) (spelling : String) (value : Option String)
  /-- What looks like a flag and is none. -/
  | unknown (text : String)
  deriving DecidableEq, Repr

/-- A text that is split at its first `=`, if it has one. -/
def splitValue (text : String) : String × Option String :=
  let cs := text.toList
  match cs.dropWhile (· ≠ '=') with
  | [] => (text, none)
  | _ :: value => (String.ofList (cs.takeWhile (· ≠ '=')), some (String.ofList value))

/-- Digits, or a point with digits behind it and perhaps before it, after a minus sign. A line
feed at the very end does not matter. -/
def looksNegative (text : String) : Bool :=
  match text.toList with
  | '-' :: cs =>
    let cs := if cs.getLast? = some '\n' then cs.dropLast else cs
    match cs.dropWhile Text.isDecimalDigit with
    | [] => !cs.isEmpty
    | '.' :: fraction => !fraction.isEmpty && fraction.all Text.isDecimalDigit
    | _ => false
  | _ => false

/-- The flags that a text which is no flag's full spelling may stand for: a long flag may be cut
short, and a short flag may have more joined to it. -/
def candidates (text : String) : List (Flag × String × Option String) :=
  match text.toList with
  | '-' :: '-' :: _ =>
    let (short, value) := splitValue text
    Flag.spellings.filterMap fun (spelling, flag) =>
      if short.toList.isPrefixOf spelling.toList then some (flag, spelling, value) else none
  | '-' :: c :: joined =>
    Flag.spellings.filterMap fun (spelling, flag) =>
      if spelling.toList = ['-', c] then some (flag, spelling, some (String.ofList joined))
      else none
  | _ => []

/-- What an argument is that does not come after a separator. -/
def classify (text : String) : Except UsageError Argument :=
  if !(text.toList.head? = some '-') || text = "-" then .ok (.positional text)
  else match Flag.ofSpelling? text with
    | some flag => .ok (.flag flag text none)
    | none =>
      let (spelling, value) := splitValue text
      match value, Flag.ofSpelling? spelling with
      | some value, some flag => .ok (.flag flag spelling (some value))
      | _, _ =>
        match candidates text with
        | [(flag, spelling, value)] => .ok (.flag flag spelling value)
        | [] =>
          if looksNegative text || text.toList.contains ' ' then .ok (.positional text)
          else .ok (.unknown text)
        | several => .error (.ambiguous text (several.map (·.2.1)))

/-- What the arguments are. -/
def classifyAll : List String → Except UsageError (List Argument)
  | [] => .ok []
  | text :: rest =>
    if text = "--" then .ok (.separator :: rest.map .positional)
    else do
      let argument ← classify text
      return argument :: (← classifyAll rest)

/-- The flags joined in one argument. To a short flag more short flags can be joined; anything
else joined to a flag is a value, which no flag takes. -/
def joinedFlags (flag : Flag) (long : Bool) : List Char → Except UsageError (List Flag)
  | [] => .error (.ignoredValue flag "")
  | c :: rest =>
    if long then .error (.ignoredValue flag (String.ofList (c :: rest)))
    else match Flag.ofSpelling? (String.ofList ['-', c]) with
      | none => .error (.ignoredValue flag (String.ofList (c :: rest)))
      | some next =>
        if rest.isEmpty then .ok [flag, next]
        else (joinedFlags next false rest).map (flag :: ·)

/-- The flags of an argument. -/
def flagsOf (flag : Flag) (spelling : String) : Option String → Except UsageError (List Flag)
  | none => .ok [flag]
  | some value => joinedFlags flag (spelling.toList.take 2 = ['-', '-']) value.toList

/-- The options: the path of the file and the flags that are set. -/
structure Options where
  path : String
  tokens : Bool
  trace : Bool
  verbose : Bool
  deriving DecidableEq, Repr

/-- What the arguments ask for. -/
inductive Request
  | help
  | check (options : Options)
  deriving DecidableEq, Repr

/-- What is known after some of the arguments. -/
structure Progress where
  path : Option String
  flags : List Flag
  /-- The arguments that found no use, the last one first. -/
  extra : List String

namespace Progress

def addExtra (p : Progress) (text : String) : Progress := { p with extra := text :: p.extra }

/-- The request when all arguments are gone through. -/
def finish (p : Progress) : Except UsageError Request :=
  match p.path with
  | none => .error .missingPath
  | some path =>
    if p.extra.isEmpty then
      .ok (.check ⟨path, p.flags.contains .tokens, p.flags.contains .trace,
        p.flags.contains .verbose⟩)
    else .error (.unrecognized p.extra.reverse)

/-- Goes through the arguments. The first positional argument is the path, and a separator just
before or behind it is dropped with it. A request for help is granted as soon as it is met. -/
def consume (p : Progress) : List Argument → Except UsageError Request
  | [] => p.finish
  | .flag flag spelling value :: rest => do
    let flags ← flagsOf flag spelling value
    if flags.contains .help then return .help
    { p with flags := flags ++ p.flags }.consume rest
  | .unknown text :: rest => (p.addExtra text).consume rest
  | .positional text :: .separator :: rest =>
    match p.path with
    | none => { p with path := some text }.consume rest
    | some _ => ((p.addExtra text).addExtra "--").consume rest
  | .positional text :: rest =>
    match p.path with
    | none => { p with path := some text }.consume rest
    | some _ => (p.addExtra text).consume rest
  | .separator :: .positional text :: rest =>
    match p.path with
    | none => { p with path := some text }.consume rest
    | some _ => ((p.addExtra "--").addExtra text).consume rest
  | .separator :: rest => (p.addExtra "--").consume rest

end Progress

/-- What the arguments ask for, if they are in order. -/
def parse (arguments : List String) : Except UsageError Request := do
  Progress.consume ⟨none, [], []⟩ (← classifyAll arguments)

/-- The first line of what the command says about itself. -/
def usage : String := "usage: exprcheck [-h] [--tokens] [--trace] [-v] path\n"

/-- What the command says about itself. -/
def help : String := usage ++ "
Check whether a file holds a well-formed arithmetic expression.

positional arguments:
  path           File containing one expression

options:
  -h, --help     show this help message and exit
  --tokens       Print the token stream instead of a verdict
  --trace        Log every token and grammar rule (implies --verbose)
  -v, --verbose  Enable debug logging
"

end ArithCheck.Command
