import ArithCheck.Examination
import ArithCheck.Session.Registry
import ArithCheck.Session.Step

/-!
# Sessions

A session runs steps over objects that live as long as it does. Scanners share streams, and
recognizers and iterators share scanners: each of them refers to the one that it was made with.
The current settings count for the objects that are made under them. A step that fails answers
with its fault, and the session goes on.

`run` answers a sequence of steps. Blocks run under settings of their own and leave the settings
as they found them; what else they do stays.
-/

namespace ArithCheck

namespace Session

/-- A scanner, with the number of its stream. -/
structure ScannerEntry where
  reader : Reader
  stream : Nat

/-- A recognizer, with the number of its scanner. -/
structure RecognizerEntry where
  recognizer : Recognizer
  scanner : Nat

/-- An iterator over the tokens of a scanner, given by its number. An iterator is finished once it
has met the end or a fault. -/
structure IteratorEntry where
  scanner : Nat
  finished : Bool

end Session

/-- The objects of a session, its current settings, and what the step at work has logged. At most
`limit` rules may be in progress at the same time. -/
structure Session where
  limit : Nat
  settings : Settings
  streams : Session.Registry Stream
  automata : Session.Registry Automaton
  scanners : Session.Registry Session.ScannerEntry
  recognizers : Session.Registry Session.RecognizerEntry
  iterators : Session.Registry Session.IteratorEntry
  log : Log

namespace Session

/-- A session at its start knows the arithmetic lexicon. -/
def initial : Session where
  limit := Recognition.nestingLimit
  settings := .default
  streams := .empty
  automata := Registry.empty.insert "arith" Arithmetic.arithmetic
  scanners := .empty
  recognizers := .empty
  iterators := .empty
  log := #[]

instance : Settings.Holder Session where
  settings := settings
  withSettings s c := { s with settings := c }
  settings_withSettings _ _ := rfl

/-- A computation in a session. -/
abbrev Work (α : Type) : Type := EStateM Fault Session α

/-- What a name stands for in a registry. -/
def find {α : Type} (registry : Session → Registry α) (name : String) : Work (Nat × α) := do
  match (registry (← get)).find? name with
  | some found => return found
  | none => throw (.unknownName name)

def record (log : Log) : Work Unit :=
  modify fun s => { s with log := s.log ++ log }

def setStream (id : Nat) (stream : Stream) : Work Unit :=
  modify fun s => { s with streams := s.streams.set id stream }

/-- The scanner with a given number, together with its stream. -/
def scannerAt? (s : Session) (id : Nat) : Option Scanner := do
  let entry ← s.scanners.get? id
  return ⟨entry.reader, ← s.streams.get? entry.stream⟩

/-- Puts a scanner back, and its stream. -/
def putScanner (s : Session) (id : Nat) (scanner : Scanner) : Session :=
  match s.scanners.get? id with
  | none => s
  | some entry => { s with
      scanners := s.scanners.set id { entry with reader := scanner.toReader }
      streams := s.streams.set entry.stream scanner.stream }

/-- The scanner with a given number. -/
def scannerAt (id : Nat) : Work Scanner := do
  match (← get).scannerAt? id with
  | some scanner => return scanner
  | none => throw (.unknownName (toString id))

/-- Moves a scanner on. -/
def scan {α : Type} (id : Nat) (body : Scan α) : Work α := do
  match body (← scannerAt id) with
  | .ok a scanner =>
    modify (·.putScanner id scanner)
    return a
  | .error fault scanner =>
    modify (·.putScanner id scanner)
    throw fault

/-- Draws a token from a scanner and logs it. -/
def draw (id : Nat) : Work (Option Token) := do
  let tracing := (← scannerAt id).tracing
  let token ← scan id Scanner.nextToken
  record (Log.ofToken tracing token).toArray
  return token

/-- Draws all tokens that are left in a scanner and logs them. -/
def drain (id : Nat) : Work (List Token) := do
  let (tape, rest) := (← scannerAt id).wind
  modify (·.putScanner id rest)
  record (Log.ofTape tape).toArray
  ofExcept tape.complete

/-- Draws the next token of an iterator, and finishes it at the end and at a fault. -/
def iterate (id : Nat) (iterator : IteratorEntry) : Work (Option Token) := do
  if iterator.finished then return none
  let finish : Work Unit :=
    modify fun s => { s with iterators := s.iterators.set id { iterator with finished := true } }
  match ← tryCatch (Except.ok <$> draw iterator.scanner) (fun fault => return .error fault) with
  | .ok (some token) => return some token
  | .ok none =>
    finish
    return none
  | .error fault =>
    finish
    throw fault

/-- Runs a recognizer over its scanner. -/
def recognizing {α : Type} (id : Nat) (entry : RecognizerEntry)
    (body : Recognize Scanner α) : Work α := do
  let source ← scannerAt entry.scanner
  let keep (r : Recognition Scanner) : Work Unit := do
    modify fun s =>
      { s with recognizers := s.recognizers.set id { entry with recognizer := r.toRecognizer } }
    modify (·.putScanner entry.scanner r.source)
    record r.log
  match body { entry.recognizer with source := source, log := #[] } with
  | .ok a r =>
    keep r
    return a
  | .error fault r =>
    keep r
    throw fault

/-- What a recognizer does on a call. -/
def Call.run {σ : Type} [TokenSource σ] (limit : Nat) : Call → Recognize σ (Option Bool)
  | .recognize => some <$> Recognition.recognize limit
  | .pull => do
    Recognition.advance
    return none
  | .rule n => some <$> Recognition.start limit n
  | .terminal tag =>
    match Token.Kind.ofTag? tag with
    | some k => some <$> Recognition.terminal k
    | none => return some false

/-- Makes a scanner under the current settings. -/
def newScanner (name : String) (input : Input) (automaton : Option String)
    (file : Option String) : Work Reply := do
  let automaton ← match automaton with
    | none => pure Arithmetic.arithmetic
    | some name => (·.2) <$> find automata name
  let stream ← match input with
    | .stream name => (·.1) <$> find streams name
    | .bytes bytes => modifyGet fun s =>
      let (id, streams) := s.streams.add (.ofBytes bytes)
      (id, { s with streams := streams })
  let reader := (← Settings.current).reader automaton file
  modify fun s => { s with scanners := s.scanners.insert name ⟨reader, stream⟩ }
  return .file file

/-- What an action does. -/
def perform : Action → Work Reply
  | .stream name bytes => do
    modify fun s => { s with streams := s.streams.insert name (.ofBytes bytes) }
    return .done
  | .tell name => do
    let (_, stream) ← find streams name
    .place <$> ofExcept stream.tell
  | .seek name place => do
    let (id, stream) ← find streams name
    let stream ← ofExcept (stream.seek place)
    setStream id stream
    return .place stream.position
  | .feed name bytes => do
    let (id, stream) ← find streams name
    setStream id (← ofExcept (stream.feed bytes))
    return .done
  | .close name => do
    let (id, stream) ← find streams name
    setStream id stream.close
    return .done
  | .isClosed name => do
    let (_, stream) ← find streams name
    return .flag stream.closed
  | .automaton name table => do
    modify fun s => { s with automata := s.automata.insert name table.automaton }
    return .done
  | .scanner name input automaton file => newScanner name input automaton file
  | .nextToken name => do
    let (id, _) ← find scanners name
    .token <$> draw id
  | .atEnd name => do
    let (_, entry) ← find scanners name
    return .flag entry.reader.atEnd
  | .drain name => do
    let (id, _) ← find scanners name
    .tokens <$> drain id
  | .iterator name scanner => do
    let (id, _) ← find scanners scanner
    modify fun s => { s with iterators := s.iterators.insert name ⟨id, false⟩ }
    return .done
  | .iterate name => do
    let (id, iterator) ← find iterators name
    .iterated <$> iterate id iterator
  | .inspect name => do
    let (id, _) ← find scanners name
    let scanner ← scannerAt id
    return .inspected scanner.toReader (← ofExcept scanner.stream.tell)
  | .recognizer name scanner => do
    let (id, _) ← find scanners scanner
    let recognizer := (← Settings.current).recognizer
    modify fun s => { s with recognizers := s.recognizers.insert name ⟨recognizer, id⟩ }
    return .done
  | .call name call => do
    let (id, entry) ← find recognizers name
    .called <$> recognizing id entry (call.run (← get).limit)
  | .settings => .settings <$> Settings.current
  | .assign config => do
    Settings.assign (← ofExcept (Settings.ofValue config))
    return .done
  | .reset => do
    Settings.assign .default
    return .done
  | .recognize bytes file => do
    let e := Examination.ofBytes (← get).limit (← Settings.current) bytes file
    record e.log
    .flag <$> ofExcept e.verdict
  | .tokens bytes file => do
    let reader := (← Settings.current).reader Arithmetic.arithmetic file
    let tape := Scanner.tape ⟨reader, .ofBytes bytes⟩
    record (Log.ofTape tape).toArray
    .tokens <$> ofExcept tape.complete

/-- The token ahead of the recognizer that an action is about. -/
def ahead (action : Action) (s : Session) : Option (Option Token) :=
  match action with
  | .call name _ => (s.recognizers.find? name).map (·.2.recognizer.lookahead)
  | _ => none

/-- The answer to an action. -/
def act (action : Action) (s : Session) : Answer × Session :=
  match perform action { s with log := #[] } with
  | .ok reply s => (.act (.ok reply) (ahead action s) s.log, s)
  | .error fault s => (.act (.error fault) (ahead action s) s.log, s)

/-- Steps, as a computation that fails with their answers if the block is interrupted. -/
def block (answers : Session → List Answer × Session) (interrupted : Bool) :
    EStateM (List Answer) Session (List Answer) := do
  let answers ← modifyGet answers
  if interrupted then throw answers else return answers

/-- The answer to a block. -/
def blockAnswer : EStateM.Result (List Answer) Session (List Answer) → Answer × Session
  | .ok answers s => (.block answers false, s)
  | .error answers s => (.block answers true, s)

mutual

/-- The answer to a step. -/
def answer : Step → Session → Answer × Session
  | .act action, s => act action s
  | .within config steps interrupted, s =>
    match Settings.ofValue config with
    | .error fault => (.act (.error fault) none #[], s)
    | .ok settings => blockAnswer (Settings.within settings (block (run steps) interrupted) s)
  | .fresh steps, s => blockAnswer (Settings.within .default (block (run steps) false) s)
  | .copied steps, s => blockAnswer (Settings.isolated (block (run steps) false) s)

/-- The answers to a sequence of steps. -/
def run : List Step → Session → List Answer × Session
  | [], s => ([], s)
  | step :: rest, s =>
    let (first, s) := answer step s
    let (others, s) := run rest s
    (first :: others, s)

end

end Session

end ArithCheck
