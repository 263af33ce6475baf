import ArithCheck.Command

/-!
# The program

The outer layer of the command: it reads the file that the arguments name, prints what the command
has to say, and ends with its exit code.
-/

namespace ArithCheck.Command

/-- The number of an error of the system, which may come with the opposite sign. -/
def numberOf (code : UInt32) : Nat :=
  if code < 0x80000000 then code.toNat else (0 - code).toNat

/-- The reason with a given number. -/
def failureOf (code : UInt32) (details : String) : ReadFailure :=
  match numberOf code with
  | 2 => .notFound
  | 20 => .notDirectory
  | 21 => .isDirectory
  | 36 => .nameTooLong
  | number => .other number details.capitalize

/-- The reason behind an error. -/
def failureOfError : IO.Error → ReadFailure
  | .noFileOrDirectory _ code details => failureOf code details
  | .inappropriateType _ code details => failureOf code details
  | .invalidArgument _ code details => failureOf code details
  | .permissionDenied _ code details => failureOf code details
  | .resourceExhausted _ code details => failureOf code details
  | .noSuchThing _ code details => failureOf code details
  | .otherError code details => failureOf code details
  | e => .other 0 (toString e)

/-- The contents of a file, or the fault with which it cannot be read. -/
def readContents (path : String) : IO (Except Fault (List UInt8)) := do
  if path.contains '\x00' then return .error .embeddedNull
  try
    return .ok (← IO.FS.readBinFile path).toList
  catch e =>
    return .error (.unreadable path (failureOfError e))

/-- Prints an outcome. -/
def report (outcome : Outcome) : IO UInt32 := do
  IO.print outcome.output
  IO.eprint outcome.errors
  return outcome.code.toUInt32

/-- Does what the arguments ask for. -/
def execute (arguments : List String) : IO UInt32 := do
  let contents ← match parse arguments with
    | .ok (.check options) => readContents options.file
    | _ => pure (.error .embeddedNull)
  match run Recognition.nestingLimit (fun _ => contents) arguments .default with
  | .ok outcome _ => report outcome
  | .error fault _ =>
    IO.eprintln fault.message
    return 1

end ArithCheck.Command

def main (arguments : List String) : IO UInt32 :=
  ArithCheck.Command.execute arguments
