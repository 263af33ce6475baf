import ArithCheck.Text.Quoted

/-!
# Positions and locations

A position is a line and a column, both counted from one. Scanned text is counted in bytes: a line
feed starts a new line, and every other byte moves one column to the right.

A location is a stretch of one line of one file: where it starts, the column just past its end and
the file, the last two if they are known.
-/

namespace ArithCheck

/-- A place in a text. Positions made by hand need not lie in any text, so both parts are
integers. -/
structure Position where
  line : Int
  column : Int
  deriving DecidableEq, Repr, Inhabited

namespace Position

/-- The position of the first byte of a text. -/
def start : Position := ⟨1, 1⟩

/-- The position after the byte `b`. -/
def next (p : Position) (b : UInt8) : Position :=
  if b = 0x0A then ⟨p.line + 1, 1⟩ else ⟨p.line, p.column + 1⟩

/-- The position after `bytes`. -/
def advance (p : Position) (bytes : List UInt8) : Position :=
  bytes.foldl next p

@[simp] theorem advance_nil (p : Position) : p.advance [] = p := rfl

@[simp] theorem advance_cons (p : Position) (b : UInt8) (bytes : List UInt8) :
    p.advance (b :: bytes) = (p.next b).advance bytes := rfl

@[simp] theorem advance_append (p : Position) (u v : List UInt8) :
    p.advance (u ++ v) = (p.advance u).advance v := by
  simp [advance]

instance : ToString Position where
  toString p := s!"{p.line}:{p.column}"

end Position

structure Location where
  line : Int
  column : Int
  endColumn : Option Int
  file : Option String
  deriving DecidableEq, Repr, Inhabited

namespace Location

/-- `file:line:column`, or `line:column` where there is no file or its name is empty. -/
def render (l : Location) : String :=
  let position : Position := ⟨l.line, l.column⟩
  match l.file with
  | none => toString position
  | some file => if file.isEmpty then toString position else s!"{file}:{position}"

/-- The four parts, each with its name; `None` stands for a part that is not known. -/
def describe (l : Location) : String :=
  let endColumn := (l.endColumn.map toString).getD "None"
  let file := (l.file.map Text.quoted).getD "None"
  s!"SourceLocation(lineno={l.line}, col_offset={l.column}, end_col_offset={endColumn}, " ++
    s!"source_file={file})"

end Location

end ArithCheck
