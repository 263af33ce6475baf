import ArithCheck.Fault

/-!
# Paths and file trees

A path is a text whose components are separated by slashes. `Path.normalize` drops what does not
matter to where a path leads: empty components and those that stay in place. A component that leads
upwards stays, because what comes before it need not exist.

A file tree is a tree of directories and files below a current directory. A path is followed
component by component from the current directory, or from the root if it starts with a slash. Of
the directories above the current one nothing is known but that they exist.
-/

namespace ArithCheck

namespace Path

/-- The parts of a list of characters between slashes. There is always at least one. -/
def split : List Char → List (List Char)
  | [] => [[]]
  | c :: rest =>
    if c = '/' then [] :: split rest
    else match split rest with
      | [] => [[c]]
      | first :: others => (c :: first) :: others

/-- The components of a path, empty ones included. -/
def components (path : String) : List String :=
  (split path.toList).map String.ofList

/-- The root that a path starts from: none, two slashes, or any other number of them. -/
def root (path : String) : String :=
  match (path.toList.takeWhile (· = '/')).length with
  | 0 => ""
  | 2 => "//"
  | _ => "/"

/-- The shortest way to write a path without looking at any files. -/
def normalize (path : String) : String :=
  let kept := (components path).filter fun c => c ≠ "" && c ≠ "."
  let text := root path ++ String.intercalate "/" kept
  if text.isEmpty then "." else text

end Path

/-- The directories and files below the current directory, by the names that lead to them. -/
structure FileTree where
  directories : List (List String)
  files : List (List String × List UInt8)
  deriving Repr

namespace FileTree

/-- Where a path has led so far. -/
inductive Node
  /-- A directory, by the names that lead to it. -/
  | directory (names : List String)
  | file (bytes : List UInt8)
  /-- A directory above the current one. -/
  | above
  deriving DecidableEq, Repr

/-- The most bytes that a name may have. -/
def nameLimit : Nat := 255

/-- A path with this many bytes or more is not followed at all. -/
def pathLimit : Nat := 4096

/-- What stands under some names. -/
def lookup (tree : FileTree) (names : List String) : Except ReadFailure Node :=
  match tree.files.find? (·.1 = names) with
  | some (_, bytes) => .ok (.file bytes)
  | none => if names ∈ tree.directories then .ok (.directory names) else .error .notFound

/-- Follows one component. -/
def enter (tree : FileTree) (node : Node) (name : String) : Except ReadFailure Node :=
  match node with
  | .file _ => .error .notDirectory
  | .directory names =>
    if name = "" || name = "." then .ok node
    else if name = ".." then .ok (if names.isEmpty then .above else .directory names.dropLast)
    else if nameLimit < name.utf8ByteSize then .error .nameTooLong
    else tree.lookup (names ++ [name])
  | .above =>
    if name = "" || name = "." || name = ".." then .ok .above
    else if nameLimit < name.utf8ByteSize then .error .nameTooLong
    else .error .notFound

/-- What a path leads to. -/
def follow (tree : FileTree) (path : String) : Except ReadFailure Node :=
  if path.isEmpty then .error .notFound
  else if pathLimit ≤ path.utf8ByteSize then .error .nameTooLong
  else
    let start := if path.startsWith "/" then Node.above else .directory []
    (Path.components path).foldlM tree.enter start

/-- The bytes of the file that a path leads to. -/
def read (tree : FileTree) (path : String) : Except Fault (List UInt8) :=
  if path.contains '\x00' then .error .embeddedNull
  else match tree.follow path with
    | .ok (.file bytes) => .ok bytes
    | .ok _ => .error (.unreadable path .isDirectory)
    | .error failure => .error (.unreadable path failure)

end FileTree

end ArithCheck
