import Mc68000.Word
import Mc68000.Text.Digits

/-!
# File trees

What a command may read: files in a tree of directories, named by paths.

* `Files` -- the contents of files by path, or why one cannot be read;
* `pathNames` -- the names that a path goes through, with slashes between them;
* `FileTree` -- files and directories by their places, with a working directory;
* `FileTree.follow` -- where names lead from a place;
* `FileTree.contents`, `FileTree.toFiles` -- the bytes at a path;
* `ReadError` -- why a path has no bytes, and `ReadError.message`, its text.

A path is followed name by name. An empty name and a single dot stay where they are, two dots go up,
and only a directory can be gone through.
-/

namespace Mc68000.CommandLine

/-- The contents of files by path, or why one cannot be read. -/
abbrev Files := String → Except String (List Byte)

/-! ## 1. Paths -/

/-- The names of a path. Slashes that follow one another have an empty name between them. -/
def pathNames : List Char → List (List Char)
  | [] => [[]]
  | c :: cs =>
    if c = '/' then [] :: pathNames cs
    else
      match pathNames cs with
      | [] => [[c]]
      | name :: names => (c :: name) :: names

/-! ## 2. Trees -/

/-- Where a file or a directory is: the names from the root to it. -/
abbrev Place := List String

/-- Files and directories with a working directory. Every place above one of them is a directory. -/
structure FileTree where
  files : List (Place × List Byte)
  directories : List Place
  working : Place

/-- Why a path has no bytes. -/
inductive ReadError where
  | notFound
  /-- What the path leads to may not be read. -/
  | noPermission
  /-- Something that is no directory would have to be gone through. -/
  | notDirectory
  /-- The path leads to a directory. -/
  | isDirectory
  | nameTooLong
  deriving DecidableEq, Repr

namespace ReadError

/-- The number by which an operating system knows an error. -/
def number : ReadError → Nat
  | notFound => 2
  | noPermission => 13
  | notDirectory => 20
  | isDirectory => 21
  | nameTooLong => 36

/-- The error of a number. -/
def ofNumber? (n : Nat) : Option ReadError :=
  [notFound, noPermission, notDirectory, isDirectory, nameTooLong].find? fun e => e.number = n

/-- What an error says. -/
def description : ReadError → String
  | notFound => "No such file or directory"
  | noPermission => "Permission denied"
  | notDirectory => "Not a directory"
  | isDirectory => "Is a directory"
  | nameTooLong => "File name too long"

/-- The text of an error, with its number. -/
def message (e : ReadError) : String :=
  e.description ++ " (os error " ++ Digits.decimal e.number ++ ")"

@[simp] theorem ofNumber?_number (e : ReadError) : ofNumber? e.number = some e := by
  cases e <;> rfl

end ReadError

namespace FileTree

/-- The bytes of the file at a place. -/
def file? (t : FileTree) (place : Place) : Option (List Byte) :=
  (t.files.find? fun entry => entry.1 = place).map (·.2)

/-- Whether something is at a place. -/
def has (t : FileTree) (place : Place) : Bool :=
  place.isPrefixOf t.working || t.directories.any (place.isPrefixOf ·) ||
    t.files.any (place.isPrefixOf ·.1)

/-- Whether a directory is at a place. -/
def hasDirectory (t : FileTree) (place : Place) : Bool := t.has place && (t.file? place).isNone

/-- The number of bytes that a name may have. -/
def nameLimit : Nat := 255

/-- The number of bytes that a path has to stay below. -/
def pathLimit : Nat := 4096

/-- The place that names lead to. -/
def follow (t : FileTree) (place : Place) : List String → Except ReadError Place
  | [] => .ok place
  | name :: names =>
    if !t.hasDirectory place then .error .notDirectory
    else if name = "" || name = "." then t.follow place names
    else if name = ".." then t.follow place.dropLast names
    else if nameLimit < name.utf8ByteSize then .error .nameTooLong
    else if t.has (place ++ [name]) then t.follow (place ++ [name]) names
    else .error .notFound

/-- Where a path starts: at the root if a slash comes first, else at the working directory. -/
def start (t : FileTree) (path : String) : Place :=
  if path.toList.head? = some '/' then [] else t.working

/-- The bytes of the file that a path leads to. The empty path leads nowhere. -/
def contents (t : FileTree) (path : String) : Except ReadError (List Byte) :=
  if path = "" then .error .notFound
  else if pathLimit ≤ path.utf8ByteSize then .error .nameTooLong
  else
    match t.follow (t.start path) ((pathNames path.toList).map String.ofList) with
    | .error e => .error e
    | .ok place =>
      match t.file? place with
      | some bytes => .ok bytes
      | none => .error .isDirectory

/-- A tree as contents by path, with its errors as text. -/
def toFiles (t : FileTree) : Files := fun path =>
  match t.contents path with
  | .ok bytes => .ok bytes
  | .error e => .error e.message

end FileTree

end Mc68000.CommandLine
