/-!
The directory that programs are read from: files by name, empty folders, and parents about which
nothing is known. A path is followed part by part.
-/

namespace Chip8

inductive ReadError where
  | missing
  | isDirectory
  | notDirectory
  | nameTooLong
  /-- No path contains the character zero. -/
  | zeroInName
  deriving DecidableEq, Repr

def ReadError.reason : ReadError → String
  | .missing => "No such file or directory"
  | .isDirectory => "Is a directory"
  | .notDirectory => "Not a directory"
  | .nameTooLong => "File name too long"
  | .zeroInName => "embedded null byte"

structure Directory where
  files : List (String × List UInt8) := []
  folders : List String := []

namespace Directory

/-- Where a path has led so far. -/
inductive Place where
  | here
  /-- In one of the folders. -/
  | folder
  /-- In a directory above. -/
  | above
  | file (content : List UInt8)

/-- The longest part of a path, in bytes. -/
def longestPart : Nat := 255

/-- The longest path, in bytes. -/
def longestPath : Nat := 4095

/-- Follows one part of a path. -/
def enter (directory : Directory) (place : Place) (part : String) : Except ReadError Place :=
  match place with
  | .file _ => .error .notDirectory
  | place =>
      if part = "" ∨ part = "." then .ok place
      else if part = ".." then
        .ok (match place with | .folder => .here | _ => .above)
      else if longestPart < part.utf8ByteSize then .error .nameTooLong
      else match place with
        | .here =>
            match directory.files.lookup part with
            | some content => .ok (.file content)
            | none => if directory.folders.contains part then .ok .folder else .error .missing
        | _ => .error .missing

/-- The bytes of the file that a path leads to. -/
def read (directory : Directory) (path : String) : Except ReadError (List UInt8) := do
  if path.toList.contains '\x00' then .error .zeroInName
  if path.isEmpty then .error .missing
  if longestPath < path.utf8ByteSize then .error .nameTooLong
  let start : Place := if path.toList.head? = some '/' then .above else .here
  match ← (path.splitOn "/").foldlM directory.enter start with
  | .file content => return content
  | _ => .error .isDirectory

end Directory

end Chip8
