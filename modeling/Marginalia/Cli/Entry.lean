import Marginalia.Text.Decimal
import Marginalia.Text.Quoted

/-!
# Files and folders

What a path leads to. A path is followed one name after the other from the folder that the program
runs in, of which a `Folder` knows all files and folders; nothing is known of what lies outside.
-/

namespace Marginalia.Cli

/-- What a path leads to: the bytes of a file, or nothing that can be read, for a reason that the
system has a number and words for. -/
inductive Entry where
  | file (bytes : List UInt8)
  | unreadable (code : Nat) (reason : Text)
  deriving DecidableEq, Repr

namespace Entry

/-- There is nothing at the path. -/
def missing : Entry := .unreadable 2 "No such file or directory".toList

/-- The path leads to something that the user may not read. -/
def forbidden : Entry := .unreadable 13 "Permission denied".toList

/-- There is a file where the path goes on as if it were a folder. -/
def notAFolder : Entry := .unreadable 20 "Not a directory".toList

/-- There is a folder at the path. -/
def folder : Entry := .unreadable 21 "Is a directory".toList

/-- The path or a name in it has more bytes than the system allows. -/
def nameTooLong : Entry := .unreadable 36 "File name too long".toList

/-- What a path leads to that the system could not read, by the number and words of its reason. The
words of the common reasons are known here. -/
def ofReason (code : Nat) (reason : Text) : Entry :=
  let known := [missing, forbidden, notAFolder, folder, nameTooLong].find? fun
    | .unreadable n _ => n = code
    | .file _ => false
  known.getD (.unreadable code reason)

end Entry

/-- The names that a path is made of, which are empty where slashes meet or end the path. -/
def names : Text → List Text
  | [] => [[]]
  | c :: rest => if c = '/' then [] :: names rest else (names rest).modifyHead (c :: ·)

/-- The number of bytes that a text takes up in a file system. -/
def byteCount (t : Text) : Nat := t.foldr (·.utf8Size + ·) 0

/-- The most bytes in a name. -/
def nameLimit : Nat := 255

/-- The most bytes in a path. -/
def pathLimit : Nat := 4095

/-- A folder, with all that is in it and in the folders below it. Files and folders are given by the
names that lead to them, and a folder needs no mention if something in it has one. -/
structure Folder where
  files : List (List Text × List UInt8) := []
  folders : List (List Text) := []
  deriving DecidableEq, Repr

namespace Folder

/-- The names that lead to something, given by its path in the folder. -/
def trail (path : Text) : List Text := (names path).filter fun n => n ≠ [] ∧ n ≠ ['.']

/-- Some names lead to a folder: none at all, those of a folder, or those on the way to a file or
folder. -/
def isFolder (f : Folder) (trail : List Text) : Bool :=
  trail.isEmpty || f.folders.any (trail.isPrefixOf ·) ||
    f.files.any fun (t, _) => trail ≠ t && trail.isPrefixOf t

/-- Follows names from the end of a trail, which is `none` outside the folder, down to an entry. -/
def follow (f : Folder) : (trail : Option (List Text)) → List Text → Entry
  | _, [] => .folder
  | none, name :: rest =>
    if nameLimit < byteCount name then .nameTooLong
    else if name = [] ∨ name = ['.'] ∨ name = ['.', '.'] then f.follow none rest
    else .missing
  | some trail, name :: rest =>
    if nameLimit < byteCount name then .nameTooLong
    else if name = [] ∨ name = ['.'] then f.follow (some trail) rest
    else if name = ['.', '.'] then
      f.follow (if trail.isEmpty then none else some trail.dropLast) rest
    else
      let trail := trail ++ [name]
      match f.files.lookup trail with
      | some bytes => if rest.isEmpty then .file bytes else .notAFolder
      | none => if f.isFolder trail then f.follow (some trail) rest else .missing

/-- What a path leads to from the folder. -/
def find (f : Folder) (path : Text) : Entry :=
  if path.isEmpty then .missing
  else if pathLimit < byteCount path then .nameTooLong
  else f.follow (if path.head? = some '/' then none else some []) (names path)

end Folder

end Marginalia.Cli
