import Cairn.Bindings

/-!
# Cairn — files

The files that commands read and write. A folder holds files by name and no
other folder. A path leads through it step by step; what it finds outside of the
folder are folders that hold it, and nothing else.

## Main statements

* `Folder.read_of_write` — what was written is read back.
* `Folder.exists_of_write` — writing changes the one file that the path leads to.
-/

namespace Cairn

/-- Why a file cannot be read or written. -/
inductive FileFault where
  | notFound
  | notFolder
  | isFolder
  | nameTooLong
  | denied
  | badEncoding
  | other (message : String)
deriving DecidableEq, Repr

/-- The wording of the fault. -/
def FileFault.message : FileFault → String
  | .notFound => "No such file or directory (os error 2)"
  | .notFolder => "Not a directory (os error 20)"
  | .isFolder => "Is a directory (os error 21)"
  | .nameTooLong => "File name too long (os error 36)"
  | .denied => "Permission denied (os error 13)"
  | .badEncoding => "stream did not contain valid UTF-8"
  | .other message => message

-- ---------------------------------------------------------------------------
-- Paths
-- ---------------------------------------------------------------------------

namespace Path

/-- The texts between slashes. -/
def pieces : List Char → List (List Char)
  | [] => [[]]
  | c :: cs =>
    match pieces cs with
    | [] => [[c]]
    | p :: ps => if c = '/' then [] :: p :: ps else (c :: p) :: ps

/-- Whether a piece leads nowhere else. -/
def stays (piece : List Char) : Bool :=
  piece.isEmpty || piece == ['.']

/-- What a path has behind a name. -/
inductive Tail where
  | nothing
  /-- Slashes, which ask for a folder. -/
  | slashes
  /-- More steps, which lead through a folder. -/
  | steps
deriving DecidableEq, Repr

/-- What the pieces behind a name amount to. -/
def tailOf (pieces : List (List Char)) : Tail :=
  if pieces.isEmpty then .nothing
  else if pieces.all (·.isEmpty) then .slashes
  else .steps

/-- Where a path leads. -/
inductive Target where
  /-- To the folder itself, or to one that holds it. -/
  | folder
  /-- To a name in the folder, or further. -/
  | inside (name : String) (tail : Tail)
  /-- To a name in a folder that holds this one, or further. -/
  | outside (name : String) (tail : Tail)
deriving DecidableEq, Repr

/-- Follows the pieces of a path up to the first name, where `within` says
whether they start in the folder or in one that holds it. -/
def follow (within : Bool) : List (List Char) → Target
  | [] => .folder
  | piece :: rest =>
    if stays piece then follow within rest
    else if piece = ['.', '.'] then follow false rest
    else if within then .inside (String.ofList piece) (tailOf rest)
    else .outside (String.ofList piece) (tailOf rest)

/-- Where a path leads. A slash at its start leads out of the folder, and the
empty path leads nowhere. -/
def target (path : String) : Target :=
  if path.isEmpty then .outside "" .nothing
  else follow (! path.startsWith "/") (pieces path.toList)

/-- How many bytes a name may have. -/
def longestName : Nat :=
  255

/-- How many bytes a path may have. -/
def longestPath : Nat :=
  4095

/-- Whether a name is too long for a file. -/
def isLongName (name : String) : Bool :=
  longestName < name.utf8ByteSize

/-- Whether a path is too long to be followed. -/
def isLong (path : String) : Bool :=
  longestPath < path.utf8ByteSize

/-- The part of a name in front of its last dot, if that is not its first
character. -/
def stem (name : List Char) : List Char :=
  match name.reverse.dropWhile (· != '.') with
  | [] => name
  | [_] => name
  | _ :: before => before.reverse

/-- The path with another ending of its name. -/
def withExtension (path : String) (extension : String) : String :=
  let cs := path.toList
  let name := (cs.reverse.takeWhile (· != '/')).reverse
  let front := cs.take (cs.length - name.length)
  String.ofList (front ++ stem name) ++ "." ++ extension

end Path

-- ---------------------------------------------------------------------------
-- Folders
-- ---------------------------------------------------------------------------

/-- Files by name. -/
structure Folder where
  files : Bindings (List UInt8)
deriving DecidableEq, Repr

namespace Folder

/-- A folder without files. -/
def empty : Folder :=
  ⟨.empty⟩

/-- Reads a file. -/
def read (f : Folder) (path : String) : Except FileFault (List UInt8) :=
  if Path.isLong path then .error .nameTooLong
  else
    match Path.target path with
    | .folder => .error .isFolder
    | .outside name _ => .error (if Path.isLongName name then .nameTooLong else .notFound)
    | .inside name tail =>
      if Path.isLongName name then .error .nameTooLong
      else
        match f.files.find? name with
        | none => .error .notFound
        | some bytes => if tail = .nothing then .ok bytes else .error .notFolder

/-- Writes a file, whether or not it exists. -/
def write (f : Folder) (path : String) (bytes : List UInt8) : Except FileFault Folder :=
  if Path.isLong path then .error .nameTooLong
  else
    match Path.target path with
    | .folder => .error .isFolder
    | .outside _ .slashes => .error .isFolder
    | .outside name _ => .error (if Path.isLongName name then .nameTooLong else .notFound)
    | .inside _ .slashes => .error .isFolder
    | .inside name .nothing =>
      if Path.isLongName name then .error .nameTooLong else .ok ⟨f.files.insert name bytes⟩
    | .inside name .steps =>
      if Path.isLongName name then .error .nameTooLong
      else if (f.files.find? name).isSome then .error .notFolder
      else .error .notFound

theorem exists_of_write {f g : Folder} {path : String} {bytes : List UInt8}
    (h : f.write path bytes = .ok g) :
    ∃ name, Path.isLong path = false ∧ Path.target path = .inside name .nothing ∧
      Path.isLongName name = false ∧ g.files = f.files.insert name bytes := by
  unfold write at h
  repeat' split at h
  all_goals first | (simp at h; done) | skip
  rename_i hp _ name ht hn
  cases h
  exact ⟨name, by simpa using hp, ht, by simpa using hn, rfl⟩

theorem read_of_write {f g : Folder} {path : String} {bytes : List UInt8}
    (h : f.write path bytes = .ok g) : g.read path = .ok bytes := by
  obtain ⟨name, hp, ht, hn, hg⟩ := exists_of_write h
  simp [read, hp, ht, hn, hg, Bindings.find?_insert]

end Folder

end Cairn
