import MetaTransaction.Bytes
import MetaTransaction.Text.Split

/-!
# Files

What a program finds at the paths that it is given, and a tree of files that is held in memory.
-/

namespace MetaTransaction

/-- What stands at a path. -/
inductive FileEntry
  | missing
  | directory
  | file (content : Bytes)
deriving DecidableEq, Repr

/-- The text of a file whose content is UTF-8. -/
def FileEntry.text? : FileEntry → Option String
  | .file content => String.fromUTF8? ⟨content.toArray⟩
  | _ => none

/-- What stands at each path. A program only reads, so that a function is all that it needs to be
given. -/
abbrev FileSystem := String → FileEntry

/-- The names that lead to a file or a directory from the working directory. -/
abbrev Location := List String

/-- The files below the working directory, and directories that need not hold any. It is the tree of
which a file system in memory is made. -/
structure FileTree where
  files : List (Location × Bytes) := []
  directories : List Location := []

namespace FileTree

/-- The names of a path. -/
def components (path : String) : List String :=
  (Text.split '/' path.toList).map String.ofList

/-- The location of a path that goes down only. -/
def locate (path : String) : Location :=
  (components path).filter fun name => name ≠ "" && name ≠ "."

/-- Whether a location is a directory. -/
def isDirectory (t : FileTree) (location : Location) : Bool :=
  location.isEmpty || t.directories.contains location ||
    t.files.any fun (file, _) => location.isPrefixOf file && location ≠ file

/-- What stands at a location. -/
def entry (t : FileTree) (location : Location) : FileEntry :=
  match t.files.lookup location with
  | some content => .file content
  | none => if t.isDirectory location then .directory else .missing

/-- What stands where the names lead from a location, or from outside of the working directory,
where nothing but directories is known. -/
def walk (t : FileTree) (location : Option Location) : List String → FileEntry
  | [] =>
    match location with
    | none => .directory
    | some location => t.entry location
  | name :: names =>
    match location with
    | none => if name = "" ∨ name = "." ∨ name = ".." then t.walk none names else .missing
    | some location =>
      if t.entry location ≠ .directory then .missing
      else if name = "" ∨ name = "." then t.walk (some location) names
      else if name = ".." then
        t.walk (if location.isEmpty then none else some location.dropLast) names
      else t.walk (some (location ++ [name])) names

/-- The tree as it is seen through paths. -/
def fileSystem (t : FileTree) : FileSystem
  | "" => .missing
  | path =>
    match components path with
    | "" :: names => t.walk none names
    | names => t.walk (some []) names

end FileTree

end MetaTransaction
