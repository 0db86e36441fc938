import SpiralMachine.Error

/-!
# A tree of files

Files with their text and directories, under paths of names. A path is followed name by name,
from the top if it begins with a slash and else from the working directory: every name but the
last must be a directory, `.` stays and `..` goes up, never beyond the top. A closing slash asks
for a directory. All of the tree may be read and written, and none of it is a link.
-/

set_option autoImplicit false

namespace SpiralMachine

/-- A place in the tree, from the top down. -/
abbrev FilePath := List String

inductive FileEntry where
  | file (text : String)
  | directory
  deriving DecidableEq, Repr

structure FileTree where
  entries : List (FilePath × FileEntry)
  /-- The working directory. -/
  home : FilePath

namespace FileTree

/-- A tree of a working directory below the top, and nothing else. -/
def empty : FileTree := ⟨[(["home"], .directory)], ["home"]⟩

/-- What stands at a place; the top is a directory. -/
def entry? (tree : FileTree) (place : FilePath) : Option FileEntry :=
  if place.isEmpty then some .directory else tree.entries.lookup place

def put (tree : FileTree) (place : FilePath) (entry : FileEntry) : FileTree :=
  { tree with entries := tree.entries.filter (·.1 ≠ place) ++ [(place, entry)] }

/-- The greatest length of a name and the length no path may reach, in bytes. -/
def nameLimit : Nat := 255

def pathLimit : Nat := 4096

/-- The names that lead nowhere: `.` and the empty one between two slashes. -/
def stays (name : String) : Bool :=
  name = "" || name = "."

/-- The names of a path; a slash that begins or ends it, or follows another, stands beside an
empty one. -/
def names (path : String) : List String := (path.toList.splitOn '/').map String.ofList

/-- Where a path begins. -/
def start (tree : FileTree) (path : String) : FilePath :=
  if (names path).head? = some "" then [] else tree.home

def asksDirectory (path : String) : Bool := (names path).getLast? = some ""

/-- Follows names from a directory to a directory. -/
def follow (tree : FileTree) (place : FilePath) : List String → Except FileError FilePath
  | [] => .ok place
  | name :: rest =>
    if stays name then tree.follow place rest
    else if name = ".." then tree.follow place.dropLast rest
    else if nameLimit < name.utf8ByteSize then .error .nameTooLong
    else match tree.entry? (place ++ [name]) with
      | some .directory => tree.follow (place ++ [name]) rest
      | some (.file _) => .error .notDirectory
      | none => .error .notFound

/-- What the system refuses before it looks at the tree. -/
def refusal? (path : String) : Option FileError :=
  if path = "" then some .notFound
  else if '\x00' ∈ path.toList then some .invalidName
  else if pathLimit ≤ path.utf8ByteSize then some .nameTooLong
  else none

/-- The directory that all names of a path but the last lead to, and the last name. -/
def locate (tree : FileTree) (path : String) : Except FileError (FilePath × String) := do
  if let some cause := refusal? path then
    throw cause
  let proper := (names path).filter (· ≠ "")
  let place ← tree.follow (tree.start path) proper.dropLast
  return (place, proper.getLastD ".")

/-- The text of a file. -/
def read (tree : FileTree) (path : String) : Except FileError String := do
  let (place, name) ← tree.locate path
  if name = "." || name = ".." then
    throw .isDirectory
  else if nameLimit < name.utf8ByteSize then
    throw .nameTooLong
  else match tree.entry? (place ++ [name]) with
    | some .directory => throw .isDirectory
    | some (.file text) => if asksDirectory path then throw .notDirectory else return text
    | none => throw .notFound

/-- Gives a file, old or new, the text that `text` makes of its old text. A path that asks for a
directory is refused as one, whatever stands there. -/
def update (tree : FileTree) (path : String) (text : String → String) :
    Except FileError FileTree := do
  let (place, name) ← tree.locate path
  if name = "." || name = ".." || asksDirectory path then
    throw .isDirectory
  else if nameLimit < name.utf8ByteSize then
    throw .nameTooLong
  else match tree.entry? (place ++ [name]) with
    | some .directory => throw .isDirectory
    | some (.file old) => return tree.put (place ++ [name]) (.file (text old))
    | none => return tree.put (place ++ [name]) (.file (text ""))

/-- The names before the last name of a path, which lead to its directory. Names that stay
are kept between the others, so that joining the names gives a part of the path. -/
def parentNames (path : String) : List String :=
  (((names path).reverse.dropWhile stays).tail.dropWhile stays).reverse

/-- Makes the directories on the way that are missing. Those made before a name turns out
to be a file or too long stay. A whole way is tried before any part of it, so a file on the way
is found under a name below it; once directories were made (`made`), or as the last name of the
way, it is found by its own name, which is taken. -/
def makeWay (tree : FileTree) (made : Bool) (place : FilePath) :
    List String → FileTree × Option FileError
  | [] => (tree, none)
  | name :: rest =>
    if stays name then tree.makeWay made place rest
    else if name = ".." then tree.makeWay made place.dropLast rest
    else if nameLimit < name.utf8ByteSize then (tree, some .nameTooLong)
    else match tree.entry? (place ++ [name]) with
      | some .directory => tree.makeWay made (place ++ [name]) rest
      | some (.file _) => (tree, some (if made || rest.isEmpty then .exists else .notDirectory))
      | none => (tree.put (place ++ [name]) .directory).makeWay true (place ++ [name]) rest

/-- Makes the directories of a path, or none if the path of its directory is refused. -/
def makeParents (tree : FileTree) (path : String) : FileTree × Option FileError :=
  match parentNames path with
  | [] => (tree, none)
  | way =>
    match refusal? (String.intercalate "/" way) with
    | some cause => (tree, some cause)
    | none => tree.makeWay false (tree.start path) way

/-- Makes the directories of a path and then updates its file. -/
def store (tree : FileTree) (path : String) (text : String → String) :
    FileTree × Option FileError :=
  match tree.makeParents path with
  | (tree, some cause) => (tree, some cause)
  | (tree, none) =>
    match tree.update path text with
    | .ok tree => (tree, none)
    | .error cause => (tree, some cause)

/-- The paths that lead from the working directory to all that is in it, in order, those of
directories with a closing slash. -/
def paths (tree : FileTree) : List String :=
  let path : FilePath × FileEntry → String
    | (place, .file _) => String.intercalate "/" (place.drop tree.home.length)
    | (place, .directory) => String.intercalate "/" (place.drop tree.home.length) ++ "/"
  let within := tree.entries.filter fun (place, _) ↦
    tree.home.isPrefixOf place && place ≠ tree.home
  (within.map path).mergeSort fun path other ↦ path < other || path = other

end FileTree

end SpiralMachine
