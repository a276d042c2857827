import ByteLayout.Fields
import ByteLayout.Path
import ByteLayout.Stream.Sink
import ByteLayout.Stream.Source

/-!
# File trees

Directories and files below a working directory, and what opening a file does to them. A file opened
for writing is created, or emptied if it is there, after all missing directories above it were made.
A path is followed part by part: `.` and empty parts stay, `..` goes up, and every part but the last
must be a directory. A path with a zero character is not one, nor is a path with too many bytes, and
an entry can not be made if its name has too many.

Failures carry the path that could not be used: the directory if one could not be made, else the
file.
-/

namespace ByteLayout

/-- A file with its content, or a directory with its entries. -/
inductive FileTree where
  | file (content : List UInt8)
  | directory (entries : List (String × FileTree))

namespace FileTree

/-- A directory without entries. -/
def empty : FileTree := directory []

def isDirectory : FileTree → Bool
  | directory _ => true
  | file _ => false

/-- The tree at a place, given by the names on the way down to it. -/
def at? (tree : FileTree) : List String → Option FileTree
  | [] => some tree
  | name :: rest =>
    match tree with
    | directory entries => (Fields.get? entries name).bind fun entry => entry.at? rest
    | file _ => none

/-- Puts a tree at a place. A directory on the way that is missing is made; a file there is left
alone. -/
def put (tree : FileTree) (content : FileTree) : List String → FileTree
  | [] => content
  | name :: rest =>
    match tree with
    | directory entries =>
      let below := (Fields.get? entries name).getD empty
      directory (Fields.insert entries name (below.put content rest))
    | file _ => tree

/-! ## Limits -/

/-- The most bytes in the name of an entry. -/
def nameLimit : Nat := 255

/-- The most bytes in a path. -/
def pathLimit : Nat := 4095

/-- Whether an entry can have a name. -/
def allowsName (name : String) : Bool := decide (name.utf8ByteSize ≤ nameLimit)

/-- Whether a text can be a path at all. -/
def allowsPath (path : String) : Bool :=
  decide (path.utf8ByteSize ≤ pathLimit) && !path.contains '\x00'

/-! ## Paths -/

/-- The parts of a path that lead somewhere. -/
def steps (path : String) : List String := (Path.components path).filter (· ≠ ".")

/-- The parent of a place; above the working directory nothing is known. -/
def above (place : List String) : List String := place.dropLast

/-- The directory that a path leads to from a place, if there is one. -/
def follow? (tree : FileTree) (place : List String) : List String → Option (List String)
  | [] => if (tree.at? place).any isDirectory then some place else none
  | step :: rest =>
    if !(tree.at? place).any isDirectory then none
    else if step = ".." then tree.follow? (above place) rest
    else tree.follow? (place ++ [step]) rest

/-- Makes the directories on a way, seen from a place, as far as they are missing; false if
something in the way is a file or a name can not be used. -/
def makeSteps (tree : FileTree) (place : List String) : List String → FileTree × Bool
  | [] => (tree, true)
  | step :: rest =>
    if step = ".." then tree.makeSteps (above place) rest
    else
      let place := place ++ [step]
      match tree.at? place with
      | some (directory _) => tree.makeSteps place rest
      | some (file _) => (tree, false)
      | none =>
        if allowsName step then (tree.put empty place).makeSteps place rest else (tree, false)

/-- Makes the directories of a path as far as they are missing; false if one can not be made. -/
def makeDirectories (tree : FileTree) (path : String) : FileTree × Bool :=
  if allowsPath path then tree.makeSteps [] (steps path) else (tree, false)

/-- The place of the file that a path names: a name in a directory that is there. -/
def place? (tree : FileTree) (path : String) : Option (List String) :=
  if !allowsPath path then none
  else
    match (Path.parts path).getLast? with
    | none | some "" | some "." | some ".." => none
    | some name =>
      if allowsName name then
        (tree.follow? [] (steps path).dropLast).map fun place => place ++ [name]
      else none

/-! ## Files -/

/-- What the system reports; its words are not part of any answer. -/
def systemError : IoError := ⟨"Other", "file system"⟩

/-- Creates or empties the file at a path. -/
def create (tree : FileTree) (path : String) : FileTree × Except Error SinkBehaviour :=
  let refused : Except Error SinkBehaviour := .error (.io path systemError)
  let parent := (Path.parent? path).getD ""
  match tree.makeDirectories parent with
  | (tree, false) => (tree, .error (.io parent systemError))
  | (tree, true) =>
    match tree.place? path with
    | none => (tree, refused)
    | some place =>
      match tree.at? place with
      | some (directory _) => (tree, refused)
      | _ => (tree.put (file []) place, .ok .faultless)

/-- Opens the file at a path. A directory can be opened, but not read. -/
def read (tree : FileTree) (path : String) : Except Error SourceBehaviour :=
  let refused : Except Error SourceBehaviour := .error (.io path systemError)
  let unreadable : SourceBehaviour := { data := [], failure := some systemError }
  match tree.place? path with
  | some place =>
    match tree.at? place with
    | some (file content) => .ok (.ofBytes content)
    | some (directory _) => .ok unreadable
    | none => refused
  | none =>
    if path = "" || !allowsPath path then refused
    else
      match tree.follow? [] (steps path) with
      | some _ => .ok unreadable
      | none => refused

/-- Opens the sink of a file, after others have been opened. -/
def createAfter (tree : FileTree) (before : List String) (path : String) :
    Except Error SinkBehaviour :=
  ((before.foldl (fun tree path => (tree.create path).1) tree).create path).2

/-- The tree after some attempts to create files, and after bytes were written to some of them. -/
def written (tree : FileTree) (attempts : List String) (contents : List (String × List UInt8)) :
    FileTree :=
  let created := attempts.foldl (fun tree path => (tree.create path).1) tree
  contents.foldl
    (fun tree content =>
      match tree.place? content.1 with
      | some place => tree.put (file content.2) place
      | none => tree)
    created

/-! ## Listings -/

mutual

/-- Everything below a place, each directory before its entries, the entries by name; a directory
has no content. -/
def listing (path : String) : FileTree → List (String × Option (List UInt8))
  | file content => [(path, some content)]
  | directory entries => (path, none) :: listEntries path entries

def listEntries (path : String) :
    List (String × FileTree) → List (String × Option (List UInt8))
  | [] => []
  | (name, tree) :: rest => tree.listing (Path.push path name) ++ listEntries path rest

end

/-- Everything below the working directory. -/
def contents : FileTree → List (String × Option (List UInt8))
  | file _ => []
  | directory entries => listEntries "" entries

end FileTree

end ByteLayout
