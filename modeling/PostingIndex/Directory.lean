import PostingIndex.File.Image
import PostingIndex.Text.Pieces

/-!
# Directories

Commands read and write the files of a directory.  A directory is a value here:
writing a file gives another directory.

## Contents

Paths, directories, finding what a path names, and reading, mapping and writing
files.
-/

namespace PostingIndex

/-!
## Paths
-/

/-- A path as the steps on the way. -/
structure Path where
  absolute : Bool
  steps : List String
  endsInSlash : Bool

namespace Path

def rootName : String :=
  "/"

def maxBytes : Nat :=
  4095

def maxNameBytes : Nat :=
  255

def ofString (text : String) : Path :=
  let chars := text.toList
  { absolute := chars.head? = some '/'
    steps := ((Text.pieces '/' chars).map String.ofList).filter fun piece => piece ≠ ""
    endsInSlash := chars.getLast? = some '/' }

def start (path : Path) : List String :=
  if path.absolute then [rootName] else []

def text : List String -> String
  | [] => "."
  | first :: rest =>
      if first = rootName then
        rootName ++ String.intercalate "/" rest
      else
        String.intercalate "/" (first :: rest)

def isDots (step : String) : Bool :=
  step = "." || step = ".."

/--
The names that lead to the folder above another one.  The root is above itself,
and above the working folder and the folders above it there is always one more.
-/
def above (folder : List String) : List String :=
  if folder = [rootName] then
    folder
  else if folder.all fun name => name = ".." then
    folder ++ [".."]
  else
    folder.dropLast

def take (folder : List String) (step : String) : List String :=
  if step = "." then
    folder
  else if step = ".." then
    above folder
  else
    folder ++ [step]

end Path

/-!
## Directories
-/

/-- The files and folders below some folder. -/
structure Directory where
  files : List (List String × FileBytes) := []
  folders : List (List String) := []

namespace Directory

def find? (directory : Directory) (names : List String) : Option FileBytes :=
  directory.files.lookup names

/-- Whether names lead to a folder: one listed, the root, or one further up. -/
def isFolder (directory : Directory) (names : List String) : Bool :=
  names.all (fun name => name = "..") || names = [Path.rootName] ||
    directory.folders.contains names

inductive Place where
  | folder
  | file (bytes : FileBytes)
  | free

def placeAt (directory : Directory) (folder : List String) (name : String) :
    Except FileFault Place :=
  if Path.maxNameBytes < name.utf8ByteSize then
    .error .nameTooLong
  else if directory.isFolder (folder ++ [name]) then
    .ok .folder
  else
    match directory.find? (folder ++ [name]) with
    | some bytes => .ok (.file bytes)
    | none => .ok .free

def enter (directory : Directory) (folder : List String) (step : String) :
    Except FileFault (List String) :=
  if Path.isDots step then
    .ok (Path.take folder step)
  else
    match directory.placeAt folder step with
    | .error fault => .error fault
    | .ok .folder => .ok (folder ++ [step])
    | .ok (.file _) => .error .notFolder
    | .ok .free => .error .notFound

inductive Target where
  | folder
  | entry (folder : List String) (name : String)

def follow (directory : Directory) (path : Path) : Except FileFault Target := do
  let folder ← path.steps.dropLast.foldlM directory.enter path.start
  match path.steps.getLast? with
  | none => return .folder
  | some name => return if Path.isDots name then .folder else .entry folder name

def target (directory : Directory) (path : String) : Except FileFault Target :=
  if path.toList.contains (Char.ofNat 0) then
    .error .zeroInName
  else if path.isEmpty then
    .error .notFound
  else if Path.maxBytes < path.utf8ByteSize then
    .error .nameTooLong
  else
    directory.follow (Path.ofString path)

/-- Finds what a path names.  Only a folder can be named with a slash at the end. -/
def locate (directory : Directory) (path : String) : Except FileFault Place := do
  match ← directory.target path with
  | .folder => return .folder
  | .entry folder name =>
      match ← directory.placeAt folder name with
      | .file bytes =>
          if (Path.ofString path).endsInSlash then
            throw .notFolder
          return .file bytes
      | place => return place

def read (directory : Directory) (path : String) : Except FileFault FileBytes := do
  match ← directory.locate path with
  | .folder => throw .isFolder
  | .file bytes => return bytes
  | .free => throw .notFound

def map (directory : Directory) (path : String) : Except FileFault FileBytes := do
  match ← directory.locate path with
  | .folder => throw .notMappable
  | .file bytes => return bytes
  | .free => throw .notFound

def readText (directory : Directory) (path : String) : Except FileFault String := do
  let bytes ← directory.read path
  match String.fromUTF8? ⟨bytes⟩ with
  | some text => return text
  | none => throw .notText

def put (directory : Directory) (names : List String) (bytes : FileBytes) : Directory :=
  { directory with
    files := (names, bytes) :: directory.files.filter fun file => file.1 ≠ names }

/--
Writes a file, replacing what it held.  A last name with a slash behind it is
refused as a folder before anything is looked for under it.
-/
def write (directory : Directory) (path : String) (bytes : FileBytes) :
    Except FileFault Directory := do
  match ← directory.target path with
  | .folder => throw .isFolder
  | .entry folder name =>
      if (Path.ofString path).endsInSlash then
        throw .isFolder
      match ← directory.placeAt folder name with
      | .folder => throw .isFolder
      | _ => return directory.put (folder ++ [name]) bytes

end Directory

end PostingIndex
