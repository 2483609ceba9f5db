import OpenApiManifest.CommandLine.Script

/-!
# Trees of files

A tree of files in memory with a present directory, and how a script is played against it.  A way
through a tree goes over directories only; a name that is not there ends it.
-/

namespace OpenApiManifest.CommandLine

/-- What stands at a place in a tree. -/
inductive FileNode where
  | directory
  | file (bytes : List UInt8)
  deriving DecidableEq, Repr

/-- A tree of files: what stands at the places other than the root, and the present directory. -/
structure FileTree where
  nodes : List (List String × FileNode)
  here : List String
  deriving DecidableEq, Repr

namespace FileTree

def node? (tree : FileTree) (place : List String) : Option FileNode :=
  if place.isEmpty then some .directory else tree.nodes.lookup place

def put (tree : FileTree) (place : List String) (node : FileNode) : FileTree :=
  { tree with nodes := (place, node) :: tree.nodes.filter fun entry => entry.1 ≠ place }

/-- Goes on from a place over some parts of a path; all places on the way must be directories. -/
def walk (tree : FileTree) : List String → List PathName.Part → Except FileFault (List String)
  | place, [] => .ok place
  | place, part :: rest =>
    match tree.node? place with
    | none => .error .notFound
    | some (.file _) => .error .notDirectory
    | some .directory =>
      match part with
      | .root => tree.walk [] rest
      | .here => tree.walk place rest
      | .up => tree.walk place.dropLast rest
      | .name text => tree.walk (place ++ [text]) rest

/-- The place of a path, whether or not something stands there. -/
def place (tree : FileTree) (path : String) : Except FileFault (List String) := do
  if path.isEmpty then throw .notFound
  tree.walk tree.here (PathName.parts path)

/-- The bytes of the file at a path. -/
def read (tree : FileTree) (path : String) : Except FileFault (List UInt8) := do
  match tree.node? (← tree.place path) with
  | none => throw .notFound
  | some .directory => throw .isDirectory
  | some (.file bytes) => if path.endsWith "/" then throw .notDirectory else return bytes

def write (tree : FileTree) (path text : String) : Except FileFault FileTree := do
  let place ← tree.place path
  match tree.node? place with
  | some .directory => throw .isDirectory
  | some (.file _) =>
    if path.endsWith "/" then throw .notDirectory
  | none => if path.endsWith "/" then throw .isDirectory
  return tree.put place (.file text.toUTF8.data.toList)

/-- Creates the directory at a place and those on the way to it that are not there, from the present
place on. -/
def create (tree : FileTree) (place : List String) :
    List PathName.Part → Except FileFault (FileTree)
  | [] => .ok tree
  | .root :: rest => tree.create [] rest
  | .here :: rest => tree.create place rest
  | .up :: rest => tree.create place.dropLast rest
  | .name text :: rest =>
    let next := place ++ [text]
    match tree.node? next with
    | some .directory => tree.create next rest
    | some (.file _) => .error (if rest.isEmpty then .exists else .notDirectory)
    | none => (tree.put next .directory).create next rest

/-- Creates the directory at a path and those on the way to it. -/
def createDirectory (tree : FileTree) (path : String) : Except FileFault FileTree :=
  tree.create tree.here (PathName.parts path)

/-- A tree with some files, named from the present directory. -/
def ofFiles (files : List (String × List UInt8)) : FileTree :=
  let here := ["here"]
  files.foldl
    (fun tree (path, bytes) =>
      let names := (PathName.parts path).filterMap fun part =>
        match part with
        | .name text => some (PathName.Part.name text)
        | _ => none
      let tree := (tree.create here names.dropLast).toOption.getD tree
      match tree.walk here names with
      | .ok place => tree.put place (.file bytes)
      | .error _ => tree)
    ⟨[(here, .directory)], here⟩

end FileTree

/-- What was seen of a script: its printed lines, its lines on the error output, and the files after
it. -/
structure Played (α : Type) where
  printed : List String
  complained : List String
  files : FileTree
  /-- The value, or the chain of messages with which the script failed. -/
  outcome : Except (List String) α

namespace Played

variable {α : Type}

/-- Adds a printed line in front of the others. -/
def printing (line : String) (played : Played α) : Played α :=
  { played with printed := line :: played.printed }

/-- Adds a line on the error output in front of the others. -/
def complaining (line : String) (played : Played α) : Played α :=
  { played with complained := line :: played.complained }

end Played

/-- Plays a script against a tree of files at a time of the day. -/
def Script.play {α : Type} (clock : Clock) : Script α → FileTree → Played α
  | .done value, files => ⟨[], [], files, .ok value⟩
  | .fail chain, files => ⟨[], [], files, .error chain⟩
  | .readFile path next, files => play clock (next (files.read path)) files
  | .createDirectory path next, files =>
    match files.createDirectory path with
    | .ok made => play clock (next (.ok ())) made
    | .error fault => play clock (next (.error fault)) files
  | .writeFile path text next, files =>
    match files.write path text with
    | .ok made => play clock (next (.ok ())) made
    | .error fault => play clock (next (.error fault)) files
  | .print line next, files => (play clock next files).printing line
  | .complain line next, files => (play clock next files).complaining line
  | .readClock next, files => play clock (next clock) files

end OpenApiManifest.CommandLine
