/-!
# Path names

A path name is read as its parts: the root, the names between the slashes, and the marks for the
present and the parent directory.  Repeated slashes, a slash at the end, and marks for the present
directory after the first part mean nothing.
-/

namespace OpenApiManifest.PathName

/-- A part of a path. -/
inductive Part where
  | root
  | here
  | up
  | name (text : String)
  deriving DecidableEq, Repr

/-- What stands between two slashes, unless it means nothing. -/
def partOf? (text : String) : Option Part :=
  if text = "" ∨ text = "." then none
  else if text = ".." then some .up
  else some (.name text)

def parts (path : String) : List Part :=
  let pieces := path.splitOn "/"
  let rest := pieces.filterMap partOf?
  match pieces with
  | "" :: _ :: _ => .root :: rest
  | "." :: _ => .here :: rest
  | _ => rest

/-- The parts of the directory in which a path stands; the root and the empty path stand in none. -/
def parent? (parts : List Part) : Option (List Part) :=
  match parts.getLast? with
  | none | some .root => none
  | some _ => some parts.dropLast

/-- The name at the end of a path. -/
def fileName? (parts : List Part) : Option String :=
  match parts.getLast? with
  | some (.name text) => some text
  | _ => none

/-- What follows the last dot of a name, unless that dot is its first character. -/
def extension? (name : String) : Option String :=
  match (name.splitOn ".").reverse with
  | last :: before :: more => if before = "" ∧ more.isEmpty then none else some last
  | _ => none

/-- The path of a name in a directory. -/
def join (directory name : String) : String :=
  if directory = "" ∨ directory.endsWith "/" then directory ++ name
  else directory ++ "/" ++ name

end OpenApiManifest.PathName
