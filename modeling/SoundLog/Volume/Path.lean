/-!
# Paths

Paths are texts with slashes between names. `steps` are the names to follow from the working
directory, `parts` drops what does not matter when two paths are compared, and `join` puts a file
name behind a directory.
-/

namespace SoundLog
namespace Path

/-- The pieces between the slashes, empty ones included. -/
def names (path : String) : List String := (path.toList.splitOn '/').map String.ofList

def isAbsolute (path : String) : Bool := path.startsWith '/'

/-- The name of the root, which no step from a directory can have. -/
def root : String := "/"

/-- The names to follow from the working directory; empty ones stay where they are. -/
def steps (path : String) : List String := (if isAbsolute path then [root] else []) ++ names path

/-- The pieces that count when paths are compared: no empty ones and, past the first, no dots. A
leading slash counts as a piece of its own. -/
def parts (path : String) : List String :=
  let counts (name : String) : Bool := name ≠ "" && name ≠ "."
  match names path with
  | [] => []
  | first :: rest =>
    let head :=
      if isAbsolute path then [root] else if first = "" then [] else [first]
    head ++ rest.filter counts

/-- The name of the file a path leads to, unless the path ends in a step up or leads nowhere. -/
def fileName? (path : String) : Option String :=
  match (parts path).getLast? with
  | none => none
  | some name => if name = root ∨ name = "." ∨ name = ".." then none else some name

/-- What follows the last dot of the file name, if something stands before that dot. -/
def extension? (path : String) : Option String :=
  match fileName? path with
  | none => none
  | some name =>
    match (name.splitOn ".").reverse with
    | last :: before :: earlier => if before = "" ∧ earlier = [] then none else some last
    | _ => none

def join (directory name : String) : String :=
  if directory = "" ∨ directory.endsWith '/' then directory ++ name else directory ++ "/" ++ name

end Path
end SoundLog
