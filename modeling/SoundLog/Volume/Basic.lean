import SoundLog.Volume.Path

/-!
# Volumes

A volume is the tree below a working directory as a value: a list of places, each a file with its
bytes or a directory. Finding, creating and writing fail in the ways of an operating system.
-/

namespace SoundLog

inductive SystemError
  | notFound
  | alreadyExists
  | notADirectory
  | isADirectory
  | nameTooLong
  /-- A path is no text for the system if a NUL is in it. -/
  | nulInPath
  /-- Any other refusal, in the system's words. -/
  | other (message : String)
  deriving DecidableEq

def SystemError.message : SystemError → String
  | notFound => "No such file or directory (os error 2)"
  | alreadyExists => "File exists (os error 17)"
  | notADirectory => "Not a directory (os error 20)"
  | isADirectory => "Is a directory (os error 21)"
  | nameTooLong => "File name too long (os error 36)"
  | nulInPath => "file name contained an unexpected NUL byte"
  | other message => message

inductive Entry
  | file (content : List UInt8)
  | directory
  deriving DecidableEq

/-- A place: the names on the way from the working directory. It starts with the root or with steps
up if it is outside. -/
abbrev Place := List String

namespace Place

/-- Whether a place is the working directory, the root, or above one of them. -/
def isAncestor (place : Place) : Bool := place.all fun name => name = ".." || name = Path.root

def isInside (place : Place) : Bool :=
  place.head?.all fun name => name ≠ ".." && name ≠ Path.root

def above (place : Place) : Place :=
  if place.isAncestor then place ++ [".."] else place.dropLast

/-- The place that a name leads to from a directory. -/
def step (place : Place) (name : String) : Place :=
  if name = "" ∨ name = "." then place
  else if name = ".." then place.above
  else if name = Path.root then [Path.root]
  else place ++ [name]

end Place

structure Volume where
  entries : List (Place × Entry) := []
  deriving DecidableEq

namespace Volume

/-! ## Places -/

/-- What is in a place. The working directory, the root and what is above them are always there. -/
def entry? (volume : Volume) (place : Place) : Option Entry :=
  if place.isAncestor then some .directory else volume.entries.lookup place

def put (volume : Volume) (place : Place) (entry : Entry) : Volume :=
  if (volume.entries.lookup place).isSome then
    ⟨volume.entries.map fun old => if old.1 = place then (place, entry) else old⟩
  else ⟨volume.entries ++ [(place, entry)]⟩

def files (volume : Volume) : List (Place × List UInt8) :=
  volume.entries.filterMap fun item =>
    match item.2 with
    | .file content => if item.1.isInside then some (item.1, content) else none
    | .directory => none

/-! ## Paths -/

def maxNameSize : Nat := 255

def maxPathSize : Nat := 4095

/-- Why a path is refused without a look at the volume. -/
def refusal? (path : String) : Option SystemError :=
  if path.contains '\x00' then some .nulInPath
  else if path = "" then some .notFound
  else if maxPathSize < path.utf8ByteSize then some .nameTooLong
  else none

/-- Follows names from a place, each of them through a directory. -/
def walk (volume : Volume) : Place → List String → Except SystemError Place
  | place, [] => .ok place
  | place, name :: rest =>
    match volume.entry? place with
    | none => .error .notFound
    | some (.file _) => .error .notADirectory
    | some .directory =>
      if maxNameSize < name.utf8ByteSize then .error .nameTooLong
      else walk volume (place.step name) rest

/-- The place a path leads to, which may be empty. -/
def resolve (volume : Volume) (path : String) : Except SystemError Place :=
  match refusal? path with
  | some error => .error error
  | none => volume.walk [] (Path.steps path)

def find (volume : Volume) (path : String) : Except SystemError Entry := do
  let place ← volume.resolve path
  match volume.entry? place with
  | some entry => return entry
  | none => throw .notFound

def write (volume : Volume) (path : String) (content : List UInt8) : Except SystemError Volume := do
  let place ← volume.resolve path
  match volume.entry? place with
  | some .directory => throw .isADirectory
  | _ => return volume.put place (.file content)

/-! ## Directories -/

/-- Creates a directory at the end of some names, where nothing may be. -/
def addDirectory (volume : Volume) (names : List String) : Except SystemError Volume := do
  let place ← volume.walk [] names
  match volume.entry? place with
  | some _ => throw .alreadyExists
  | none => return volume.put place .directory

def isDirectory (volume : Volume) (names : List String) : Bool :=
  match volume.walk [] names with
  | .ok place => volume.entry? place = some .directory
  | .error _ => false

def ensureDirectory (volume : Volume) (names : List String) : Except SystemError Volume :=
  match volume.addDirectory names with
  | .ok changed => .ok changed
  | .error error => if volume.isDirectory names then .ok volume else .error error

/-- Creates a directory unless it is there already, after `makeAbove` if a directory on the way is
missing. -/
def ensureWith (volume : Volume) (names : List String)
    (makeAbove : Volume → Except SystemError Volume) : Except SystemError Volume :=
  match volume.ensureDirectory names with
  | .error .notFound => do
    let changed ← makeAbove volume
    changed.ensureDirectory names
  | result => result

/-- Creates a directory with those above it. Its names are given from the last one on. -/
def ensureTree (volume : Volume) : List String → Except SystemError Volume
  | [] => .ok volume
  | name :: above =>
    volume.ensureWith (name :: above).reverse fun volume => volume.ensureTree above

/-- Creates a directory with those above it; it may be there already. A dot at the end of the path
is a step of its own, for which the directory before it has to be there. -/
def makeDirectory (volume : Volume) (path : String) : Except SystemError Volume :=
  if path = "" then .ok volume
  else
    match refusal? path with
    | some error => .error error
    | none =>
      volume.ensureWith ((Path.steps path).filter (· ≠ "")) fun volume =>
        volume.ensureTree (Path.parts path).dropLast.reverse

end Volume
end SoundLog
