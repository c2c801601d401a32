/-!
A directory tree as the contents of its files. Paths lead from its root; their parts are looked up
one by one, and each has to stand in a directory. Around the root there are directories that nothing
else is known of.
-/

namespace Wabbit.Command

/-- Why a file cannot be written. -/
inductive Obstacle where
  /-- A directory on the way is missing. -/
  | missing
  /-- There is a file where the path needs a directory. -/
  | notDirectory
  /-- There is a directory where the file should be, or the path asks for one. -/
  | directory
  /-- A name has more than 255 bytes, or the path more than 4095. -/
  | longName
  /-- The path has a character in it that ends a text. -/
  | terminator
  deriving DecidableEq, Repr

def Obstacle.message : Obstacle → String
  | missing => "No such file or directory (os error 2)"
  | notDirectory => "Not a directory (os error 20)"
  | directory => "Is a directory (os error 21)"
  | longName => "File name too long (os error 36)"
  | terminator => "file name contained an unexpected NUL byte"

/-- A place that a path can lead to, whether there is anything or not. -/
structure Place where
  /-- Whether the place is not below the root. -/
  outside : Bool := false
  /-- The names that lead to the place from the root, or from a directory around it. -/
  names : List String := []
  deriving DecidableEq, Repr

def Place.parent (place : Place) : Place :=
  match place.names with
  | [] => ⟨true, []⟩
  | names => ⟨place.outside, names.dropLast⟩

/-- What is at a place. -/
inductive Occupant where
  | file (content : String)
  | directory
  deriving DecidableEq, Repr

/-- The files below a directory, by the names that lead to them. -/
structure Files where
  entries : List (List String × String) := []
  deriving DecidableEq, Repr

namespace Files

def parts (path : String) : List String := path.splitOn "/"

def ofList (files : List (String × String)) : Files :=
  ⟨files.map fun (path, content) => ((parts path).filter (· ∉ ["", "."]), content)⟩

def toList (files : Files) : List (String × String) :=
  files.entries.map fun (names, content) => ("/".intercalate names, content)

/-- What is at a place. A directory is there if a file below it is. -/
def occupant? (files : Files) (place : Place) : Option Occupant :=
  if place.names.isEmpty then some .directory
  else if place.outside then none
  else match files.entries.lookup place.names with
    | some content => some (.file content)
    | none =>
      if files.entries.any fun entry => place.names.isPrefixOf entry.1 then some .directory
      else none

/-- Follows the parts of a path. The last part need not be there. -/
def follow (files : Files) : Place → List String → Except Obstacle Place
  | place, [] => .ok place
  | place, part :: rest =>
    match files.occupant? place with
    | none => .error .missing
    | some (.file _) => .error .notDirectory
    | some .directory =>
      if part = "" ∨ part = "." then files.follow place rest
      else if part = ".." then files.follow place.parent rest
      else if 255 < part.utf8ByteSize then .error .longName
      else files.follow { place with names := place.names ++ [part] } rest

/-- Follows some parts of a path from where the path starts, if it can be a path at all. -/
def walk (files : Files) (path : String) (parts : List String) : Except Obstacle Place :=
  if '\x00' ∈ path.toList then .error .terminator
  else if path.isEmpty then .error .missing
  else if 4095 < path.utf8ByteSize then .error .longName
  else files.follow { outside := path.startsWith "/" } parts

def find? (files : Files) (path : String) : Option Occupant :=
  (files.walk path (parts path)).toOption.bind files.occupant?

/-- The content of the file that a path leads to. -/
def read? (files : Files) (path : String) : Option String :=
  match files.find? path with
  | some (.file content) => some content
  | _ => none

def occupied (files : Files) (path : String) : Bool := (files.find? path).isSome

/-- The place of the file that is written to a path. The file may be new, its directory may not. -/
def destination (files : Files) (path : String) : Except Obstacle Place := do
  let place ← files.walk path ((parts path).reverse.dropWhile (·.isEmpty)).reverse
  if path.endsWith "/" ∨ files.occupant? place = some .directory then .error .directory
  else .ok place

/-- What keeps a file from being written to a path. -/
def obstacle? (files : Files) (path : String) : Option Obstacle :=
  match files.destination path with
  | .ok _ => none
  | .error obstacle => some obstacle

/-- Replaces the content of a file, or makes a new file. -/
def write (files : Files) (path content : String) : Files :=
  match files.destination path with
  | .error _ => files
  | .ok place =>
    if place.outside then files
    else if (files.entries.lookup place.names).isSome then
      ⟨files.entries.map fun entry =>
        if entry.1 = place.names then (entry.1, content) else entry⟩
    else ⟨files.entries ++ [(place.names, content)]⟩

end Files

end Wabbit.Command
