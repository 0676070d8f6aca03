import DhrWorkbench.Path
import DhrWorkbench.Text.Utf8

/-!
# File systems

A file system maps locations, the names from the root on, to what stands there: a folder, a file
with its bytes, or a tool, an executable whose whole behaviour is known. There are no links, so a
path leads to one location. Walking a path fails at the first name that is missing, too long, or
looked for in something that is no folder.
-/

namespace DhrWorkbench

/-- An executable: what it prints and the status it ends with. -/
structure Tool where
  /-- Whether it first prints its working directory and its arguments. -/
  echo : Bool
  stdout : List Byte
  stderr : List Byte
  status : Nat

/-- What stands at a location. -/
inductive Node
  | folder
  | file (bytes : List Byte) (executable : Bool)
  | tool (tool : Tool)

def Node.isFolder : Node → Bool
  | .folder => true
  | _ => false

/-- The names from the root on. -/
abbrev Location := List Text

/-- Why the system refuses a path. -/
inductive OsFault
  | missing
  | notFolder
  | isFolder
  | taken
  | nameTooLong
  | denied
  | notExecutable
  | loop
  deriving DecidableEq

def OsFault.code : OsFault → Nat
  | .missing => 2
  | .notExecutable => 8
  | .denied => 13
  | .taken => 17
  | .notFolder => 20
  | .isFolder => 21
  | .nameTooLong => 36
  | .loop => 40

def OsFault.words : OsFault → Text
  | .missing => "No such file or directory"
  | .notExecutable => "Exec format error"
  | .denied => "Permission denied"
  | .taken => "File exists"
  | .notFolder => "Not a directory"
  | .isFolder => "Is a directory"
  | .nameTooLong => "File name too long"
  | .loop => "Too many levels of symbolic links"

/-- A refusal together with the path it is about. -/
structure OsError where
  fault : OsFault
  path : Text
  deriving DecidableEq

def OsError.message (e : OsError) : Text :=
  "[Errno " ++ Text.ofNat e.fault.code ++ "] " ++ e.fault.words ++ ": " ++ Text.quoted e.path

/-- What a path leads to: a location in use, or a free name in a folder. -/
inductive Spot
  | there (location : Location)
  | free (folder : Location) (name : Text)
  deriving DecidableEq

/-- What stands at the locations in use. The root is always a folder. -/
structure FileSystem where
  entries : List (Location × Node)

namespace FileSystem

/-- The longest name, in bytes. -/
def nameLimit : Nat := 255

/-- The longest path, in bytes. -/
def pathLimit : Nat := 4095

def get? (fs : FileSystem) (location : Location) : Option Node :=
  if location = [] then some .folder else (fs.entries.find? (·.1 = location)).map (·.2)

def isFolder (fs : FileSystem) (location : Location) : Bool :=
  match fs.get? location with
  | some node => node.isFolder
  | none => false

/-- Puts something at a location, in the place of what stood there. -/
def put (fs : FileSystem) (location : Location) (node : Node) : FileSystem :=
  ⟨(location, node) :: fs.entries.filter (·.1 ≠ location)⟩

/-- Removes a location and all below it. -/
def erase (fs : FileSystem) (location : Location) : FileSystem :=
  ⟨fs.entries.filter fun (l, _) => !location.isPrefixOf l⟩

/-- The names in a folder. -/
def names (fs : FileSystem) (folder : Location) : List Text :=
  fs.entries.filterMap fun (l, _) =>
    match l.getLast? with
    | some name => if l.dropLast = folder then some name else none
    | none => none

/-- Follows names from a location. -/
def walk (fs : FileSystem) : Location → List Text → Except OsFault Spot
  | location, [] => .ok (.there location)
  | location, name :: rest =>
    if !fs.isFolder location then .error .notFolder
    else if name = [] ∨ name = Text.ofString "." then walk fs location rest
    else if name = Text.ofString ".." then walk fs location.dropLast rest
    else if nameLimit < (Utf8.nameBytes name).length then .error .nameTooLong
    else
      let name := Utf8.normalName name
      match fs.get? (location ++ [name]) with
      | some _ => walk fs (location ++ [name]) rest
      | none => if rest = [] then .ok (.free location name) else .error .missing

/-- Puts something at a location and makes the folders above it. -/
def plant (fs : FileSystem) (location : Location) (node : Node) : FileSystem :=
  let above := (List.range location.length).map fun n => location.take n
  let fs := above.foldl (fun fs l => if (fs.get? l).isSome then fs else fs.put l .folder) fs
  fs.put location node

end FileSystem

end DhrWorkbench
