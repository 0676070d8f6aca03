import DhrWorkbench.Host
import DhrWorkbench.Json.Reader
import DhrWorkbench.Json.Writer
import DhrWorkbench.Settings.Document

/-!
# Settings stores

A store is a settings document that lives in a file. Loading completes the document in the file
from the defaults; a file that cannot be read leaves the defaults and is remembered in
`Store.lastError`. A store is dirty when its document may differ from what the file holds.
-/

namespace DhrWorkbench

namespace Settings

/-- Why an operation on settings does not complete. -/
inductive Failure
  /-- A path cannot be used. -/
  | path (fault : PathFault)
  /-- The settings file cannot be written. -/
  | unwritable (file reason : Text)
  | emptyKey
  /-- A key is no text. -/
  | keyKind
  /-- A document nests too deep to be read, copied or written. -/
  | tooDeep
  /-- A document has an integer of too many digits to be written. -/
  | longInteger

def Failure.message : Failure → Text
  | .path fault => fault.message
  | .unwritable file reason => "Could not write settings file '" ++ file ++ "': " ++ reason
  | .emptyKey => "Key cannot be empty."
  | .keyKind => ""
  | .tooDeep => "maximum recursion depth exceeded while calling a Python object"
  | .longInteger =>
    "Exceeds the limit (4300 digits) for integer string conversion; "
      ++ "use sys.set_int_max_str_digits() to increase the limit"

/-- A settings document and its file. -/
structure Store where
  path : Path
  defaults : Fields
  data : Fields
  dirty : Bool
  /-- Why the last load did not read the file. -/
  lastError : Option Text
  /-- Whether the document is kept in the file at all. -/
  persistent : Bool

namespace Store

/-- A store that holds its defaults. -/
def ofDefaults (path : Path) (defaults : Fields) (persistent : Bool) : Store where
  path
  defaults
  data := Fields.complete [] defaults
  dirty := false
  lastError := none
  persistent

/-- The document in the store's file, or what is wrong with the file. -/
def readFile (s : Store) (h : Host) : Except Failure (Except Text Fields) :=
  match h.readBytes s.path.text with
  | .error fault => .ok (.error fault.message)
  | .ok bytes =>
    match Json.readBytes bytes with
    | .error (.text _ .tooDeep) => .error .tooDeep
    | .error fault => .ok (.error fault.message)
    | .ok (.object fields) =>
      if (Value.object fields).isTooDeep then .error .tooDeep else .ok (.ok fields)
    | .ok value => .ok (.error ("Settings root in '" ++ s.path.text
        ++ "' must be a JSON object, found " ++ value.kindName ++ "."))

/-- The store without a document of its own. -/
def reset (s : Store) : Store :=
  { s with data := Fields.complete [] s.defaults, dirty := s.persistent, lastError := none }

/-- Loads the document from the file. Without a file the store takes its defaults and is dirty; a
file that cannot be read leaves the defaults and is not to be rewritten. -/
def load (s : Store) (h : Host) : Except Failure Unit × Store :=
  if !s.persistent then (.ok (), s.reset)
  else match h.exists s.path.text with
    | .error fault => (.error (.path fault), { s with lastError := none })
    | .ok false => (.ok (), s.reset)
    | .ok true =>
      match s.readFile h with
      | .error failure => (.error failure, { s with lastError := none })
      | .ok (.error reason) => (.ok (),
          { s.reset with dirty := false, lastError := some reason })
      | .ok (.ok fields) => (.ok (),
          { s with data := Fields.complete fields s.defaults, dirty := false, lastError := none })

/-- The text of the store's document as it stands in the file. -/
def fileText (s : Store) : Text := Json.write .settings 0 (.object s.data)

/-- What it means for saving that a path cannot be used. -/
def writeFailure (s : Store) (fault : PathFault) : Failure :=
  match fault with
  | .os error => .unwritable s.path.text error.message
  | fault => .path fault

/-- Whether the document nests too deep to be written. -/
def isUnwritable (s : Store) : Bool := Json.depthLimit < (Value.object s.data).height

/-- Makes the folder of the file and writes the document to the file, which is left alone when the
document nests too deep or has too long an integer. -/
def writeFile (s : Store) (h : Host) : Except Failure Unit × Host :=
  match h.ensureFolders s.path.anchor s.path.parent.parts.reverse with
  | (.error fault, h) => (.error (s.writeFailure fault), h)
  | (.ok (), h) =>
    if s.isUnwritable then (.error .tooDeep, h)
    else if (Value.object s.data).hasLongInteger then (.error .longInteger, h)
    else match h.writeText s.path.text s.fileText with
      | (.ok (), h) => (.ok (), h)
      | (.error fault, h) => (.error (s.writeFailure fault), h)

/-- Saves the document to the file. -/
def save (s : Store) (h : Host) : Except Failure Unit × Store × Host :=
  if !s.persistent then (.ok (), { s with dirty := false }, h)
  else match s.writeFile h with
    | (.ok (), h) => (.ok (), { s with dirty := false, lastError := none }, h)
    | (.error failure, h) => (.error failure, s, h)

/-- Whether the last load left the file unread, with a reason that says something. -/
def isBarred (s : Store) : Bool :=
  match s.lastError with
  | some reason => !reason.isEmpty
  | none => false

/-- The value of a dotted key. -/
def get (s : Store) (key : Text) (default : Value) : Value :=
  (Fields.lookup s.data key).getD default

/-- Sets the value of a dotted key unless it is the same already. Tells whether it changed. -/
def set (s : Store) (key : Text) (value : Value) : Except Failure (Bool × Store) :=
  if (s.get key .null).same false value then .ok (false, s)
  else match Fields.assign s.data key value with
    | none => .error .emptyKey
    | some data => .ok (true, { s with data, dirty := true })

end Store

end Settings

end DhrWorkbench
