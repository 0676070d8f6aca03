import DhrWorkbench.Catalog
import DhrWorkbench.Host
import DhrWorkbench.Json.Reader

/-!
# Catalogs in files

A catalog file holds either the list of raw entries or an object with that list as its field
`entries`. A file that cannot be read, is no JSON or holds no such list is refused.
-/

namespace DhrWorkbench

namespace Catalog

/-- The raw entries in the value of a catalog file. -/
def rawEntries? : Value → Option (List Value)
  | .object fields => match Fields.get? "entries" fields with
    | some (.list items) => some items
    | _ => none
  | .list items => some items
  | _ => none

/-- The value in a catalog file. -/
def readFile (h : Host) (path : Text) : Except Failure Value :=
  let source := (Path.ofText path).text
  match h.readBytes source with
  | .error fault => .error (.refused (.unreadable source fault.message))
  | .ok bytes =>
    match Json.readBytes bytes with
    | .error (.text _ .tooDeep) => .error .tooDeep
    | .error fault => .error (.refused (.unreadable source fault.message))
    | .ok value => .ok value

/-- The catalog in a file. -/
def load (h : Host) (path : Text) : Except Failure Catalog :=
  match readFile h path with
  | .error failure => .error failure
  | .ok value =>
    match rawEntries? value with
    | some raw => build raw
    | none => .error (.refused (.noEntries (Path.ofText path).text))

end Catalog

end DhrWorkbench
