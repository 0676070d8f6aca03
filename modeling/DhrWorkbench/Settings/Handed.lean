import DhrWorkbench.Settings.Manager

/-!
# Values handed to listeners

A listener is handed the very value that was written. An object stays the object of the document:
what is written inside it later shows in what was handed out, until the object is taken out of the
document. `Handed` follows one written value through the later changes of its manager; what is
replaced by a change is told by places: that of the written key, `Manager.replacedBySettle` and
`Manager.replacedByLoad`.
-/

namespace DhrWorkbench

namespace Settings

/-- A place in the documents of a manager: a scope and the parts of a key. No parts stand for the
whole document. -/
structure Place where
  scope : Scope
  parts : List Text
  deriving DecidableEq

/-- Whether a place is inside another or the same. -/
def Place.isWithin (p outer : Place) : Bool :=
  p.scope = outer.scope && outer.parts.isPrefixOf p.parts

namespace Manager

/-- What stands at a place. -/
def atPlace (m : Manager) (p : Place) : Option Value :=
  Fields.follow p.parts (.object (m.store p.scope).data)

/-- The places where normalising puts new objects. -/
def replacedByNormalise (m : Manager) : List Place :=
  let roots : List Place :=
    if isList (Fields.get? "workspace_roots" m.project.data) then []
    else [⟨.project, ["workspace_roots"]⟩]
  ⟨.project, ["dhrlang"]⟩ :: roots

/-- The place that a key is written to. -/
def placeOf (key : Text) (asked : Option Scope) : Place :=
  ⟨targetScope key asked, Fields.parts key⟩

/-- The places where settling puts new objects after a key was written. -/
def replacedBySettle (m : Manager) (key : Text) : List Place :=
  if isUnder "dhrlang" key then m.replacedByNormalise else []

/-- The places where loading puts new documents. -/
def replacedByLoad (m : Manager) (h : Host) : List Place :=
  match (m.project.load h).1, (m.ide.load h).1 with
  | .error _, _ => []
  | .ok (), .error _ => [⟨.project, []⟩]
  | .ok (), .ok () => [⟨.project, []⟩, ⟨.ide, []⟩]

end Manager

/-- A value that was written and handed to listeners. -/
structure Handed where
  manager : Text
  place : Place
  /-- Whether it is an object that still stands at its place. -/
  stands : Bool
  content : Value

namespace Handed

def isObject : Value → Bool
  | .object _ => true
  | _ => false

/-- The value that was just written for a key of a manager. -/
def ofSet (manager key : Text) (value : Value) (asked : Option Scope) : Handed :=
  let place := Manager.placeOf key asked
  { manager, place
    stands := isObject value && !place.isWithin ⟨.project, ["dhrlang"]⟩
    content := value }

/-- The value after a change of a manager that put new values at some places. -/
def follow (manager : Text) (replaced : List Place) (after : Manager) (v : Handed) : Handed :=
  if v.manager = manager && v.stands then
    if replaced.any v.place.isWithin then { v with stands := false }
    else { v with content := (after.atPlace v.place).getD v.content }
  else v

end Handed

end Settings

end DhrWorkbench
