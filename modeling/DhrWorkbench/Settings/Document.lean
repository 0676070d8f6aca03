import DhrWorkbench.Value

/-!
# Settings documents

A settings document is the fields of an object, read and written by dotted keys: the parts of a
key between its dots name fields within fields. Writing makes an object of every section on the
way that is none. A document is completed from defaults: a missing field is taken over, and two
objects of one name are completed field by field.

A document may also be given as a list of pairs (`Value.pairs`). Its names can then be any values
that hold no others; of those that are the same value the first gives the name and the last the
value.
-/

namespace DhrWorkbench

namespace Fields

/-- The parts of a dotted key. -/
def parts (key : Text) : List Text := Text.splitOn '.' key

/-- The value that names lead to. No names lead to the value itself. -/
def follow : List Text → Value → Option Value
  | [], v => some v
  | part :: rest, .object fields => match get? part fields with
    | some v => follow rest v
    | none => none
  | _ :: _, _ => none

/-- The fields of an object, none of any other value. -/
def ofSection : Option Value → Fields
  | some (.object fields) => fields
  | _ => []

/-- Sets the value that names lead to. A section on the way that is no object becomes one. -/
def setPath (value : Value) : List Text → Fields → Fields
  | [], fields => fields
  | [last], fields => insert last value fields
  | part :: next :: rest, fields =>
    insert part (.object (setPath value (next :: rest) (ofSection (get? part fields)))) fields

/-- The value of a dotted key, if there is one. The empty key stands for the whole document. -/
def lookup (fields : Fields) (key : Text) : Option Value :=
  if key.isEmpty then some (.object fields) else follow (parts key) (.object fields)

/-- Sets the value of a dotted key, which may not be empty. -/
def assign (fields : Fields) (key : Text) (value : Value) : Option Fields :=
  if key.isEmpty then none else some (setPath value (parts key) fields)

mutual

/-- A value completed from the default for its place. -/
def completeValue (value : Value) : (default : Value) → Value
  | .object defaults => match value with
    | .object fields => .object (complete fields defaults)
    | value => value
  | _ => value

/-- A document completed from defaults. -/
def complete (fields : Fields) : (defaults : List (Text × Value)) → Fields
  | [] => fields
  | (key, default) :: rest =>
    complete (match get? key fields with
      | none => fields ++ [(key, default)]
      | some value => insert key (completeValue value default) fields) rest

end

end Fields

/-- Why a value is no document. -/
inductive DocumentFault
  /-- The value is no list of pairs. -/
  | kind
  /-- An item of the list is no pair. -/
  | length (position items : Nat)
  /-- The value nests too deep. -/
  | tooDeep

def DocumentFault.message : DocumentFault → Text
  | .kind => ""
  | .length position items =>
    "dictionary update sequence element #" ++ Text.ofNat position ++ " has length "
      ++ Text.ofNat items ++ "; 2 is required"
  | .tooDeep => ""

namespace Value

/-- The items of a value that has some: of a list, the code points of a text, the names of an
object's fields. -/
def items? : Value → Option (List Value)
  | .list items => some items
  | .str t => some (t.map fun c => .str [c])
  | .object fields => some (fields.map fun (key, _) => .str key)
  | _ => none

/-- How deep a document may nest. -/
def heightLimit : Nat := 494

def isTooDeep (v : Value) : Bool := heightLimit < v.height

/-- Whether a value can be a name: it holds no other values. -/
def isName : Value → Bool
  | .list _ => false
  | .object _ => false
  | _ => true

end Value

/-- Values by names that are values themselves. -/
abbrev Table := List (Value × Value)

namespace Table

def get? (name : Value) : Table → Option Value
  | [] => none
  | (n, v) :: rest => if n.sameAtom false name then some v else get? name rest

/-- Sets the value of a name: in its place if the name is there, at the end otherwise. -/
def insert (name value : Value) : Table → Table
  | [] => [(name, value)]
  | (n, v) :: rest =>
    if n.sameAtom false name then (n, value) :: rest else (n, v) :: insert name value rest

def ofFields (fields : Fields) : Table := fields.map fun (name, v) => (.str name, v)

/-- Adds the pairs of a list, the first of them at `position`. -/
def addPairs (position : Nat) (table : Table) : List Value → Except DocumentFault Table
  | [] => .ok table
  | item :: rest =>
    match item.items? with
    | none => .error .kind
    | some [name, value] =>
      if name.isName then addPairs (position + 1) (insert name value table) rest
      else .error .kind
    | some items => .error (.length position items.length)

/-- A table completed from defaults. -/
def complete (table : Table) : (defaults : Fields) → Table
  | [] => table
  | (name, default) :: rest =>
    complete (match get? (.str name) table with
      | none => table ++ [(.str name, default)]
      | some value => insert (.str name) (Fields.completeValue value default) table) rest

/-- The fields of a table, each by the text of its name; of two with one text the later counts. -/
def toFields (table : Table) : Fields :=
  table.foldl (fun fields (name, v) => Fields.insert name.text v fields) []

end Table

namespace Value

/-- The names and values of a value that has some: the fields of an object, or a list of pairs. -/
def pairs : Value → Except DocumentFault Table
  | .object fields => .ok (Table.ofFields fields)
  | v => match v.items? with
    | some items => Table.addPairs 0 [] items
    | none => .error .kind

/-- The table a value stands for, unless the value nests too deep. -/
def toTable (v : Value) : Except DocumentFault Table :=
  match v.pairs with
  | .error fault => .error fault
  | .ok table => if v.isTooDeep then .error .tooDeep else .ok table

/-- The document a value stands for. -/
def toDocument (v : Value) : Except DocumentFault Fields := v.toTable.map Table.toFields

/-- The document a value stands for, completed from defaults. The defaults may not nest too deep
either. -/
def completedFrom (v : Value) (defaults : Fields) : Except DocumentFault Fields :=
  match v.toTable with
  | .error fault => .error fault
  | .ok table =>
    if (Value.object defaults).isTooDeep then .error .tooDeep
    else .ok (table.complete defaults).toFields

end Value

end DhrWorkbench
