import DhrWorkbench.Text
import DhrWorkbench.Text.Quoted
import DhrWorkbench.Number.Binary64
import DhrWorkbench.Number.Decimal

/-!
# Values

The values that settings files, catalogs and requests carry. An object keeps its fields in the
order in which they were added; a field set again keeps its place. Two values can be the same value
without being equal terms: integers, floating-point numbers and truth values compare as numbers,
and the order of fields does not count.
-/

namespace DhrWorkbench

/-- A nested value. -/
inductive Value
  | null
  | bool (b : Bool)
  | int (n : Int)
  | float (x : Binary64)
  | str (t : Text)
  | list (items : List Value)
  | object (fields : List (Text × Value))

/-- The fields of an object, in the order in which they were added. -/
abbrev Fields := List (Text × Value)

instance : Inhabited Value := ⟨.null⟩

namespace Fields

def get? (key : Text) : Fields → Option Value
  | [] => none
  | (k, v) :: rest => if k = key then some v else get? key rest

def contains (key : Text) (fields : Fields) : Bool := (get? key fields).isSome

/-- Sets a field: in its place if it is there, at the end otherwise. -/
def insert (key : Text) (value : Value) : Fields → Fields
  | [] => [(key, value)]
  | (k, v) :: rest => if k = key then (key, value) :: rest else (k, v) :: insert key value rest

def keys (fields : Fields) : List Text := fields.map (·.1)

end Fields

namespace Value

/-- Whether a value counts as present: all do but null, false, zero and what is empty. -/
def truthy : Value → Bool
  | .null => false
  | .bool b => b
  | .int n => n ≠ 0
  | .float x => x.isNonzero
  | .str t => !t.isEmpty
  | .list items => !items.isEmpty
  | .object fields => !fields.isEmpty

mutual

/-- A value as it shows inside another one: texts are quoted. -/
def quoted : Value → Text
  | .null => "None"
  | .bool true => "True"
  | .bool false => "False"
  | .int n => Text.ofInt n
  | .float x => x.text
  | .str t => Text.quoted t
  | .list items => "[" ++ Text.join ", " (quotedItems items) ++ "]"
  | .object fields => "\x7b" ++ Text.join ", " (quotedFields fields) ++ "\x7d"

def quotedItems : List Value → List Text
  | [] => []
  | v :: rest => quoted v :: quotedItems rest

def quotedFields : List (Text × Value) → List Text
  | [] => []
  | (k, v) :: rest => (Text.quoted k ++ ": " ++ quoted v) :: quotedFields rest

end

/-- A value as text: a text is itself. -/
def text : Value → Text
  | .str t => t
  | v => quoted v

/-- The text of a value that counts as present, another text otherwise. -/
def textOr (absent : Text) (v : Value) : Text := if v.truthy then v.text else absent

/-- The text that a value is; what counts as absent is the empty text. -/
def textIfAny? : Value → Option Text
  | .str t => some t
  | v => if v.truthy then none else some []

mutual

/-- How many values stand inside one another. -/
def height : Value → Nat
  | .list items => heightOfItems items + 1
  | .object fields => heightOfFields fields + 1
  | _ => 1

def heightOfItems : List Value → Nat
  | [] => 0
  | v :: rest => max (height v) (heightOfItems rest)

def heightOfFields : List (Text × Value) → Nat
  | [] => 0
  | (_, v) :: rest => max (height v) (heightOfFields rest)

end

/-- The word for the kind of a value. -/
def kindName : Value → Text
  | .null => "NoneType"
  | .bool _ => "bool"
  | .int _ => "int"
  | .float _ => "float"
  | .str _ => "str"
  | .list _ => "list"
  | .object _ => "dict"

/-- A truth value or an integer as an integer. -/
def integer? : Value → Option Int
  | .bool b => some (if b then 1 else 0)
  | .int n => some n
  | _ => none

/-- Equality of two values that hold no others. With `reflexive`, not-a-number equals itself. -/
def sameAtom (reflexive : Bool) : Value → Value → Bool
  | .null, .null => true
  | .str s, .str t => s = t
  | .float x, .float y => x.equals y || (reflexive && x = y)
  | .float x, w => match w.integer? with
    | some n => x.isInteger n
    | none => false
  | v, .float y => match v.integer? with
    | some n => y.isInteger n
    | none => false
  | v, w => match v.integer?, w.integer? with
    | some m, some n => m = n
    | _, _ => false

mutual

/-- Whether two values are the same. With `reflexive`, not-a-number is the same as itself. -/
def same (reflexive : Bool) : Value → Value → Bool
  | .list xs, w => match w with
    | .list ys => sameItems reflexive xs ys
    | _ => false
  | .object fs, w => match w with
    | .object gs => fs.length = gs.length && sameFields reflexive fs gs
    | _ => false
  | v, w => sameAtom reflexive v w

def sameItems (reflexive : Bool) : List Value → List Value → Bool
  | [], [] => true
  | v :: vs, w :: ws => same reflexive v w && sameItems reflexive vs ws
  | _, _ => false

/-- Whether each field has a same one of its name. -/
def sameFields (reflexive : Bool) : List (Text × Value) → Fields → Bool
  | [], _ => true
  | (k, v) :: rest, gs => (match Fields.get? k gs with
    | some w => same reflexive v w
    | none => false) && sameFields reflexive rest gs

end

end Value

end DhrWorkbench
