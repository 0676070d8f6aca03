import DhrWorkbench.Template
import DhrWorkbench.Text.Blank

/-!
# The catalog of constructs

A catalog lists the constructs of the language: keywords, types, builtins and the entry point,
each with a label of its own and a template. It is built from raw values. The first entry that is
no object, has a blank label, an unknown category or slots that disagree on a default is reported
by its place; only when all entries are sound does a repeated label count, the first one that
repeats an earlier label.
-/

namespace DhrWorkbench

/-- What kind of construct an entry is. -/
inductive Category
  | entryPoint
  | builtin
  | control
  | type
  | oop
  deriving DecidableEq

namespace Category

/-- All categories, in the order in which help lists them. -/
def all : List Category := [.entryPoint, .builtin, .control, .type, .oop]

def name : Category → Text
  | .entryPoint => "entry-point"
  | .builtin => "builtin-function"
  | .control => "control-keyword"
  | .type => "type"
  | .oop => "oop-keyword"

def ofName? (t : Text) : Option Category := all.find? (·.name = t)

/-- The icon of a category. -/
def icon : Category → Text
  | .type => "type_parameter"
  | .control => "keyword"
  | .oop => "keyword"
  | .builtin => "function"
  | .entryPoint => "function"

/-- The icon for a kind, if one is given, and the name of a category otherwise. A name of no
category has the icon of a keyword. -/
def iconFor (kind categoryName : Text) : Text :=
  if !kind.isEmpty then kind
  else match ofName? categoryName with
    | some category => category.icon
    | none => "keyword"

end Category

/-- One construct of the language. -/
structure Entry where
  label : Text
  category : Category
  description : Text
  template : Template
  documentation : Text
  kind : Text

def Entry.icon (e : Entry) : Text := Category.iconFor e.kind e.category.name

/-- A list of constructs. -/
structure Catalog where
  entries : List Entry

namespace Catalog

/-- What makes a list of raw entries no catalog. -/
inductive Refusal
  | notObject (position : Nat)
  | noLabel (position : Nat)
  | unknownCategory (label category : Text)
  | conflictingDefaults (label : Text) (index : Nat) (defaults : List Text)
  | duplicate (label : Text)
  | unreadable (source reason : Text)
  | noEntries (source : Text)

def Refusal.message : Refusal → Text
  | .notObject position => "Catalog entry #" ++ Text.ofNat position ++ " must be an object."
  | .noLabel position => "Catalog entry #" ++ Text.ofNat position ++ " has no label."
  | .unknownCategory label category =>
    "Catalog entry " ++ Text.quoted label ++ " has unknown category " ++ Text.quoted category ++ "."
  | .conflictingDefaults label index defaults =>
    "Catalog entry " ++ Text.quoted label ++ " links slot $" ++ Text.ofNat index
      ++ " with conflicting defaults: " ++ Value.quoted (.list (defaults.map .str))
  | .duplicate label => "Duplicate catalog label: " ++ Text.quoted label
  | .unreadable source reason => "Could not read catalog '" ++ source ++ "': " ++ reason
  | .noEntries source => "Catalog '" ++ source ++ "' must contain an 'entries' list."

/-- Why no catalog is built. -/
inductive Failure
  | refused (refusal : Refusal)
  /-- The number of a slot is too long to be read. -/
  | slotIndex (fault : IntegerFault)
  /-- The raw entries nest too deep to be read. -/
  | tooDeep

/-- The text of a field that counts as present, another text otherwise. -/
def fieldText (fields : Fields) (name absent : Text) : Text :=
  ((Fields.get? name fields).getD .null).textOr absent

/-- The entry of one raw value. -/
def entryOf (position : Nat) (raw : Value) : Except Failure Entry :=
  match raw with
  | .object fields =>
    let label := fieldText fields "label" ""
    let categoryName := Text.strip (fieldText fields "category" "")
    if Text.strip label = [] then .error (.refused (.noLabel position))
    else match Category.ofName? categoryName with
      | none => .error (.refused (.unknownCategory label categoryName))
      | some category =>
        match Template.parse (fieldText fields "template" label) with
        | .error fault => .error (.slotIndex fault)
        | .ok template =>
          match template.conflict? with
          | some (index, defaults) =>
            .error (.refused (.conflictingDefaults label index defaults))
          | none => .ok {
              label, category, template
              description := Text.strip (fieldText fields "description" "")
              documentation := Text.strip (fieldText fields "documentation" "")
              kind := Text.strip (fieldText fields "kind" "") }
  | _ => .error (.refused (.notObject position))

/-- The entries of raw values, the first at `position`. -/
def entriesOf (position : Nat) : List Value → Except Failure (List Entry)
  | [] => .ok []
  | raw :: rest =>
    match entryOf position raw with
    | .error failure => .error failure
    | .ok entry => (entriesOf (position + 1) rest).map (entry :: ·)

/-- The first label that repeats an earlier one. -/
def repeated? (seen : List Text) : List Text → Option Text
  | [] => none
  | label :: rest =>
    if Text.isAmong label seen then some label else repeated? (label :: seen) rest

def build (raw : List Value) : Except Failure Catalog :=
  match entriesOf 0 raw with
  | .error failure => .error failure
  | .ok entries =>
    match repeated? [] (entries.map (·.label)) with
    | some label => .error (.refused (.duplicate label))
    | none => .ok ⟨entries⟩

def lookup (c : Catalog) (label : Text) : Option Entry := c.entries.find? (·.label = label)

def labels (c : Catalog) : List Text := c.entries.map (·.label)

/-- The labels of more than one word. -/
def multiWordLabels (c : Catalog) : List Text :=
  c.labels.filter fun label => label.any fun ch : CodePoint => ch = ' '

def ofCategory (c : Catalog) (category : Category) : List Entry :=
  c.entries.filter (·.category = category)

end Catalog

end DhrWorkbench
