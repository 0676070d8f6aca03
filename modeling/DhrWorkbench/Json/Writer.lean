import DhrWorkbench.Value

/-!
# Writing JSON

One writer with a style: how values that hold others are broken into lines, whether code points
outside ASCII are escaped, and whether the fields of an object are sorted by name. A
floating-point number is written with the fewest digits that read back as it.

A value is written in front of what follows it, so that no part of the text is copied from level
to level of nesting.
-/

namespace DhrWorkbench

namespace Json

/-- How values are laid out. -/
structure Style where
  /-- The blanks of one level of nesting; none puts everything on one line. -/
  indent : Option Nat
  /-- Whether code points outside ASCII are escaped. -/
  asciiOnly : Bool
  /-- Whether fields are sorted by name. -/
  sorted : Bool

/-- Settings files: two blanks a level, sorted fields, other scripts as they are. -/
def Style.settings : Style := ⟨some 2, false, true⟩

/-- One line of ASCII. -/
def Style.line : Style := ⟨none, true, false⟩

def unicodeEscape (unit : Nat) : Text := "\\u" ++ Text.hex 4 unit

/-- One code point inside a string. -/
def writeCodePoint (asciiOnly : Bool) (c : CodePoint) : Text :=
  if c = '"' ∨ c = '\\' then ['\\', c]
  else if c = '\n' then "\\n"
  else if c = '\r' then "\\r"
  else if c = '\t' then "\\t"
  else if c.val = 8 then "\\b"
  else if c.val = 12 then "\\f"
  else if c.val < 0x20 then unicodeEscape c.val
  else if !asciiOnly || c.val < 0x80 then [c]
  else if c.val < 0x10000 then unicodeEscape c.val
  else
    let n := c.val - 0x10000
    unicodeEscape (0xD800 + n / 0x400) ++ unicodeEscape (0xDC00 + n % 0x400)

def writeString (asciiOnly : Bool) (t : Text) : Text :=
  "\"" ++ t.flatMap (writeCodePoint asciiOnly) ++ "\""

def blanks (n : Nat) : Text := List.replicate n ' '

/-- The break before an item at a level of nesting. -/
def Style.newline (style : Style) (level : Nat) : Text :=
  match style.indent with
  | some width => '\n' :: blanks (width * level)
  | none => []

/-- What stands between two items. -/
def Style.separator (style : Style) (level : Nat) : Text :=
  match style.indent with
  | some _ => ',' :: style.newline level
  | none => ", "

/-- Puts items with a separator between them in front of a text. -/
def joinOnto (separator : Text) : (items : List (Text → Text)) → (after : Text) → Text
  | [], after => after
  | [item], after => item after
  | item :: rest, after => item (separator ++ joinOnto separator rest after)

/-- Puts items between brackets in front of a text, the brackets alone when there are none. -/
def enclose (style : Style) (level : Nat) (opening closing : CodePoint)
    (items : List (Text → Text)) (after : Text) : Text :=
  if items.isEmpty then opening :: closing :: after
  else opening :: (style.newline (level + 1)
    ++ joinOnto (style.separator (level + 1)) items (style.newline level ++ closing :: after))

/-- The fields in the order of the style, each with its name. -/
def arrange (style : Style) (fields : List (Text × (Text → Text))) : List (Text → Text) :=
  let fields := if style.sorted then fields.mergeSort (fun a b => Text.atMost a.1 b.1) else fields
  fields.map fun (name, value) after => writeString style.asciiOnly name ++ (": " ++ value after)

mutual

/-- Writes a value in front of a text. -/
def writeOnto (style : Style) (level : Nat) : Value → (after : Text) → Text
  | .null, after => "null" ++ after
  | .bool true, after => "true" ++ after
  | .bool false, after => "false" ++ after
  | .int n, after => Text.ofInt n ++ after
  | .float x, after => x.textWith "NaN" "Infinity" ++ after
  | .str t, after => writeString style.asciiOnly t ++ after
  | .list items, after => enclose style level '[' ']' (itemWriters style (level + 1) items) after
  | .object fields, after =>
    enclose style level '\x7b' '\x7d' (arrange style (fieldWriters style (level + 1) fields)) after

/-- For each value what puts it in front of a text. -/
def itemWriters (style : Style) (level : Nat) : List Value → List (Text → Text)
  | [] => []
  | v :: rest => writeOnto style level v :: itemWriters style level rest

/-- For each field its name and what puts its value in front of a text. -/
def fieldWriters (style : Style) (level : Nat) : List (Text × Value) → List (Text × (Text → Text))
  | [] => []
  | (name, v) :: rest => (name, writeOnto style level v) :: fieldWriters style level rest

end

/-- The text of a value at a level of nesting. -/
def write (style : Style) (level : Nat) (v : Value) : Text := writeOnto style level v []

end Json

end DhrWorkbench
