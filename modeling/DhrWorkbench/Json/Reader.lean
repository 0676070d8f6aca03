import DhrWorkbench.Text.Utf8
import DhrWorkbench.Value
import DhrWorkbench.Value.Integer

/-!
# Reading JSON

A strict reader of JSON texts that tells where a text stops being JSON. Beyond the standard it
reads `NaN`, `Infinity` and `-Infinity`; of two fields of one name the last one counts, in the
place of the first. A number with a fraction or an exponent is a floating-point number, any other
an integer. Values nest up to a fixed depth.

The reader moves a cursor over the text. Every value takes at least one code point, so the length
of the text bounds the number of values and serves as the bound of the recursion.
-/

namespace DhrWorkbench

namespace Json

/-- What is wrong at a place of the text. -/
inductive Complaint
  | value
  | fieldName
  | colon
  | comma
  | unterminated
  | control
  | escape
  | unicodeEscape
  | extra
  | byteOrderMark
  deriving DecidableEq

def Complaint.words : Complaint → Text
  | .value => "Expecting value"
  | .fieldName => "Expecting property name enclosed in double quotes"
  | .colon => "Expecting ':' delimiter"
  | .comma => "Expecting ',' delimiter"
  | .unterminated => "Unterminated string starting at"
  | .control => "Invalid control character at"
  | .escape => "Invalid \\escape"
  | .unicodeEscape => "Invalid \\uXXXX escape"
  | .extra => "Extra data"
  | .byteOrderMark => "Unexpected UTF-8 BOM (decode using utf-8-sig)"

/-- Why a text is not read. -/
inductive Fault
  | malformed (complaint : Complaint) (position : Nat)
  | integer (fault : IntegerFault)
  | tooDeep

/-- The line of an offset, from 1. -/
def lineOf (document : Text) (position : Nat) : Nat :=
  1 + (document.take position).countP fun c : CodePoint => c = '\n'

/-- The column of an offset in its line, from 1. -/
def columnOf (document : Text) (position : Nat) : Nat :=
  1 + (Text.afterLast '\n' (document.take position)).length

def Fault.message (document : Text) : Fault → Text
  | .malformed complaint position =>
    complaint.words ++ ": line " ++ Text.ofNat (lineOf document position) ++ " column "
      ++ Text.ofNat (columnOf document position) ++ " (char " ++ Text.ofNat position ++ ")"
  | .integer fault => fault.message
  | .tooDeep => ""

/-- The depth to which values nest. -/
def depthLimit : Nat := 985

/-- A place in the text: its offset and what follows it. -/
structure Cursor where
  position : Nat
  rest : Text

namespace Cursor

def advance (c : Cursor) (n : Nat) : Cursor := ⟨c.position + n, c.rest.drop n⟩

def isSpace (c : CodePoint) : Bool := c = ' ' || c = '\t' || c = '\n' || c = '\r'

def skipSpace (c : Cursor) : Cursor := c.advance (c.rest.takeWhile isSpace).length

def fail {α : Type} (c : Cursor) (complaint : Complaint) : Except Fault α :=
  .error (.malformed complaint c.position)

/-- The next code point, if any. -/
def next? (c : Cursor) : Option CodePoint := c.rest.head?

def isAt (c : Cursor) (ch : Char) : Bool := c.next? = some (CodePoint.ofChar ch)

end Cursor

/-- The number of four hexadecimal digits. -/
def hexUnit? (a b c d : CodePoint) : Option Nat := do
  let a ← Text.hexValue? a
  let b ← Text.hexValue? b
  let c ← Text.hexValue? c
  let d ← Text.hexValue? d
  return a * 0x1000 + b * 0x100 + c * 0x10 + d

/-- The code point of an escape of one letter. -/
def escapeOf? (c : CodePoint) : Option CodePoint :=
  if c = '"' ∨ c = '\\' ∨ c = '/' then some c
  else if c = 'b' then some (CodePoint.ofNat 8)
  else if c = 'f' then some (CodePoint.ofNat 12)
  else if c = 'n' then some '\n'
  else if c = 'r' then some '\r'
  else if c = 't' then some '\t'
  else none

/-- The code point of a high and a low surrogate. -/
def joinSurrogates (high low : Nat) : CodePoint :=
  CodePoint.ofNat (0x10000 + (high - 0xD800) * 0x400 + (low - 0xDC00))

def isHigh (unit : Nat) : Bool := 0xD800 ≤ unit && unit ≤ 0xDBFF

def isLow (unit : Nat) : Bool := 0xDC00 ≤ unit && unit ≤ 0xDFFF

/-- Puts a code point in front of a string that was read. -/
def push (c : CodePoint) (r : Except Fault (Text × Cursor)) : Except Fault (Text × Cursor) :=
  r.map fun (t, cursor) => (c :: t, cursor)

/-- The escape of a low surrogate with its length, if a text starts with it. A broken escape there
is refused; `position` is that of the text. -/
def lowAfter? (position : Nat) : Text → Except Fault (Option Nat)
  | b :: u :: h₁ :: h₂ :: h₃ :: h₄ :: _ :: _ =>
    if b = '\\' && u = 'u' then
      match hexUnit? h₁ h₂ h₃ h₄ with
      | none => .error (.malformed .unicodeEscape (position + 1))
      | some unit => .ok (if isLow unit then some unit else none)
    else .ok none
  | _ => .ok none

/-- The code point of an escape and the length of what follows its backslash, which stands at
`position`. The number of a high surrogate joins that of a low one that is escaped right after it;
any other surrogate stays alone. After the four digits of a number the string must go on. -/
def readEscape (start position : Nat) : Text → Except Fault (CodePoint × Nat)
  | [] => .error (.malformed .unterminated start)
  | e :: rest =>
    if e = 'u' then
      match rest with
      | h₁ :: h₂ :: h₃ :: h₄ :: more :: rest =>
        match hexUnit? h₁ h₂ h₃ h₄ with
        | none => .error (.malformed .unicodeEscape (position + 1))
        | some unit =>
          if isHigh unit then
            (lowAfter? (position + 6) (more :: rest)).map fun
              | some low => (joinSurrogates unit low, 11)
              | none => (CodePoint.ofNat unit, 5)
          else .ok (CodePoint.ofNat unit, 5)
      | _ => .error (.malformed .unicodeEscape (position + 1))
    else match escapeOf? e with
      | some c => .ok (c, 1)
      | none => .error (.malformed .escape position)

/-- Reads a string after its opening quote, which stands at `start`; the first `skip` code points
belong to an escape already read. -/
def readString (start : Nat) : (position skip : Nat) → Text → Except Fault (Text × Cursor)
  | _, _, [] => .error (.malformed .unterminated start)
  | position, skip + 1, _ :: rest => readString start (position + 1) skip rest
  | position, 0, c :: rest =>
    if c = '"' then .ok ([], ⟨position + 1, rest⟩)
    else if c = '\\' then
      match readEscape start position rest with
      | .error fault => .error fault
      | .ok (c, length) => push c (readString start (position + 1) length rest)
    else if c.val < 0x20 then .error (.malformed .control position)
    else push c (readString start (position + 1) 0 rest)

def isAsciiDigit (c : CodePoint) : Bool := 48 ≤ c.val && c.val ≤ 57

/-- The digits after a point, if a point with a digit comes next. -/
def fractionOf? (t : Text) : Option Text :=
  match t with
  | c :: rest =>
    let digits := rest.takeWhile isAsciiDigit
    if c = '.' ∧ digits ≠ [] then some digits else none
  | [] => none

/-- The sign and digits of an exponent and its length, if one comes next. -/
def exponentOf? (t : Text) : Option (Bool × Text × Nat) :=
  match t with
  | c :: rest =>
    if c = 'e' ∨ c = 'E' then
      let signed := match rest with
        | s :: _ => decide (s = '-' ∨ s = '+')
        | [] => false
      let digits := (if signed then rest.drop 1 else rest).takeWhile isAsciiDigit
      if digits = [] then none
      else some (rest.head? = some (CodePoint.ofChar '-'), digits,
        1 + (if signed then 1 else 0) + digits.length)
    else none
  | [] => none

/-- The digits before the point: a single zero, or digits that start with another one. -/
def wholeOf (t : Text) : Text :=
  if t.head? = some (CodePoint.ofChar '0') then "0" else t.takeWhile isAsciiDigit

/-- Reads a number. -/
def readNumber (cursor : Cursor) : Except Fault (Value × Cursor) :=
  let negative := cursor.isAt '-'
  let signed := if negative then 1 else 0
  let whole := wholeOf (cursor.rest.drop signed)
  if whole = [] then cursor.fail .value
  else
    let afterWhole := cursor.advance (signed + whole.length)
    let fraction := fractionOf? afterWhole.rest
    let afterFraction := match fraction with
      | some digits => afterWhole.advance (1 + digits.length)
      | none => afterWhole
    let exponent := exponentOf? afterFraction.rest
    let done := match exponent with
      | some (_, _, length) => afterFraction.advance length
      | none => afterFraction
    match fraction, exponent with
    | none, none =>
      match Text.natOfDigits whole with
      | .ok n => .ok (.int (if negative then -(n : Int) else n), done)
      | .error fault => .error (.integer fault)
    | _, _ =>
      let fractionDigits := fraction.getD []
      let power : Int := match exponent with
        | some (below, digits, _) =>
          if below then -(Text.digitsValue digits : Int) else Text.digitsValue digits
        | none => 0
      let d : Decimal := ⟨Text.digitsValue (whole ++ fractionDigits), power - fractionDigits.length⟩
      .ok (.float (d.toBinary64 negative), done)

/-- The words that stand for values. -/
def literals : List (Text × Value) :=
  [("null", .null), ("true", .bool true), ("false", .bool false), ("NaN", .float .nan),
    ("Infinity", .float (.infinite false)), ("-Infinity", .float (.infinite true))]

mutual

/-- Reads one value; `depth` is how much deeper values may still nest. -/
def readValue : (fuel depth : Nat) → Cursor → Except Fault (Value × Cursor)
  | 0, _, cursor => cursor.fail .value
  | fuel + 1, depth, cursor =>
    if cursor.isAt '"' then
      (readString cursor.position (cursor.position + 1) 0 (cursor.rest.drop 1)).map
        fun (t, cursor) => (.str t, cursor)
    else if cursor.isAt '\x7b' then
      match depth with
      | 0 => .error .tooDeep
      | depth + 1 =>
        let inside := (cursor.advance 1).skipSpace
        if inside.isAt '\x7d' then .ok (.object [], inside.advance 1)
        else (readFields fuel depth [] inside).map fun (fields, cursor) => (.object fields, cursor)
    else if cursor.isAt '[' then
      match depth with
      | 0 => .error .tooDeep
      | depth + 1 =>
        let inside := (cursor.advance 1).skipSpace
        if inside.isAt ']' then .ok (.list [], inside.advance 1)
        else (readItems fuel depth inside).map fun (items, cursor) => (.list items, cursor)
    else match literals.find? fun l => l.1.isPrefixOf cursor.rest with
      | some (word, value) => .ok (value, cursor.advance word.length)
      | none => readNumber cursor

/-- Reads the values of a list from its first one to its closing bracket. -/
def readItems : (fuel depth : Nat) → Cursor → Except Fault (List Value × Cursor)
  | 0, _, cursor => cursor.fail .value
  | fuel + 1, depth, cursor =>
    match readValue fuel depth cursor with
    | .error fault => .error fault
    | .ok (item, cursor) =>
      let cursor := cursor.skipSpace
      if cursor.isAt ']' then .ok ([item], cursor.advance 1)
      else if cursor.isAt ',' then
        (readItems fuel depth (cursor.advance 1).skipSpace).map
          fun (items, cursor) => (item :: items, cursor)
      else cursor.fail .comma

/-- Reads the fields of an object from the first name to the closing brace. -/
def readFields : (fuel depth : Nat) → Fields → Cursor → Except Fault (Fields × Cursor)
  | 0, _, _, cursor => cursor.fail .value
  | fuel + 1, depth, fields, cursor =>
    if !cursor.isAt '"' then cursor.fail .fieldName
    else match readString cursor.position (cursor.position + 1) 0 (cursor.rest.drop 1) with
      | .error fault => .error fault
      | .ok (name, cursor) =>
        let cursor := cursor.skipSpace
        if !cursor.isAt ':' then cursor.fail .colon
        else match readValue fuel depth (cursor.advance 1).skipSpace with
          | .error fault => .error fault
          | .ok (value, cursor) =>
            let fields := Fields.insert name value fields
            let cursor := cursor.skipSpace
            if cursor.isAt '\x7d' then .ok (fields, cursor.advance 1)
            else if cursor.isAt ',' then
              readFields fuel depth fields (cursor.advance 1).skipSpace
            else cursor.fail .comma

end

/-- Reads a text that is one value with space around it. -/
def read (document : Text) : Except Fault Value :=
  if document.head? = some (CodePoint.ofNat 0xFEFF) then .error (.malformed .byteOrderMark 0)
  else match readValue (2 * document.length + 1) depthLimit (Cursor.mk 0 document).skipSpace with
    | .error fault => .error fault
    | .ok (value, cursor) =>
      let cursor := cursor.skipSpace
      if cursor.rest = [] then .ok value else cursor.fail .extra

/-- Why a file of bytes is not read as JSON. -/
inductive FileFault
  | bytes (fault : Utf8.Undecodable)
  | text (document : Text) (fault : Fault)

def FileFault.message : FileFault → Text
  | .bytes fault => fault.message
  | .text document fault => fault.message document

/-- Reads the bytes of a file, in which every line ending counts as a newline. -/
def readBytes (bytes : List Byte) : Except FileFault Value :=
  match Utf8.decode bytes with
  | .error fault => .error (.bytes fault)
  | .ok t =>
    let document := Text.unifyNewlines t
    match read document with
    | .error fault => .error (.text document fault)
    | .ok value => .ok value

end Json

end DhrWorkbench
