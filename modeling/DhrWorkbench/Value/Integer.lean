import DhrWorkbench.Text.Blank
import DhrWorkbench.Text.Digit
import DhrWorkbench.Value

/-!
# Integers out of values

A truth value or an integer is an integer, a floating-point number gives its whole part, and a
text is read: blanks around it, a sign, then digits of any script with single underscores between
them. More than 4300 digits are refused.
-/

namespace DhrWorkbench

/-- Why a value gives no integer. -/
inductive IntegerFault
  /-- The value is no number and no text. -/
  | kind
  | nan
  | infinite
  /-- The text does not read as an integer. -/
  | malformed (t : Text)
  | tooLong (digits : Nat)

/-- The most digits that are read. -/
def Text.digitLimit : Nat := 4300

def IntegerFault.message : IntegerFault → Text
  | .kind => ""
  | .nan => "cannot convert float NaN to integer"
  | .infinite => "cannot convert float infinity to integer"
  | .malformed t => "invalid literal for int() with base 10: " ++ (Text.quoted t).take 200
  | .tooLong digits =>
    "Exceeds the limit (4300 digits) for integer string conversion: value has "
      ++ Text.ofNat digits
      ++ " digits; use sys.set_int_max_str_digits() to increase the limit"

namespace Text

/-- The blanks allowed around an integer: all but the four information separators. -/
def isNumberBlank (c : CodePoint) : Bool := isBlank c && !(0x1C ≤ c.val && c.val ≤ 0x1F)

/-- The digits of a run in which single underscores may stand between two digits. -/
def looseDigits? : Text → Option Text
  | [] => none
  | [c] => if isDigit c then some [c] else none
  | c :: d :: rest =>
    if !isDigit c then none
    else if d = '_' then (looseDigits? rest).map (c :: ·)
    else (looseDigits? (d :: rest)).map (c :: ·)

/-- The number of a run of digits, unless it is too long. -/
def natOfDigits (digits : Text) : Except IntegerFault Nat :=
  if digitLimit < digits.length then .error (.tooLong digits.length)
  else .ok (digitsValue digits)

/-- Whether a text starts with a minus sign, and the text without its sign. -/
def splitSign : Text → Bool × Text
  | [] => (false, [])
  | c :: rest =>
    if c = '-' then (true, rest) else if c = '+' then (false, rest) else (false, c :: rest)

/-- Reads an integer. A run of too many digits is refused whatever follows it. -/
def toInt (t : Text) : Except IntegerFault Int :=
  let (negative, body) := splitSign (t.dropWhile isNumberBlank)
  match looseDigits? (body.takeWhile fun c => isDigit c || c = '_') with
  | none => .error (.malformed t)
  | some digits => do
    let n ← natOfDigits digits
    if (body.dropWhile fun c => isDigit c || c = '_').all isNumberBlank then
      return if negative then -(n : Int) else n
    else .error (.malformed t)

end Text

/-- The integer a value gives. -/
def Value.toInt : Value → Except IntegerFault Int
  | .bool b => .ok (if b then 1 else 0)
  | .int n => .ok n
  | .float .nan => .error .nan
  | .float x => match x.truncate? with
    | some n => .ok n
    | none => .error .infinite
  | .str t => t.toInt
  | _ => .error .kind

namespace Value

mutual

/-- Whether an integer of more digits than are read stands in a value. Such a one is not written
either. -/
def hasLongInteger : Value → Bool
  | .int n => Text.digitLimit < Decimal.digitCount n.natAbs
  | .list items => hasLongIntegerIn items
  | .object fields => hasLongIntegerAmong fields
  | _ => false

def hasLongIntegerIn : List Value → Bool
  | [] => false
  | v :: rest => hasLongInteger v || hasLongIntegerIn rest

def hasLongIntegerAmong : List (Text × Value) → Bool
  | [] => false
  | (_, v) :: rest => hasLongInteger v || hasLongIntegerAmong rest

end

end Value

end DhrWorkbench
