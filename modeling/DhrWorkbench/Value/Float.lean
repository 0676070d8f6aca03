import DhrWorkbench.Number.Decimal
import DhrWorkbench.Text.Lower
import DhrWorkbench.Value.Integer

/-!
# Floating-point numbers out of texts

A text spells a floating-point number by a word for infinity or for no number, in any case of
letters, or by digits of any script, with a point among or around them and a power of ten after
them. Blanks may stand around the number, a sign before it, and single underscores between two
digits. The number is the nearest one of the format.
-/

namespace DhrWorkbench

namespace Text

/-- The digits at the front of a text, if any, and what follows them. Underscores among them must
stand between two digits. -/
def digitsAtFront? (t : Text) : Option (Text × Text) :=
  let run := t.takeWhile fun c => isDigit c || c = '_'
  let rest := t.dropWhile fun c => isDigit c || c = '_'
  if run = [] then some ([], rest) else (looseDigits? run).map (·, rest)

/-- The power of ten that a text spells; an empty text spells none. -/
def powerOfTen? : Text → Option Int
  | [] => some 0
  | c :: rest =>
    let (negative, digits) := splitSign rest
    if c = 'e' ∨ c = 'E' then
      (looseDigits? digits).map fun digits =>
        if negative then -(digitsValue digits : Int) else digitsValue digits
    else none

/-- The decimal that a text without a sign spells. It has a digit before or after its point. -/
def toDecimal? (t : Text) : Option Decimal := do
  let (whole, rest) ← digitsAtFront? t
  let (fraction, rest) ← if rest.head? = some (CodePoint.ofChar '.') then
      digitsAtFront? (rest.drop 1)
    else some ([], rest)
  let power ← powerOfTen? rest
  if whole = [] && fraction = [] then none
  else return ⟨digitsValue (whole ++ fraction), power - fraction.length⟩

/-- The floating-point number that a text spells. -/
def toFloat? (t : Text) : Option Binary64 :=
  let (negative, body) := splitSign (t.trim isNumberBlank)
  let word := body.lower
  if word.isAmong ["inf", "infinity"] then some (.infinite negative)
  else if word = "nan" then some .nan
  else body.toDecimal?.map (·.toBinary64 negative)

end Text

end DhrWorkbench
