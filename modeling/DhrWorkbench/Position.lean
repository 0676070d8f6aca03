import DhrWorkbench.Value.Integer

/-!
# Positions

A position is a line from 1 and a column from 0. Its offset lies in its line, the newline not
counted, and at the end of the text when there is no such line; what is below the first line or
column counts as the first.
-/

namespace DhrWorkbench

namespace Position

/-- What follows the first `n` newlines, if there are so many. -/
def afterNewlines : (n : Nat) → Text → Option Text
  | 0, t => some t
  | n + 1, t =>
    match t.dropWhile fun c : CodePoint => c ≠ '\n' with
    | [] => none
    | _ :: rest => afterNewlines n rest

/-- What follows the line breaks before a line. -/
def fromLine (t : Text) (line : Int) : Option Text := afterNewlines (max 1 line - 1).toNat t

/-- The offset of a column in the line that `rest` starts with. -/
def inLine (t rest : Text) (column : Int) : Nat :=
  t.length - rest.length
    + min column.toNat (rest.takeWhile fun c : CodePoint => c ≠ '\n').length

def offset (t : Text) (line column : Int) : Nat :=
  match fromLine t line with
  | none => t.length
  | some rest => inLine t rest column

/-- The integer of a value that counts as present, another one otherwise. -/
def integerOr (absent : Int) (v : Value) : Except IntegerFault Int :=
  if v.truthy then v.toInt else .ok absent

/-- The offset of a line and a column that are given as values. The column of a line that is not
there is never looked at. -/
def offsetOf (t : Text) (line column : Value) : Except IntegerFault Nat :=
  match integerOr 1 line with
  | .error fault => .error fault
  | .ok line =>
    match fromLine t line with
    | none => .ok t.length
    | some rest => (integerOr 0 column).map (inLine t rest)

end Position

end DhrWorkbench
