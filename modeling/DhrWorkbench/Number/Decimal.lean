import DhrWorkbench.Text
import DhrWorkbench.Number.Binary64

/-!
# Decimals of floating-point numbers

A decimal `coefficient * 10 ^ exponent` is read as the nearest floating-point number. A number is
written with the fewest digits that are read back as that number; of two decimals of that many
digits the nearer is taken. Should no count of digits up to seventeen do, the exact decimal of the
number is written, so that writing and reading always give the number back.
-/

namespace DhrWorkbench

/-- The decimal `coefficient * 10 ^ exponent`. -/
structure Decimal where
  coefficient : Nat
  exponent : Int
  deriving DecidableEq

namespace Decimal

/-- How many digits a number has in decimal. -/
def digitCount (n : Nat) : Nat := (Text.ofNat n).length

/-- The nearest floating-point number. Decimals far outside the format's range need no powers. -/
def toBinary64 (negative : Bool) (d : Decimal) : Binary64 :=
  let magnitude : Int := digitCount d.coefficient + d.exponent
  if d.coefficient = 0 then .zero negative
  else if 400 < magnitude then .infinite negative
  else if magnitude < -400 then .zero negative
  else if 0 ≤ d.exponent then
    .ofRatio negative (d.coefficient * Nat.pow 10 d.exponent.toNat) 1
  else .ofRatio negative d.coefficient (Nat.pow 10 (-d.exponent).toNat)

/-- Moves the zeros at the end of the coefficient into the exponent. -/
def normalise : Nat → Decimal → Decimal
  | 0, d => d
  | fuel + 1, d =>
    if d.coefficient ≠ 0 ∧ d.coefficient % 10 = 0 then
      normalise fuel ⟨d.coefficient / 10, d.exponent + 1⟩
    else d

end Decimal

namespace Binary64

/-- The number of digits before the point of `num / den`; negative when zeros follow the point. -/
def pointOf (num den : Nat) : Int :=
  if den ≤ num then Decimal.digitCount (num / den)
  else go 330 num 0
where
  /-- Counts the zeros after the point. -/
  go : Nat → Nat → Int → Int
    | 0, _, point => point
    | fuel + 1, num, point => if den ≤ num * 10 then point else go fuel (num * 10) (point - 1)

/-- The ratio divided by `10 ^ exponent`. -/
def overPowerOfTen (num den : Nat) (exponent : Int) : Nat × Nat :=
  if 0 ≤ exponent then (num, den * Nat.pow 10 exponent.toNat)
  else (num * Nat.pow 10 (-exponent).toNat, den)

/-- The two decimals of `count` digits next to `num / den`, the nearer first. -/
def neighbours (num den : Nat) (point : Int) (count : Nat) : List Decimal :=
  let exponent := point - count
  let u := overPowerOfTen num den exponent
  let low := u.1 / u.2
  let twice := 2 * (u.1 % u.2)
  if twice < u.2 ∨ (twice = u.2 ∧ low % 2 = 0) then [⟨low, exponent⟩, ⟨low + 1, exponent⟩]
  else [⟨low + 1, exponent⟩, ⟨low, exponent⟩]

/-- The exact decimal of a finite magnitude. -/
def exactDecimal (exponent : Fin 2047) (fraction : Fin 4503599627370496) : Decimal :=
  let m := significand exponent fraction
  if 1074 ≤ scale exponent then ⟨m * Nat.pow 2 (scale exponent - 1074), 0⟩
  else ⟨m * Nat.pow 5 (1074 - scale exponent), -((1074 - scale exponent : Nat) : Int)⟩

/-- The first decimal next to `num / den` that is read back as `x`, from `count` digits on and for
as many counts as `tries`. -/
def readBack? (x : Binary64) (num den : Nat) (point : Int) : (tries count : Nat) → Option Decimal
  | 0, _ => none
  | tries + 1, count =>
    match (neighbours num den point count).find? fun d => d.toBinary64 false = x with
    | some d => some d
    | none => readBack? x num den point tries (count + 1)

/-- The decimal with the fewest digits that is read back as the number. -/
def shortest (exponent : Fin 2047) (fraction : Fin 4503599627370496) : Decimal :=
  let r := ratio exponent fraction
  let x : Binary64 := .finite false exponent fraction
  (readBack? x r.1 r.2 (pointOf r.1 r.2) 17 1).getD (exactDecimal exponent fraction)

/-- A row of zeros. -/
def padding (n : Nat) : Text := List.replicate n (Text.digit 0)

def signText (negative : Bool) : Text := if negative then "-" else ""

/-- A decimal in positional notation, always with a point. -/
def positional (digits : Text) (point : Int) : Text :=
  if point ≤ 0 then "0." ++ padding (-point).toNat ++ digits
  else if digits.length ≤ point.toNat then
    digits ++ padding (point.toNat - digits.length) ++ ".0"
  else digits.take point.toNat ++ "." ++ digits.drop point.toNat

/-- A decimal with one digit before the point and the power of ten in at least two digits. -/
def scientific (digits : Text) (point : Int) : Text :=
  let power := point - 1
  let mantissa : Text := match digits with
    | [] => []
    | [d] => [d]
    | d :: rest => d :: '.' :: rest
  let amount := Text.ofNat power.natAbs
  mantissa ++ (if power < 0 then "e-" else "e+") ++ padding (2 - amount.length) ++ amount

/-- A finite magnitude as text: positional from 0.0001 up to below 10 ^ 16. -/
def magnitudeText (exponent : Fin 2047) (fraction : Fin 4503599627370496) : Text :=
  if exponent.val = 0 ∧ fraction.val = 0 then "0.0"
  else
    let d := shortest exponent fraction
    let d := d.normalise (Decimal.digitCount d.coefficient)
    let digits := Text.ofNat d.coefficient
    let point := d.exponent + digits.length
    if -4 < point ∧ point ≤ 16 then positional digits point else scientific digits point

/-- The text of a number, with given words for not-a-number and infinity. -/
def textWith (nanWord infinityWord : Text) : Binary64 → Text
  | .nan => nanWord
  | .infinite negative => signText negative ++ infinityWord
  | .finite negative exponent fraction =>
    signText negative ++ magnitudeText exponent fraction

def text : Binary64 → Text := textWith "nan" "inf"

end Binary64

end DhrWorkbench
