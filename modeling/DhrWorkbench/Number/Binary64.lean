import DhrWorkbench.Text

/-!
# Binary floating-point numbers

The numbers of the 64-bit binary format: a sign, an exponent below 2047 and a fraction of 52 bits,
besides the infinities and one not-a-number. A finite number is `significand * 2 ^ scale`. Ratios
of natural numbers are rounded to the nearest such number, halves to the even one; the exponent
and the fraction are the quotient and remainder by `2 ^ 52` of one number, so a carry out of the
fraction, up to infinity, needs no case of its own.
-/

namespace DhrWorkbench

/-- A number of the 64-bit binary floating-point format. -/
inductive Binary64
  | nan
  | infinite (negative : Bool)
  | finite (negative : Bool) (exponent : Fin 2047) (fraction : Fin 4503599627370496)
  deriving DecidableEq

namespace Binary64

def zero (negative : Bool) : Binary64 := .finite negative 0 0

/-- The whole factor of a finite number's magnitude. -/
def significand (exponent : Fin 2047) (fraction : Fin 4503599627370496) : Nat :=
  if exponent.val = 0 then fraction.val else 4503599627370496 + fraction.val

/-- The power of two of a finite number's magnitude, plus 1074. -/
def scale (exponent : Fin 2047) : Nat := exponent.val - 1

/-- A finite magnitude as a ratio. -/
def ratio (exponent : Fin 2047) (fraction : Fin 4503599627370496) : Nat × Nat :=
  let m := significand exponent fraction
  if 1074 ≤ scale exponent then (m * Nat.pow 2 (scale exponent - 1074), 1)
  else (m, Nat.pow 2 (1074 - scale exponent))

/-- The number whose exponent and fraction are the quotient and remainder of `code`. -/
def ofCode (negative : Bool) (code : Nat) : Binary64 :=
  if h : code / 4503599627370496 < 2047 then
    .finite negative ⟨code / 4503599627370496, h⟩
      ⟨code % 4503599627370496, Nat.mod_lt _ (by decide)⟩
  else .infinite negative

/-- The quotient rounded to the nearest whole number, halves to the even one. -/
def divideToEven (num den : Nat) : Nat :=
  let q := num / den
  let twice := 2 * (num % den)
  if twice < den then q else if den < twice then q + 1 else q + q % 2

/-- A ratio over the unit `2 ^ (scale - 1074)`. -/
def overUnit (num den scale : Nat) : Nat × Nat :=
  if 1074 ≤ scale then (num, den * Nat.pow 2 (scale - 1074))
  else (num * Nat.pow 2 (1074 - scale), den)

/-- The least scale at which the ratio, over the unit, is below `2 ^ 53`, as told by the lengths
of its two numbers up to one. -/
def scaleBelow (num den : Nat) : Nat := num.log2 + 1021 - den.log2

/-- The nearest number to `num / den` where `num` is not zero. -/
def ofPositiveRatio (negative : Bool) (num den : Nat) : Binary64 :=
  let low := scaleBelow num den
  let scale :=
    let u := overUnit num den low
    if u.1 / u.2 < 9007199254740992 then low else low + 1
  let u := overUnit num den scale
  ofCode negative (scale * 4503599627370496 + divideToEven u.1 u.2)

/-- The nearest number to `num / den`. -/
def ofRatio (negative : Bool) (num den : Nat) : Binary64 :=
  if num = 0 then zero negative else ofPositiveRatio negative num den

def isNegative : Binary64 → Bool
  | .nan => false
  | .infinite negative => negative
  | .finite negative _ _ => negative

/-- Whether a number is neither zero nor minus zero; a not-a-number is not zero. -/
def isNonzero : Binary64 → Bool
  | .finite _ exponent fraction => exponent.val ≠ 0 || fraction.val ≠ 0
  | _ => true

/-- The whole part of a finite number, toward zero. -/
def truncate? : Binary64 → Option Int
  | .finite negative exponent fraction =>
    let r := ratio exponent fraction
    let n : Int := (r.1 / r.2 : Nat)
    some (if negative then -n else n)
  | _ => none

/-- Whether a number is exactly the integer `n`. -/
def isInteger (x : Binary64) (n : Int) : Bool :=
  match x with
  | .finite negative exponent fraction =>
    let r := ratio exponent fraction
    r.1 % r.2 = 0 && (if negative then -((r.1 / r.2 : Nat) : Int) else (r.1 / r.2 : Nat)) = n
  | _ => false

/-- Numerical equality: the two zeros are equal, and not-a-number equals nothing. -/
def equals : Binary64 → Binary64 → Bool
  | .nan, _ => false
  | _, .nan => false
  | x, y => x = y || (!x.isNonzero && !y.isNonzero)

end Binary64

end DhrWorkbench
