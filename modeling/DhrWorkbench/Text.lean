/-!
# Text

A text is a list of Unicode code points. Surrogate code points count as code points here: an
escape in a settings file can name one alone, and such a text is held, compared and shown like any
other; only writing it as UTF-8 fails. Offsets and lengths therefore count code points.
-/

namespace DhrWorkbench

/-- A Unicode code point, surrogates included. -/
abbrev CodePoint := Fin 0x110000

/-- A text, as the list of its code points. -/
abbrev Text := List CodePoint

def CodePoint.ofChar (c : Char) : CodePoint :=
  ⟨c.toNat, by
    have h := c.valid
    unfold Char.toNat
    simp only [UInt32.isValidChar, Nat.isValidChar] at h
    omega⟩

instance : Coe Char CodePoint := ⟨CodePoint.ofChar⟩

@[simp] theorem CodePoint.ofChar_inj {a b : Char} :
    CodePoint.ofChar a = CodePoint.ofChar b ↔ a = b := by
  refine ⟨fun h => Char.ext (UInt32.toNat_inj.1 ?_), congrArg _⟩
  exact Fin.mk.inj h

/-- The code point of a number, taken modulo the number of code points. -/
def CodePoint.ofNat (n : Nat) : CodePoint := Fin.ofNat 0x110000 n

namespace Text

def ofString (s : String) : Text := s.toList.map CodePoint.ofChar

instance : Coe String Text := ⟨ofString⟩

/-- Membership in the ranges whose ends alternate in `bounds`: from the first to before the
second, from the third to before the fourth, and so on. -/
def within : List Nat → Nat → Bool
  | [], _ => false
  | [low], n => low ≤ n
  | low :: high :: rest, n => if n < high then low ≤ n else within rest n

/-- Whether a text has a code point. -/
def has (t : Text) (c : CodePoint) : Bool := t.any (· = c)

/-- Whether a text is one of some. -/
def isAmong (t : Text) (texts : List Text) : Bool := texts.any (· = t)

theorem has_iff {t : Text} {c : CodePoint} : has t c ↔ c ∈ t := by
  simp [has]

theorem isAmong_iff {t : Text} {texts : List Text} : isAmong t texts ↔ t ∈ texts := by
  simp [isAmong]

/-- The order by code points, the shorter of two first when one begins the other. -/
def atMost : Text → Text → Bool
  | [], _ => true
  | _ :: _, [] => false
  | a :: s, b :: t => if a = b then atMost s t else a < b

/-- The parts between the occurrences of a separator; there is always at least one. -/
def splitOn (separator : CodePoint) : Text → List Text
  | [] => [[]]
  | c :: rest =>
    if c = separator then [] :: splitOn separator rest
    else match splitOn separator rest with
      | [] => [[c]]
      | part :: parts => (c :: part) :: parts

/-- The texts one after the other with a separator between them. -/
def join (separator : Text) : List Text → Text
  | [] => []
  | [t] => t
  | t :: rest => t ++ (separator ++ join separator rest)

/-- The part after the last occurrence of a separator, the whole text when there is none. -/
def afterLast (separator : CodePoint) (t : Text) : Text :=
  (t.reverse.takeWhile (· ≠ separator)).reverse

/-- The text up to and including the last occurrence of a separator. -/
def throughLast (separator : CodePoint) (t : Text) : Text :=
  (t.reverse.dropWhile (· ≠ separator)).reverse

/-- Drops the code points of a class from both ends. -/
def trim (drop : CodePoint → Bool) (t : Text) : Text :=
  ((t.dropWhile drop).reverse.dropWhile drop).reverse

/-- The offset of the first occurrence of `part` that starts at `start` or later. -/
def find? (part : Text) (start : Nat) (t : Text) : Option Nat :=
  go (t.drop start) start
where
  go : Text → Nat → Option Nat
    | [], at_ => if part.isEmpty then some at_ else none
    | c :: rest, at_ => if part.isPrefixOf (c :: rest) then some at_ else go rest (at_ + 1)

theorem le_of_find? {part t : Text} {start i : Nat} (h : find? part start t = some i) :
    start ≤ i := by
  unfold find? at h
  generalize t.drop start = rest at h
  induction rest generalizing start with
  | nil =>
    unfold find?.go at h
    split at h <;> simp_all
  | cons c rest ih =>
    unfold find?.go at h
    split at h
    · simp_all
    · exact Nat.le_of_succ_le (ih h)

/-- The decimal digit `d`. -/
def digit (d : Nat) : CodePoint := CodePoint.ofNat (48 + d)

/-- The decimal digits of a number, put in front of `acc`. -/
def digitsOnto : Nat → Nat → Text → Text
  | 0, _, acc => acc
  | fuel + 1, n, acc =>
    if n < 10 then digit n :: acc else digitsOnto fuel (n / 10) (digit (n % 10) :: acc)

/-- A number in decimal. A number has no more decimal digits than binary ones. -/
def ofNat (n : Nat) : Text := digitsOnto (n.log2 + 1) n []

def ofInt : Int → Text
  | .ofNat n => ofNat n
  | .negSucc n => '-' :: ofNat (n + 1)

instance : Coe Nat Text := ⟨ofNat⟩

def hexDigit (d : Nat) : CodePoint := CodePoint.ofNat (if d < 10 then 48 + d else 87 + d)

/-- The lowest `width` hexadecimal digits of a number. -/
def hex : (width : Nat) → Nat → Text
  | 0, _ => []
  | width + 1, n => hex width (n / 16) ++ [hexDigit (n % 16)]

/-- The value of an ASCII hexadecimal digit. -/
def hexValue? (c : CodePoint) : Option Nat :=
  if 48 ≤ c.val ∧ c.val ≤ 57 then some (c.val - 48)
  else if 97 ≤ c.val ∧ c.val ≤ 102 then some (c.val - 87)
  else if 65 ≤ c.val ∧ c.val ≤ 70 then some (c.val - 55)
  else none

end Text

end DhrWorkbench
