import DhrWorkbench.Text
import DhrWorkbench.Text.Quoted

/-!
# UTF-8

The UTF-8 form of a text, and the reading of bytes that need not be UTF-8. Reading cuts the bytes
into pieces, each one code point or one fault; a fault covers the longest start of a code point's
bytes that stands there, or one byte. Strict reading stops at the first fault, lenient reading
puts U+FFFD for each. A text with a surrogate has no UTF-8 form; only in the name of a file, where
any bytes may stand, a byte that is no UTF-8 has a surrogate of its own.
-/

namespace DhrWorkbench

abbrev Byte := Fin 256

def Byte.ofNat (n : Nat) : Byte := Fin.ofNat 256 n

namespace Utf8

/-- The bytes of one code point. -/
def bytesOf (c : CodePoint) : List Byte :=
  let n := c.val
  if n < 0x80 then [Byte.ofNat n]
  else if n < 0x800 then [Byte.ofNat (0xC0 + n / 0x40), Byte.ofNat (0x80 + n % 0x40)]
  else if n < 0x10000 then
    [Byte.ofNat (0xE0 + n / 0x1000), Byte.ofNat (0x80 + n / 0x40 % 0x40),
      Byte.ofNat (0x80 + n % 0x40)]
  else
    [Byte.ofNat (0xF0 + n / 0x40000), Byte.ofNat (0x80 + n / 0x1000 % 0x40),
      Byte.ofNat (0x80 + n / 0x40 % 0x40), Byte.ofNat (0x80 + n % 0x40)]

def isSurrogate (c : CodePoint) : Bool := 0xD800 ≤ c.val && c.val ≤ 0xDFFF

/-- The surrogates that stand for a single undecodable byte in the name of a file. -/
def isByteSurrogate (c : CodePoint) : Bool := 0xDC80 ≤ c.val && c.val ≤ 0xDCFF

/-- A run of code points without a UTF-8 form: where it starts, its first code point, its length. -/
structure Unencodable where
  position : Nat
  first : CodePoint
  count : Nat
  deriving DecidableEq

/-- The first run of surrogates, from its first member outside `allowed` on. -/
def unencodable? (allowed : CodePoint → Bool) (t : Text) : Option Unencodable :=
  go 0 t
where
  go (position : Nat) : Text → Option Unencodable
    | [] => none
    | c :: rest =>
      if isSurrogate c && !allowed c then
        some ⟨position, c, 1 + (rest.takeWhile isSurrogate).length⟩
      else go (position + 1) rest

def Unencodable.message (u : Unencodable) : Text :=
  let what : Text :=
    if u.count = 1 then
      "character '\\u" ++ Text.hex 4 u.first.val ++ "' in position " ++ Text.ofNat u.position
    else
      "characters in position " ++ Text.ofNat u.position ++ "-"
        ++ Text.ofNat (u.position + u.count - 1)
  "'utf-8' codec can't encode " ++ what ++ ": surrogates not allowed"

/-- The bytes of a text. -/
def encode (t : Text) : List Byte := t.flatMap bytesOf

/-- The bytes of a code point in the name of a file. -/
def nameBytesOf (c : CodePoint) : List Byte :=
  if isByteSurrogate c then [Byte.ofNat (c.val - 0xDC00)] else bytesOf c

/-- The bytes of the name of a file. -/
def nameBytes (t : Text) : List Byte := t.flatMap nameBytesOf

/-- Why bytes are not UTF-8. -/
inductive Cause
  | start
  | continuation
  | truncated
  deriving DecidableEq

/-- A code point with the number of its bytes, or a fault with its first byte and their number. -/
inductive Piece
  | point (c : CodePoint) (width : Nat)
  | fault (cause : Cause) (first : Byte) (width : Nat)

def isTail (b : Byte) : Bool := 0x80 ≤ b.val && b.val ≤ 0xBF

/-- Whether `b` can follow the first byte `a` of a code point of three or four bytes. -/
def canFollow (a b : Byte) : Bool :=
  isTail b && !(a.val = 0xE0 && b.val < 0xA0) && !(a.val = 0xED && 0xA0 ≤ b.val)
    && !(a.val = 0xF0 && b.val < 0x90) && !(a.val = 0xF4 && 0x90 ≤ b.val)

/-- The bytes cut into code points and faults. -/
def pieces : List Byte → List Piece
  | [] => []
  | a :: r =>
    if a.val < 0x80 then .point (CodePoint.ofNat a.val) 1 :: pieces r
    else if a.val < 0xC2 ∨ 0xF4 < a.val then .fault .start a 1 :: pieces r
    else if a.val < 0xE0 then
      match r with
      | [] => [.fault .truncated a 1]
      | b :: s =>
        if isTail b then
          .point (CodePoint.ofNat ((a.val - 0xC0) * 0x40 + (b.val - 0x80))) 2 :: pieces s
        else .fault .continuation a 1 :: pieces (b :: s)
    else if a.val < 0xF0 then
      match r with
      | [] => [.fault .truncated a 1]
      | b :: s =>
        if !canFollow a b then .fault .continuation a 1 :: pieces (b :: s)
        else match s with
          | [] => [.fault .truncated a 2]
          | c :: t =>
            if isTail c then
              .point (CodePoint.ofNat
                ((a.val - 0xE0) * 0x1000 + (b.val - 0x80) * 0x40 + (c.val - 0x80))) 3 :: pieces t
            else .fault .continuation a 2 :: pieces (c :: t)
    else
      match r with
      | [] => [.fault .truncated a 1]
      | b :: s =>
        if !canFollow a b then .fault .continuation a 1 :: pieces (b :: s)
        else match s with
          | [] => [.fault .truncated a 2]
          | c :: t =>
            if !isTail c then .fault .continuation a 2 :: pieces (c :: t)
            else match t with
              | [] => [.fault .truncated a 3]
              | d :: u =>
                if isTail d then
                  .point (CodePoint.ofNat ((a.val - 0xF0) * 0x40000 + (b.val - 0x80) * 0x1000
                    + (c.val - 0x80) * 0x40 + (d.val - 0x80))) 4 :: pieces u
                else .fault .continuation a 3 :: pieces (d :: u)

/-- The first fault of bytes that are not UTF-8. -/
structure Undecodable where
  cause : Cause
  first : Byte
  position : Nat
  width : Nat

def Undecodable.message (u : Undecodable) : Text :=
  let what : Text :=
    if u.width = 1 then
      "byte 0x" ++ Text.hex 2 u.first.val ++ " in position " ++ Text.ofNat u.position
    else
      "bytes in position " ++ Text.ofNat u.position ++ "-" ++ Text.ofNat (u.position + u.width - 1)
  let why : Text := match u.cause with
    | .start => "invalid start byte"
    | .continuation => "invalid continuation byte"
    | .truncated => "unexpected end of data"
  "'utf-8' codec can't decode " ++ what ++ ": " ++ why

/-- The text of pieces without a fault; `position` is the offset of the first byte. -/
def assemble (position : Nat) : List Piece → Except Undecodable Text
  | [] => .ok []
  | .point c width :: rest => (c :: ·) <$> assemble (position + width) rest
  | .fault cause first width :: _ => .error ⟨cause, first, position, width⟩

def decode (bytes : List Byte) : Except Undecodable Text := assemble 0 (pieces bytes)

/-- The text of any bytes, U+FFFD for each fault. -/
def decodeLossy (bytes : List Byte) : Text :=
  (pieces bytes).map fun
    | .point c _ => c
    | .fault .. => CodePoint.ofNat 0xFFFD

/-- The text of the name of a file: every byte of a fault has its surrogate. -/
def nameText : List Byte → List Piece → Text
  | _, [] => []
  | bytes, .point c width :: rest => c :: nameText (bytes.drop width) rest
  | bytes, .fault _ _ width :: rest =>
    (bytes.take width).map (fun b => CodePoint.ofNat (0xDC00 + b.val))
      ++ nameText (bytes.drop width) rest

/-- The name of a file that has some bytes. -/
def decodeName (bytes : List Byte) : Text := nameText bytes (pieces bytes)

/-- The name of a file as the system gives it back. -/
def normalName (t : Text) : Text := if t.any isByteSurrogate then decodeName (nameBytes t) else t

end Utf8

namespace Text

/-- Every line ending, also a lone carriage return, as a newline. -/
def unifyNewlines : Text → Text
  | [] => []
  | [c] => if c = '\r' then "\n" else [c]
  | c :: d :: rest =>
    if c = '\r' then
      if d = '\n' then '\n' :: unifyNewlines rest else '\n' :: unifyNewlines (d :: rest)
    else c :: unifyNewlines (d :: rest)

end Text

end DhrWorkbench
