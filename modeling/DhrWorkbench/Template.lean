import DhrWorkbench.Text.Digit
import DhrWorkbench.Value.Integer

/-!
# Templates

A template is a text with numbered slots that an editor steps through: `$n`, `$` with a number in
braces, or the same with a default after a colon, which runs to the closing brace. Slots are found
from the left and do not overlap; a `$` that starts none of the forms is plain text. Slots that
share a number are linked: each shows the same text, the first non-empty default among them unless
a value is given.
-/

namespace DhrWorkbench

/-- A slot of a template: its number, its default, and where it starts and stops in the text. -/
structure Slot where
  index : Nat
  default : Text
  start : Nat
  stop : Nat
  deriving DecidableEq

/-- A text with its slots, in the order in which they stand. -/
structure Template where
  text : Text
  slots : List Slot

namespace Template

/-- A slot as it is spelled: its digits, its default and its length. -/
structure Spelling where
  digits : Text
  default : Text
  length : Nat

/-- The slot in braces that a text starts with, given what follows the opening brace. -/
def braced? (afterBrace : Text) : Option Spelling :=
  let digits := afterBrace.takeWhile Text.isDigit
  let tail := afterBrace.dropWhile Text.isDigit
  if digits.isEmpty then none
  else match tail with
    | [] => none
    | c :: rest =>
      if c = '\x7d' then some ⟨digits, [], digits.length + 3⟩
      else if c = ':' then
        let default := rest.takeWhile fun d : CodePoint => d ≠ '\x7d'
        if default.length < rest.length then
          some ⟨digits, default, digits.length + default.length + 4⟩
        else none
      else none

/-- The slot without braces that a text starts with, given what follows the dollar sign. -/
def bare? (afterDollar : Text) : Option Spelling :=
  let digits := afterDollar.takeWhile Text.isDigit
  if digits.isEmpty then none else some ⟨digits, [], digits.length + 1⟩

/-- The slot that a text starts with. -/
def slotAt? : Text → Option Spelling
  | [] => none
  | c :: rest =>
    if c ≠ '$' then none
    else match rest with
      | [] => none
      | d :: more => if d = '\x7b' then braced? more else bare? (d :: more)

/-- The slots of the rest of a text that starts at offset `position`; the first `skip` code points
belong to a slot already found. -/
def scan (position : Nat) : (skip : Nat) → Text → Except IntegerFault (List Slot)
  | _, [] => .ok []
  | skip + 1, _ :: rest => scan (position + 1) skip rest
  | 0, c :: rest =>
    match slotAt? (c :: rest) with
    | none => scan (position + 1) 0 rest
    | some found =>
      match Text.natOfDigits found.digits with
      | .error fault => .error fault
      | .ok index =>
        (scan (position + 1) (found.length - 1) rest).map
          (⟨index, found.default, position, position + found.length⟩ :: ·)

def parse (t : Text) : Except IntegerFault Template := (scan 0 0 t).map (⟨t, ·⟩)

/-- The numbers of the slots, each once, in the order of their first slots. -/
def slotIndexes (t : Template) : List Nat :=
  t.slots.foldl (fun seen s => if s.index ∈ seen then seen else seen ++ [s.index]) []

/-- The slots of one number. -/
def slotsOf (t : Template) (index : Nat) : List Slot := t.slots.filter (·.index = index)

/-- The numbers that several slots share, with those slots. -/
def linked (t : Template) : List (Nat × List Slot) :=
  (t.slotIndexes.map fun i => (i, t.slotsOf i)).filter fun (_, group) => 1 < group.length

/-- The first non-empty default of a slot number, nothing when there is none. -/
def defaultFor (t : Template) (index : Nat) : Text :=
  match t.slots.find? fun s => s.index = index && !s.default.isEmpty with
  | some s => s.default
  | none => []

/-- The first non-empty default of the slots whose number is the same as a value. -/
def defaultForValue (t : Template) (index : Value) : Text :=
  match t.slots.find? fun s => (Value.int s.index).sameAtom false index && !s.default.isEmpty with
  | some s => s.default
  | none => []

/-- The values of slot numbers that are given as values, the later of two winning. -/
def valuesOf : List (Value × Value) → Except IntegerFault (Nat → Option Text)
  | [] => .ok fun _ => none
  | (index, value) :: rest =>
    match index.toInt with
    | .error fault => .error fault
    | .ok n => (valuesOf rest).map fun later i =>
        match later i with
        | some t => some t
        | none => if n = i then some value.text else none

/-- The text from `cursor` on with a text put in the place of each slot. -/
def fillFrom (text : Text) (fill : Nat → Text) : (cursor : Nat) → List Slot → Text
  | cursor, [] => text.drop cursor
  | cursor, s :: rest =>
    (text.drop cursor).take (s.start - cursor) ++ fill s.index ++ fillFrom text fill s.stop rest

/-- The template with each slot replaced by its value, or its default where no value is given. -/
def plainText (t : Template) (values : Nat → Option Text) : Text :=
  fillFrom t.text (fun i => (values i).getD (t.defaultFor i)) 0 t.slots

/-- The template with its defaults. -/
def plain (t : Template) : Text := t.plainText fun _ => none

/-- The different non-empty defaults of some slots, sorted. -/
def defaultsOf (group : List Slot) : List Text :=
  ((group.map (·.default)).filter fun d => !d.isEmpty).eraseDups.mergeSort Text.atMost

/-- The first slot number whose slots disagree on their default, with the defaults. -/
def conflict? (t : Template) : Option (Nat × List Text) :=
  (t.linked.map fun (i, group) => (i, defaultsOf group)).find? fun (_, ds) => 1 < ds.length

end Template

end DhrWorkbench
