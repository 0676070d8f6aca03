import DhrWorkbench.Catalog
import DhrWorkbench.Value.Integer

/-!
# Hover

The documentation of a construct by its exact label, and the word at an offset of a text. A label
of several words that covers the offset and stands as a whole word wins, the first such label of
the catalog; otherwise the word is what lies between the nearest word breaks on the two sides.
-/

namespace DhrWorkbench

/-- The documentation of a construct. -/
structure HoverCard where
  label : Text
  markdown : Text
  category : Category

namespace Catalog

def hover (c : Catalog) (word : Text) : Option HoverCard :=
  (c.lookup word).map fun e =>
    let body := if e.documentation.isEmpty then e.description else e.documentation
    ⟨e.label, "**" ++ e.label ++ "**\n\n" ++ body, e.category⟩

end Catalog

namespace Word

/-- The code points that end a word. -/
def breaks : Text := " \t\r\n()[]\x7b\x7d;,.:+-*/%=<>!&|\"'`"

def isBreak (c : CodePoint) : Bool := Text.has breaks c

/-- Whether the offset is at an end of the text or next to a word break on the given side. -/
def opensAt (t : Text) (start : Nat) : Bool :=
  match t[start - 1]? with
  | some c => start = 0 || isBreak c
  | none => start = 0

def closesAt (t : Text) (stop : Nat) : Bool :=
  match t[stop]? with
  | some c => isBreak c
  | none => stop = t.length

/-- Whether what stands between two offsets is not part of a longer word. -/
def isWhole (t : Text) (start stop : Nat) : Bool := opensAt t start && closesAt t stop

/-- Whether an occurrence of `label` from `start` on is a whole word that covers or touches the
offset. The next occurrence may overlap the last one; none behind the offset is looked at. -/
def coversFrom (t label : Text) (offset start : Nat) : Bool :=
  match h : Text.find? label start t with
  | none => false
  | some i =>
    if offset < i then false
    else if offset ≤ i + label.length && isWhole t i (i + label.length) then true
    else coversFrom t label offset (i + 1)
termination_by offset + 1 - start
decreasing_by
  have hle := Text.le_of_find? h
  omega

/-- Whether `label` stands somewhere as a whole word that covers or touches the offset. -/
def covers (t label : Text) (offset : Nat) : Bool :=
  coversFrom t label offset (offset - label.length)

/-- The stretch without word breaks around an offset. -/
def around (t : Text) (offset : Nat) : Text :=
  ((t.take offset).reverse.takeWhile (!isBreak ·)).reverse
    ++ (t.drop offset).takeWhile (!isBreak ·)

end Word

/-- The word at an offset, which counts as the nearest offset inside the text. -/
def Catalog.wordAt (c : Catalog) (t : Text) (offset : Int) : Text :=
  let offset := min offset.toNat t.length
  match c.multiWordLabels.find? fun label => Word.covers t label offset with
  | some label => label
  | none => Word.around t offset

/-- The word at an offset that is given as a value. In an empty text it is never looked at. -/
def Catalog.wordAtValue (c : Catalog) (t : Text) (offset : Value) : Except IntegerFault Text :=
  if t.isEmpty then .ok [] else offset.toInt.map (c.wordAt t)

end DhrWorkbench
