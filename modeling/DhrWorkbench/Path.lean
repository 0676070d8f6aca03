import DhrWorkbench.Text

/-!
# Paths

A path is where it starts and the names it goes through. Reading a path drops empty names and
single dots; two dots stay, since what they mean depends on the file system. Exactly two slashes
at the start are kept apart from one, three or more count as one.

Beside these stand the rules on the text of a path that know no file system: `Path.normalText`
folds two dots away, also after a path was put behind a folder (`Path.textFrom`), `Path.folderText`
and `Path.baseName` cut at the last slash, and there are two rules for the extension of a file's
name, `Path.extension` and `Path.extensionText`.
-/

namespace DhrWorkbench

/-- Where a path starts. -/
inductive Anchor
  | here
  | root
  | doubleRoot
  deriving DecidableEq

/-- A start and the names from there. -/
structure Path where
  anchor : Anchor
  parts : List Text
  deriving DecidableEq

namespace Path

/-- The number of slashes a text starts with. -/
def leadingSlashes (t : Text) : Nat := (t.takeWhile fun c : CodePoint => c = '/').length

def anchorOf (t : Text) : Anchor :=
  match leadingSlashes t with
  | 0 => .here
  | 2 => .doubleRoot
  | _ => .root

/-- The names of a text between slashes, without empty ones and single dots. -/
def namesOf (t : Text) : List Text :=
  (Text.splitOn '/' t).filter fun name => name ≠ [] ∧ name ≠ Text.ofString "."

def ofText (t : Text) : Path := ⟨anchorOf t, namesOf t⟩

instance : Coe Text Path := ⟨ofText⟩

def isAbsolute (p : Path) : Bool := p.anchor ≠ .here

def anchorText : Anchor → Text
  | .here => ""
  | .root => "/"
  | .doubleRoot => "//"

/-- The text of a path; a single dot when it has no names and no start. -/
def text (p : Path) : Text :=
  let t := anchorText p.anchor ++ Text.join "/" p.parts
  if t.isEmpty then "." else t

/-- The second path seen from the first; an absolute path stays what it is. -/
def append (p q : Path) : Path :=
  if q.isAbsolute then q else ⟨p.anchor, p.parts ++ q.parts⟩

instance : HDiv Path Path Path := ⟨append⟩

/-- The last name, empty when there is none. -/
def name (p : Path) : Text := p.parts.getLastD []

def parent (p : Path) : Path := ⟨p.anchor, p.parts.dropLast⟩

/-- The last name from its last dot on, unless that dot is its first or last code point. -/
def extension (p : Path) : Text :=
  let stem := Text.throughLast '.' p.name
  let tail := Text.afterLast '.' p.name
  if 2 ≤ stem.length ∧ tail ≠ [] then '.' :: tail else []

/-- The extension by the text of a path: what follows the last slash, from its last dot on, unless
only dots stand before that dot. -/
def extensionText (t : Text) : Text :=
  let base := Text.afterLast '/' t
  let before := (Text.throughLast '.' base).dropLast
  if before.any fun c : CodePoint => c ≠ '.' then '.' :: Text.afterLast '.' base else []

/-- What follows the last slash. -/
def baseName (t : Text) : Text := Text.afterLast '/' t

/-- What stands before the last slash, without the slashes at its end unless there is nothing
else. -/
def folderText (t : Text) : Text :=
  let head := Text.throughLast '/' t
  if head.all fun c : CodePoint => c = '/' then head
  else (head.reverse.dropWhile fun c : CodePoint => c = '/').reverse

/-- What two dots make of the names before them, which are given in reverse. At a root two dots
lead back to the root. -/
def stepUp (rooted : Bool) : (done : List Text) → List Text
  | [] => if rooted then [] else [".."]
  | last :: before =>
    if last = Text.ofString ".." then Text.ofString ".." :: last :: before else before

/-- Folds two dots with the name before them; `done` holds the names so far in reverse. -/
def foldDots (rooted : Bool) : (done : List Text) → List Text → List Text
  | done, [] => done.reverse
  | done, name :: rest =>
    if name = Text.ofString ".." then foldDots rooted (stepUp rooted done) rest
    else foldDots rooted (name :: done) rest

/-- A path without two dots, except at the start of a relative one. -/
def normal (p : Path) : Path := ⟨p.anchor, foldDots p.isAbsolute [] p.parts⟩

/-- The text of a path, folded. -/
def normalText (t : Text) : Text := (normal (ofText t)).text

/-- The text of a path that starts in a folder; an absolute path starts at the root. -/
def joinText (folder t : Text) : Text :=
  if t.head? = some (CodePoint.ofChar '/') then t
  else if folder = [] ∨ folder.getLast? = some (CodePoint.ofChar '/') then folder ++ t
  else folder ++ "/" ++ t

/-- The text of a path seen from a folder, folded. -/
def textFrom (folder t : Text) : Text := normalText (joinText folder t)

end Path

end DhrWorkbench
