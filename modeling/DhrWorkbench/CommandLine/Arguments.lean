import DhrWorkbench.Text.Digit
import DhrWorkbench.Text.Quoted

/-!
# Command-line arguments

A command line names one file and any number of flags. A long flag may be cut short as long as it
stays the only one of its start, and may carry its value after an equals sign; a double dash in
that place stands for no value. All words are told apart first (`Word.ofText`), so an ambiguous
flag is refused before anything else; then they are taken from left to right (`Arguments.take`).
A double dash ends the flags.
-/

namespace DhrWorkbench

namespace CommandLine

/-- What can be asked for beside the file. -/
inductive Flag
  | help
  | check
  | helpDoc
  | project
  | jar
  | java
  | noAutoDetect
  | verbose
  | version
  deriving DecidableEq

namespace Flag

def all : List Flag :=
  [.help, .check, .helpDoc, .project, .jar, .java, .noAutoDetect, .verbose, .version]

/-- How a flag is spelled. -/
def names : Flag → List Text
  | .help => ["-h", "--help"]
  | .check => ["--check"]
  | .helpDoc => ["--help-doc"]
  | .project => ["--project"]
  | .jar => ["--jar"]
  | .java => ["--java"]
  | .noAutoDetect => ["--no-auto-detect"]
  | .verbose => ["--verbose"]
  | .version => ["--version"]

/-- Whether a flag has a value. -/
def hasValue : Flag → Bool
  | .project => true
  | .jar => true
  | .java => true
  | _ => false

/-- All spellings with their flags. -/
def spellings : List (Text × Flag) := all.flatMap fun f => f.names.map fun name => (name, f)

def ofName? (name : Text) : Option Flag := (spellings.find? (·.1 = name)).map (·.2)

/-- The flag as a complaint names it. -/
def title (f : Flag) : Text := Text.join "/" f.names

end Flag

/-- Why the arguments are not taken as they are: help or the version is asked for, or they are
refused. -/
inductive Stop
  | help
  | version
  | refused (complaint : Text)

/-- What a word of the command line is. -/
inductive Word
  | plain (t : Text)
  /-- The double dash. -/
  | separator
  /-- A flag, and the value that the word itself carries. -/
  | flag (f : Flag) (value : Option Text)
  /-- Flags of one letter in one word, the first with its rest. -/
  | letters (f : Flag) (rest : Text)
  /-- A flag that there is not. -/
  | unknown (t : Text)

namespace Word

def dash : CodePoint := '-'

/-- A minus sign with digits, which may be broken by one point. -/
def isNegativeNumber (t : Text) : Bool :=
  let t := if t.getLast? = some (CodePoint.ofChar '\n') then t.dropLast else t
  match t with
  | [] => false
  | c :: rest =>
    let tail := rest.dropWhile Text.isDigit
    c = dash && match tail with
      | [] => !rest.isEmpty
      | d :: fraction => d = '.' && !fraction.isEmpty && fraction.all Text.isDigit

/-- A word cut at its first equals sign. -/
def splitValue (t : Text) : Text × Option Text :=
  let isEquals (c : CodePoint) : Bool := c = '='
  match t.dropWhile (!isEquals ·) with
  | [] => (t, none)
  | _ :: value => (t.takeWhile (!isEquals ·), some value)

/-- The spellings that a long flag may have been cut short from. -/
def candidates (start : Text) : List (Text × Flag) :=
  Flag.spellings.filter fun (name, _) => start.isPrefixOf name

def ambiguous (t : Text) (names : List Text) : Stop :=
  .refused ("ambiguous option: " ++ t ++ " could match " ++ Text.join ", " names)

/-- A word that starts with a dash and names no flag. -/
def other (t : Text) : Word :=
  if isNegativeNumber t || t.any (fun c : CodePoint => c = ' ') then .plain t else .unknown t

/-- A word that starts with two dashes and is no flag as it stands. -/
def ofLong (t : Text) : Except Stop Word :=
  let (start, value) := splitValue t
  match candidates start with
  | [] => .ok (other t)
  | [(_, f)] => .ok (.flag f value)
  | found => .error (ambiguous t (found.map (·.1)))

/-- A word that starts with one dash and is no flag as it stands. -/
def ofShort (t : Text) : Word :=
  match Flag.ofName? (t.take 2) with
  | some f => .letters f (t.drop 2)
  | none => other t

/-- A flag whose word carries a value after an equals sign. After a flag of one letter, the value
is more letters. -/
def ofValued (name value : Text) (f : Flag) : Word :=
  if name.length = 2 ∧ value ≠ [] then .letters f value else .flag f (some value)

/-- What a word is, before any double dash. -/
def ofText (t : Text) : Except Stop Word :=
  match t with
  | [] => .ok (.plain t)
  | [_] => .ok (.plain t)
  | a :: b :: _ =>
    if a ≠ dash then .ok (.plain t)
    else match Flag.ofName? t with
      | some f => .ok (.flag f none)
      | none =>
        match splitValue t with
        | (name, some value) => match Flag.ofName? name with
          | some f => .ok (ofValued name value f)
          | none => if b = dash then ofLong t else .ok (ofShort t)
        | (_, none) => if b = dash then ofLong t else .ok (ofShort t)

/-- What the words of a command line are. -/
def ofTexts : List Text → Except Stop (List Word)
  | [] => .ok []
  | t :: rest =>
    if t = Text.ofString "--" then .ok (.separator :: rest.map .plain)
    else match ofText t with
      | .error stop => .error stop
      | .ok word => (ofTexts rest).map (word :: ·)

/-- The word as it was written, where it is left over. -/
def leftover : Word → List Text
  | .plain t => [t]
  | .separator => ["--"]
  | .unknown t => [t]
  | _ => []

end Word

/-- What was asked for. -/
structure Arguments where
  file : Option Text := none
  check : Bool := false
  helpDoc : Bool := false
  project : Option Text := none
  jar : Option Text := none
  java : Option Text := none
  noAutoDetect : Bool := false
  verbose : Bool := false

namespace Arguments

/-- The arguments with a flag that has no value. -/
def raise (a : Arguments) : Flag → Except Stop Arguments
  | .help => .error .help
  | .version => .error .version
  | .check => .ok { a with check := true }
  | .helpDoc => .ok { a with helpDoc := true }
  | .noAutoDetect => .ok { a with noAutoDetect := true }
  | .verbose => .ok { a with verbose := true }
  | _ => .ok a

/-- The arguments with a flag that has a value. -/
def assign (a : Arguments) (value : Option Text) : Flag → Arguments
  | .project => { a with project := value }
  | .jar => { a with jar := value }
  | .java => { a with java := value }
  | _ => a

/-- The value that a word carries after an equals sign. -/
def carried (value : Text) : Option Text :=
  if value = Text.ofString "--" then none else some value

def complaint (f : Flag) (what : Text) : Stop := .refused ("argument " ++ f.title ++ ": " ++ what)

def ignoredValue (f : Flag) (value : Text) : Stop :=
  complaint f ("ignored explicit argument " ++ Text.quoted value)

/-- Flags of one letter: `f`, then those in the rest of the word, each of which there must be.
None has a value. -/
def raiseLetters (a : Arguments) (f : Flag) : (rest : Text) → Except Stop Arguments
  | [] => a.raise f
  | c :: rest =>
    match Flag.ofName? [Word.dash, c] with
    | none => .error (ignoredValue f (c :: rest))
    | some next => raiseLetters a next rest

/-- Takes words from left to right; `taken` tells whether there is a file already, and `extras`
holds what was left over. -/
def take (a : Arguments) (taken : Bool) (extras : List Text) :
    List Word → Except Stop (Arguments × List Text)
  | [] => .ok (a, extras)
  | .flag f value :: rest =>
    if f.hasValue then
      match value, rest with
      | some value, rest => take (a.assign (carried value) f) taken extras rest
      | none, .plain value :: rest => take (a.assign (some value) f) taken extras rest
      | none, _ => .error (complaint f "expected one argument")
    else match value with
      | some value => .error (ignoredValue f value)
      | none => match a.raise f with
        | .error stop => .error stop
        | .ok a => take a taken extras rest
  | .letters f letters :: rest =>
    match a.raiseLetters f letters with
    | .error stop => .error stop
    | .ok a => take a taken extras rest
  | .unknown t :: rest => take a taken (extras ++ [t]) rest
  | .plain t :: rest =>
    if taken then take a taken (extras ++ [t]) rest
    else match rest with
      | .separator :: rest => take { a with file := some t } true extras rest
      | rest => take { a with file := some t } true extras rest
  | .separator :: rest =>
    if taken then take a taken (extras ++ [Text.ofString "--"]) rest else take a taken extras rest

/-- The arguments of a command line. -/
def parse (argv : List Text) : Except Stop Arguments :=
  match Word.ofTexts argv with
  | .error stop => .error stop
  | .ok words => match take {} false [] words with
    | .error stop => .error stop
    | .ok (a, []) => .ok a
    | .ok (_, extras) => .error (.refused ("unrecognized arguments: " ++ Text.join " " extras))

end Arguments

end CommandLine

end DhrWorkbench
