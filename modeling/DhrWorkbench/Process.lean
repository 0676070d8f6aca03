import DhrWorkbench.Host

/-!
# Processes

A process is started in a folder from a program and its arguments. A program named without a slash
is looked for in the folders for programs. The folder is entered first, so its error comes first,
and a relative program is found from there. A program is a tool, or a file whose first line names
another program to run it.
-/

namespace DhrWorkbench

/-- What a process that has ended left behind. -/
structure Ran where
  stdout : List Byte
  stderr : List Byte
  status : Nat

namespace Process

/-- The program that the first line of a file names to run it, with one argument for it. -/
def interpreter? (bytes : List Byte) : Option (Text × List Text) :=
  match bytes with
  | a :: b :: rest =>
    if a.val = 35 ∧ b.val = 33 then
      let blank (c : CodePoint) : Bool := c = ' ' || c = '\t'
      let line := Text.trim blank
        ((Utf8.decodeName rest).takeWhile fun c : CodePoint => c ≠ '\n')
      let name := line.takeWhile (!blank ·)
      let argument := (line.dropWhile (!blank ·)).dropWhile blank
      if name.isEmpty then none
      else some (name, if argument.isEmpty then [] else [argument])
    else none
  | _ => none

/-- The most files that may name one another to run them. -/
def interpreterLimit : Nat := 5

/-- The tool that runs for a path, and the arguments it gets. -/
def image (h : Host) : (levels : Nat) → (path : Text) → (arguments : List Text) →
    Except OsFault (Tool × List Text)
  | 0, _, _ => .error .loop
  | levels + 1, path, arguments =>
    match h.stat path with
    | .error (.os error) => .error error.fault
    | .error _ => .error .missing
    | .ok .folder => .error .denied
    | .ok (.tool tool) => .ok (tool, arguments)
    | .ok (.file _ false) => .error .denied
    | .ok (.file bytes true) =>
      match interpreter? bytes with
      | none => .error .notExecutable
      | some (name, extra) => image h levels name (extra ++ path :: arguments)

/-- Whether an error means that the program may be elsewhere. -/
def isAbsence (fault : OsFault) : Bool := fault = .missing || fault = .notFolder

/-- Tries paths in turn. The last error that is no mere absence wins, then the last error. -/
def firstImage (h : Host) (arguments : List Text) (kept : Option OsFault) : (paths : List Text) →
    Except OsFault (Tool × List Text)
  | [] => .error (kept.getD .missing)
  | path :: rest =>
    match image h interpreterLimit path arguments with
    | .ok found => .ok found
    | .error fault =>
      let kept := if isAbsence fault then kept else some fault
      if rest.isEmpty then .error (kept.getD fault) else firstImage h arguments kept rest

/-- The paths at which a program may be. -/
def places (h : Host) (program : Text) : List Text :=
  if program.any fun c : CodePoint => c = '/' then [program]
  else h.programFolders.map fun folder => folder ++ "/" ++ program

/-- One line of what a tool prints of its start. -/
def echoLine (name value : Text) : Text := name ++ "=" ++ value ++ "\n"

/-- What a tool prints of where it was started and with what. -/
def echo (folder : Text) (arguments : List Text) : Text :=
  echoLine "cwd" folder ++ arguments.flatMap (echoLine "arg")

def run (tool : Tool) (folder : Text) (arguments : List Text) : Ran where
  stdout := (if tool.echo then Utf8.nameBytes (echo folder arguments) else []) ++ tool.stdout
  stderr := tool.stderr
  status := tool.status % 256

/-- Refuses texts that cannot be handed to a process. -/
def checkAll : List Text → Except PathFault Unit
  | [] => .ok ()
  | t :: rest => match PathFault.check t with
    | .error fault => .error fault
    | .ok () => checkAll rest

/-- The host as a process sees it that has entered a folder. -/
def enter (h : Host) (folder : Text) : Except PathFault Host :=
  match h.locate folder with
  | .error fault => .error fault
  | .ok (.free _ _) => .error (.os ⟨.missing, folder⟩)
  | .ok (.there location) =>
    if h.files.isFolder location then .ok { h with cwd := location }
    else .error (.os ⟨.notFolder, folder⟩)

/-- Starts a program in a folder and lets it run to its end. -/
def execute (h : Host) (program : Text) (arguments : List Text) (folder : Text) :
    Except PathFault Ran :=
  match checkAll (program :: arguments ++ [folder]) with
  | .error fault => .error fault
  | .ok () =>
    match enter h folder with
    | .error fault => .error fault
    | .ok inside =>
      match firstImage inside arguments none (places h program) with
      | .error fault => .error (.os ⟨fault, program⟩)
      | .ok (tool, arguments) => .ok (run tool inside.cwdText arguments)

end Process

end DhrWorkbench
