import DhrWorkbench.Catalog.Shipped
import DhrWorkbench.CommandLine.Arguments
import DhrWorkbench.Help
import DhrWorkbench.Session.Desk
import DhrWorkbench.Workspace

/-!
# The command line

Runs or checks one file without an editor, or prints the help page. Settings are read from the
project and from the workbench; what the command line says about the toolchain wins over them and
is written nowhere. A run ends with the status of the program; a check ends with success exactly
when nothing was reported as an error.
-/

namespace DhrWorkbench

namespace CommandLine

def programName : Text := "pydhr"

def versionText : Text := "0.3.0"

def usageLines : List Text := [
  "usage: pydhr [-h] [--check] [--help-doc] [--project PROJECT] [--jar JAR]",
  "             [--java JAVA] [--no-auto-detect] [--verbose] [--version]",
  "             [file]"]

def helpBody : List Text := [
  "",
  "Run or check DhrLang (.dhr) programs.",
  "",
  "positional arguments:",
  "  file               the .dhr file to run or check",
  "",
  "options:",
  "  -h, --help         show this help message and exit",
  "  --check            compile-check the file instead of running it",
  "  --help-doc         print the DhrLang help guide and exit",
  "  --project PROJECT  project root used for settings and jar discovery",
  "                     (default: cwd)",
  "  --jar JAR          explicit path to DhrLang.jar",
  "  --java JAVA        java executable to launch the jar with",
  "  --no-auto-detect   only use the --jar / configured jar path",
  "  --verbose          print discovery and command details",
  "  --version          show program's version number and exit"]

def helpLines : List Text := usageLines ++ helpBody

/-- Lines, each with its end. -/
def linesText (lines : List Text) : Text := lines.flatMap fun line => line ++ "\n"

/-- Why a command breaks off. -/
inductive Failure
  | path (fault : PathFault)
  | settings (failure : Settings.Failure)
  | desk (failure : DeskFailure)

/-- How a command ends. -/
inductive Ending
  /-- It did its work and gives a status. -/
  | returned (status : Nat)
  /-- Its arguments were answered by themselves. -/
  | exited (status : Nat)
  | broken (failure : Failure)

/-- What a command leaves behind. -/
structure Report where
  stdout : Text
  stderr : Text
  ending : Ending
  /-- The program that was run. -/
  child : Option Ran
  host : Host

/-- The name of the manager of a command. -/
def managerName : Text := "main"

/-- The settings of a command, before what it says itself, and the host as reading them leaves
it. -/
def loadFiles (h : Host) (a : Arguments) : Except Failure Settings.Manager × Host :=
  match h.existingFolder (a.project.getD []) with
  | .error fault => (.error (.path fault), h)
  | .ok folder =>
    match h.ideFolder with
    | .error fault => (.error (.path fault), h)
    | .ok ide =>
      let root := match folder with
        | some path => path.text
        | none => h.cwdText
      match Settings.Manager.make h root ide Settings.Paths.projectName Settings.Paths.ideName
          true with
      | .error fault => (.error (.path fault), h)
      | .ok m => match m.loadAll h false with
        | (.error failure, _, h) => (.error (.settings failure), h)
        | (.ok (), m, h) => (.ok m, h)

/-- Writes a setting of the toolchain. -/
def override (m : Settings.Manager) (key : Text) (value : Value) :
    Except Failure Settings.Manager :=
  match m.set key value none with
  | (.ok _, m) => .ok m
  | (.error failure, _) => .error (.settings failure)

/-- A value that is there and not empty. -/
def given? : Option Text → Option Text
  | some [] => none
  | t => t

/-- The path of a jar as the command line gives it. -/
def jarPath (h : Host) (t : Text) : Except Failure Text :=
  match h.expandHome (Path.ofText t) with
  | .error fault => .error (.path fault)
  | .ok path => match h.resolve path with
    | .error fault => .error (.path fault)
    | .ok path => .ok path.text

/-- Settings with what the command line says about the toolchain. -/
def applyOverrides (h : Host) (a : Arguments) (m : Settings.Manager) :
    Except Failure Settings.Manager := do
  let m ← match given? a.jar with
    | some jar => do override m "dhrlang.jar_path" (.str (← jarPath h jar))
    | none => pure m
  let m ← match given? a.java with
    | some java => override m "dhrlang.java_path" (.str java)
    | none => pure m
  if a.noAutoDetect then override m "dhrlang.auto_detect_jar" (.bool false) else pure m

/-- What is printed about settings files that could not be read. -/
def loadComplaints (m : Settings.Manager) : List Text :=
  m.loadErrors.map fun (scope, reason) =>
    "[DhrLang] Ignoring unreadable " ++ scope.name ++ " settings: " ++ reason

/-- A text with a line end, unless it has one. -/
def ended (t : Text) : Text :=
  if t.getLast? = some (CodePoint.ofChar '\n') then t else t ++ "\n"

/-- What an event prints: on the standard output, and as an error. -/
def printed (verbose : Bool) : Event → Text × Text
  | .notification level t =>
    if level = ActionError.level then ([], t ++ "\n") else (t ++ "\n", [])
  | .output title t => (title ++ "\n" ++ ended t, [])
  | .status t => ([], if verbose then t ++ "\n" else [])
  | _ => ([], [])

/-- Whether an event tells of an error. -/
def isError : Event → Bool
  | .notification level _ => level = ActionError.level
  | _ => false

/-- The session of a command on a file. -/
def sessionFor (h : Host) (install : Text) (m : Settings.Manager) (file : Text) : Session :=
  ((Session.onHost h).addManager managerName m).openDesk
    (Desk.opened managerName (.str install) file)

/-- How a command ends that ran a file: the status of the program, and what was printed of the
search for the toolchain. -/
def runEnding (verbose launched : Bool) (s : Session) : Ending × List Text × Option Ran :=
  if !launched then (.returned 1, [], none)
  else match s.execution with
    | none => (.returned 0, [], none)
    | some e =>
      let lines := if verbose then e.locator.lines else []
      match e.lastLaunch with
      | some (.inr ran) => (.returned ran.status, lines, some ran)
      | _ => (.returned 0, lines, none)

/-- Checks or runs the file in a session. -/
def act (a : Arguments) (s : Session) : Session × Ending × List Text × Option Ran :=
  if a.check then
    match s.check with
    | (.error failure, s) => (s, .broken (.desk failure), [], none)
    | (.ok submitted, s) =>
      let s := if submitted then (s.waitForChecks false).2 else s
      (s, .returned (if s.log.any isError then 1 else 0), [], none)
  else match s.run with
    | (.error failure, s) => (s, .broken (.desk failure), [], none)
    | (.ok launched, s) => (s, runEnding a.verbose launched s)

/-- Works on a file with the settings that were read. -/
def workOn (h : Host) (install : Text) (a : Arguments) (file : Text) (complaints : List Text)
    (m : Settings.Manager) : Report :=
  let (s, ending, lines, child) := act a (sessionFor h install m file)
  let prints := s.log.map (printed a.verbose)
  { stdout := prints.flatMap (·.1)
    stderr := linesText complaints ++ prints.flatMap (·.2) ++ linesText lines
    ending, child
    host := s.closeDesk.host }

/-- A command that only prints. -/
def printing (h : Host) (stdout stderr : Text) (ending : Ending) : Report :=
  ⟨stdout, stderr, ending, none, h⟩

/-- The answer to arguments that are not taken as they are. -/
def stopped (h : Host) : Stop → Report
  | .help => printing h (linesText helpLines) [] (.exited 0)
  | .version => printing h (programName ++ " " ++ versionText ++ "\n") [] (.exited 0)
  | .refused complaint => printing h []
      (linesText usageLines ++ programName ++ ": error: " ++ complaint ++ "\n") (.exited 2)

def noFile : Text := "[DhrLang] No DhrLang file given. Pass a .dhr file, or --help-doc.\n"

/-- Runs a command on a host. -/
def run (h : Host) (install : Text) (argv : List Text) : Report :=
  match Arguments.parse argv with
  | .error stop => stopped h stop
  | .ok a =>
    if a.helpDoc then printing h (Catalog.shipped.helpPage ++ "\n") [] (.returned 0)
    else match given? a.file with
      | none => printing h [] noFile (.returned 2)
      | some file =>
        match loadFiles h a with
        | (.error failure, h) => printing h [] [] (.broken failure)
        | (.ok m, h) =>
          let complaints := loadComplaints m
          match applyOverrides h a m with
          | .error failure => printing h [] (linesText complaints) (.broken failure)
          | .ok m => workOn h install a file complaints m

end CommandLine

end DhrWorkbench
