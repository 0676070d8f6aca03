import DhrWorkbench.ActionError
import DhrWorkbench.Process
import DhrWorkbench.Shell
import DhrWorkbench.Text.Blank
import DhrWorkbench.Toolchain
import DhrWorkbench.Value

/-!
# Invoking the toolchain

The toolchain checks a file or runs it, in the file's folder. A check captures what the tool
prints, and only what it prints as errors decides the outcome; its exit status is recorded. A run
is handed to a terminal, if there is one, or started as a process.
-/

namespace DhrWorkbench

namespace Invocation

inductive Mode
  | run
  | check
  deriving DecidableEq

def Mode.ofName? (name : Value) : Option Mode :=
  match name with
  | .str t =>
    if t = Text.ofString "run" then some .run
    else if t = Text.ofString "check" then some .check
    else none
  | _ => none

/-- The complaint about a mode that there is not. -/
def unknownMode (name : Value) : Text := "Unknown invocation mode: " ++ name.quoted

/-- The program of a toolchain. -/
def program (t : Toolchain) : Text := if t.java.isEmpty then "java" else t.java

/-- The arguments that make the toolchain work on a file. -/
def arguments (t : Toolchain) (mode : Mode) (target : Text) : List Text :=
  let jar : List Text := ["-jar", t.artifact]
  let flag : List Text := match mode with
    | .check => ["--check"]
    | .run => []
  jar ++ flag ++ [target]

def command (t : Toolchain) (mode : Mode) (target : Text) : List Text :=
  program t :: arguments t mode target

/-- The folder in which the toolchain is started for a file. -/
def runFolder (h : Host) (target : Text) : Text :=
  let folder := Path.folderText (h.absoluteText target)
  if folder.isEmpty then h.cwdText else folder

/-- What kind of trouble a called surface reports: of the system, with a value, or at run time. -/
inductive TroubleKind
  | system
  | value
  | runtime
  deriving DecidableEq

/-- Trouble in something that was called. -/
structure Trouble where
  kind : TroubleKind
  message : Text

/-- A path that cannot be used, as trouble in a call. -/
def Trouble.ofPathFault (fault : PathFault) : Trouble :=
  match fault with
  | .os error => ⟨.system, error.message⟩
  | .noHome => ⟨.runtime, fault.message⟩
  | _ => ⟨.value, fault.message⟩

/-- What a checking process answered: its outputs and its exit status, as texts. -/
structure Reply where
  stdout : Text
  stderr : Text
  status : Text

/-- The text that a process printed. -/
def outputText (bytes : List Byte) : Text := Text.unifyNewlines (Utf8.decodeLossy bytes)

def Reply.ofRan (ran : Ran) : Reply :=
  ⟨outputText ran.stdout, outputText ran.stderr, Text.ofNat ran.status⟩

/-- Starts a command as a process. -/
def start (h : Host) (t : Toolchain) (mode : Mode) (target : Text) : Except Trouble Ran :=
  (Process.execute h (program t) (arguments t mode target) (runFolder h target)).mapError
    Trouble.ofPathFault

/-- A checking process that really runs. -/
def checkProcess (h : Host) (t : Toolchain) (target : Text) : Except Trouble Reply :=
  (start h t .check target).map Reply.ofRan

inductive Outcome
  | success
  | toolError
  | invocationFailure
  deriving DecidableEq

def Outcome.name : Outcome → Text
  | .success => "success"
  | .toolError => "tool_error"
  | .invocationFailure => "invocation_failure"

/-- What a check came to. -/
structure Result where
  outcome : Outcome
  stdout : Text
  stderr : Text
  message : Text
  target : Text
  command : List Text
  lines : List Text

/-- Whether there is anything to show. -/
def hasOutput (stdout : Text) : Bool := !(Text.strip stdout).isEmpty

/-- The result of a check, given what its process answered. -/
def resultOf (h : Host) (t : Toolchain) (target : Text) (reply : Except Trouble Reply) : Result :=
  let words := command t .check target
  let lines : List Text :=
    ["[DhrLang] cwd: " ++ runFolder h target, "[DhrLang] cmd: " ++ Shell.command words]
  match reply with
  | .error trouble =>
    { outcome := .invocationFailure
      stdout := []
      stderr := []
      message := "Could not start the DhrLang toolchain: " ++ trouble.message
      target
      command := words
      lines := lines ++ ["[DhrLang][stderr] " ++ trouble.message] }
  | .ok reply =>
    let lines := lines ++ ["[DhrLang] exit " ++ reply.status]
    if reply.stderr.isEmpty then
      { outcome := .success
        stdout := reply.stdout
        stderr := []
        message := "DhrLang file compiled successfully!"
        target
        command := words
        lines }
    else
      { outcome := .toolError
        stdout := reply.stdout
        stderr := reply.stderr
        message := "Compilation Error: " ++ reply.stderr
        target
        command := words
        lines }

/-- Checks a file by a given process. Trouble at run time is not the toolchain's and stays what
it is. -/
def checkWith (h : Host) (t : Toolchain) (target : Text) (reply : Except Trouble Reply) :
    Except Trouble Result :=
  match reply with
  | .error ⟨.runtime, message⟩ => .error ⟨.runtime, message⟩
  | reply => .ok (resultOf h t target reply)

/-- Checks a file. -/
def check (h : Host) (t : Toolchain) (target : Text) : Result :=
  resultOf h t target (checkProcess h t target)

/-- How the checking process is called, beside its command. -/
def checkOptions (h : Host) (target : Text) : Fields := [
  ("capture_output", .bool true), ("text", .bool true), ("encoding", .str "utf-8"),
  ("errors", .str "replace"), ("cwd", .str (runFolder h target)), ("check", .bool false)]

/-- What a terminal is asked to run: the commands, the folder and a label. -/
structure TerminalRequest where
  block : Text
  folder : Text
  label : Text

/-- The last name of a path, the path itself when that is empty. -/
def label (target : Text) : Text :=
  let name := Path.baseName target
  if name.isEmpty then target else name

def terminalRequest (h : Host) (t : Toolchain) (target : Text) : TerminalRequest :=
  let folder := runFolder h target
  ⟨Shell.block (command t .run target) folder, folder, label target⟩

/-- What is asked for to run a file: a terminal, or a process of a command in a folder. -/
inductive Launch
  | terminal (request : TerminalRequest)
  | process (words : List Text) (folder : Text)

/-- Why a run is not launched: a problem for the user, or trouble that is none. -/
inductive LaunchFailure
  | action (error : ActionError)
  | trouble (trouble : Trouble)

/-- The answer of a terminal; trouble of the system or at run time is a problem for the user. -/
def terminalAnswer {α : Type} : Except Trouble α → Except LaunchFailure α
  | .ok answer => .ok answer
  | .error ⟨.value, message⟩ => .error (.trouble ⟨.value, message⟩)
  | .error trouble => .error (.action (.noTerminal trouble.message))

/-- The answer of a launched process; trouble of the system or with a value is a problem for the
user. -/
def processAnswer {α : Type} : Except Trouble α → Except LaunchFailure α
  | .ok answer => .ok answer
  | .error ⟨.runtime, message⟩ => .error (.trouble ⟨.runtime, message⟩)
  | .error trouble => .error (.action (.notStarted trouble.message))

/-- Starts a file as a process. -/
def launchProcess (h : Host) (t : Toolchain) (target : Text) : Except LaunchFailure Ran :=
  processAnswer (start h t .run target)

end Invocation

end DhrWorkbench
