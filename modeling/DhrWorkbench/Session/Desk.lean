import DhrWorkbench.Session

/-!
# The execution desk

The actions of an editor on the open file: to run it, and to check it in the background. An action
goes through stages, and the first that fails is reported to the user and ends it: there must be a
document, it must be a file of the language, it is saved, the toolchain is found, the file is
launched. Checks wait for one worker; what they leave is handled when the editor asks for it.
-/

namespace DhrWorkbench

/-- Why an action of the desk breaks off without a word to the user. -/
inductive DeskFailure
  | search (failure : Toolchain.Failure)
  | trouble (trouble : Invocation.Trouble)
  /-- The desk takes no further checks. -/
  | closed

def DeskFailure.closedMessage : Text := "cannot schedule new futures after shutdown"

namespace Desk

/-- The manager that a desk follows. -/
def manager? (s : Session) (e : Execution) : Option Settings.Manager := s.manager? e.manager

/-- What a call of the locator finds around it in a session. -/
def around (s : Session) (e : Execution) : Toolchain.Surroundings :=
  { config := match manager? s e with
      | some m => match m.toolchainSettings with
        | .ok settings => .ok (.ofSettings settings)
        | .error failure => .error (.settings failure)
      | none => .ok (.ofSettings .null)
    roots := match manager? s e with
      | some m => match m.workspaceRoots s.host with
        | .ok roots => .ok (.list (roots.map .str))
        | .error fault => .error (.path fault)
      | none => .ok (.list [])
    host := s.host
    install := e.install
    probe := fun path => .ok (Toolchain.fileAt s.host path) }

/-- How the locator of the desk stands in a session. -/
def stand (s : Session) : Toolchain.Stand Execution where
  locator e := e.locator
  place locator e := { e with locator }
  around e := around s e
  beforeProbe _ e := e

/-- A desk that follows a manager. -/
def opened (manager : Text) (install : Value) (document : Text) : Execution :=
  { manager, locator := .fresh, install, document
    saves := none, terminal := none, lastLaunch := none
    checks := .none, held := false }

def outputTitle : Text := "=== DhrLang Compilation Output ==="

end Desk

namespace Session

/-- Opens the desk, which listens to its manager. -/
def openDesk (s : Session) (e : Execution) : Session :=
  let s := match s.manager? e.manager with
    | some m => s.withManager e.manager (m.addListener .execution)
    | none => s
  { s with execution := some e }

def withDesk (s : Session) (e : Execution) : Session := { s with execution := some e }

/-- Asks the locator for the toolchain. -/
def resolve (s : Session) (e : Execution) :
    Except Toolchain.Failure (Option Toolchain) × Execution :=
  (Desk.stand s).resolve e

/-- Shows the state of the toolchain. -/
def announce (s : Session) (e : Execution) (found : Option Toolchain) : Session :=
  s.say [.toolchain (.of e.locator.status found)]

/-- Reports a problem to the user. -/
def report (s : Session) (error : ActionError) : Session :=
  s.say [.notification ActionError.level error.userMessage,
    .status ("[DhrLang] " ++ error.userMessage)]

/-- A setting of the manager that the desk follows, on unless it says otherwise. -/
def deskSetting (s : Session) (e : Execution) (key : Text) : Bool :=
  match Desk.manager? s e with
  | some m => (m.get key (.bool true)).truthy
  | none => true

/-- Makes sure that there is a file of the language to work on, and that it is saved. -/
def prepare (s : Session) (e : Execution) (action : Text) : Except ActionError Text × Session :=
  let path := Text.strip e.document
  if path.isEmpty then (.error .noDocument, s)
  else if !Language.isDhrPath path then (.error (.wrongExtension action), s)
  else match e.saves with
    | some saved =>
      if s.deskSetting e "run.save_before_run" then
        let s := s.say [.saving path]
        if saved then (.ok (s.host.absoluteText path), s)
        else (.error (.notSaved (Path.baseName path)), s)
      else (.ok (s.host.absoluteText path), s)
    | none => (.ok (s.host.absoluteText path), s)

/-- Hands a file to the terminal, or starts it as a process when there is no terminal. -/
def launch (s : Session) (e : Execution) (t : Toolchain) (target : Text) :
    Except Invocation.LaunchFailure (Value ⊕ Ran) × Session :=
  match e.terminal with
  | some answer =>
    ((Invocation.terminalAnswer answer).map .inl,
      s.say [.launching (.terminal (Invocation.terminalRequest s.host t target))])
  | none =>
    ((Invocation.launchProcess s.host t target).map .inr,
      s.say [.launching (.process (Invocation.command t .run target)
        (Invocation.runFolder s.host target))])

/-- The stages of a run after the document is ready. -/
def runTarget (s : Session) (e : Execution) (target : Text) : Except DeskFailure Bool × Session :=
  match s.resolve e with
  | (.error failure, e) => (.error (.search failure), s.withDesk e)
  | (.ok found, e) =>
    let s := (s.withDesk e).announce e found
    match found with
    | none => (.ok false, s.report .unresolved)
    | some t =>
      match s.launch e t target with
      | (.error (.trouble trouble), s) => (.error (.trouble trouble), s)
      | (.error (.action error), s) => (.ok false, s.report error)
      | (.ok launched, s) =>
        let s := s.withDesk { e with lastLaunch := some launched }
        (.ok true, s.say [
          .runStarted target (s.deskSetting e "run.focus_output_on_run"),
          .status ("Running " ++ Path.baseName target)])

/-- Runs the open file. Tells whether it was launched. -/
def run (s : Session) : Except DeskFailure Bool × Session :=
  match s.execution with
  | none => (.ok false, s)
  | some e =>
    match s.prepare e "run" with
    | (.error error, s) => (.ok false, s.report error)
    | (.ok target, s) => s.runTarget e target

/-- What the worker makes of one check. -/
def deliver (s : Session) (e : Execution) (target : Text) : Delivery × Execution :=
  match s.resolve e with
  | (.error failure, e) => (.broken failure.message, e)
  | (.ok none, e) => (.ran none, e)
  | (.ok (some t), e) => (.ran (some (t, Invocation.check s.host t target)), e)

/-- Lets the worker do at most `n` checks. -/
def work (s : Session) : Nat → Execution → Execution
  | 0, e => e
  | n + 1, e =>
    let e := { e with checks := e.checks.begin }
    match e.checks.running? with
    | none => e
    | some (i, target) =>
      let (delivery, e) := s.deliver e target
      s.work n { e with checks := (e.checks.finish delivery).tell i }

/-- Lets the worker do all checks that wait, unless it is held. -/
def workOff (s : Session) : Session :=
  match s.execution with
  | none => s
  | some e => if e.held then s else s.withDesk (s.work (e.checks.all.countP (·.isWaiting)) e)

/-- Submits a check of the open file. Tells whether one was submitted. -/
def check (s : Session) : Except DeskFailure Bool × Session :=
  match s.execution with
  | none => (.ok false, s)
  | some e =>
    match s.prepare e "compile" with
    | (.error error, s) => (.ok false, s.report error)
    | (.ok target, s) =>
      match e.checks.submit? target with
      | none => (.error .closed, s)
      | some checks =>
        let s := (s.withDesk { e with checks := checks.count.watch }).say
          [.status ("Checking " ++ Path.baseName target)]
        (.ok true, s.workOff)

/-- What the user sees of a finished check. -/
def showResult (s : Session) (e : Execution) (r : Invocation.Result) : Session :=
  let s := s.say (r.lines.map .status ++ [.checked r])
  match r.outcome with
  | .success =>
    let s := s.say [.notification "info" "✅ DhrLang file compiled successfully!"]
    if Invocation.hasOutput r.stdout && s.deskSetting e "run.show_check_output" then
      s.say [.output Desk.outputTitle r.stdout]
    else s
  | .toolError => s.report (.compilation r.stderr)
  | .invocationFailure => s.report (.checkFailed r.message)

/-- Handles what one check left. -/
def handle (s : Session) (e : Execution) : Delivery → Session
  | .cancelled => s
  | .broken reason => s.report (.checkFailed reason)
  | .ran none => (s.announce e none).report .unresolved
  | .ran (some (t, r)) => (s.announce e (some t)).showResult e r

/-- Handles at most `n` deliveries. -/
def handleUpTo : Nat → Session → Session
  | 0, s => s
  | n + 1, s =>
    match s.execution with
    | none => s
    | some e =>
      match e.checks.take? with
      | none => s
      | some (delivery, checks) =>
        let e := { e with checks := checks.settle }
        handleUpTo n ((s.withDesk e).handle e delivery)

/-- Handles all deliveries. -/
def processResults (s : Session) : Session :=
  match s.execution with
  | none => s
  | some e => handleUpTo e.checks.deliveries.length s

def pendingChecks (s : Session) : Nat :=
  match s.execution with
  | some e => e.checks.pending
  | none => 0

/-- Waits for all checks and handles them. Tells whether none is left; with no time to wait, none
is handled. -/
def waitForChecks (s : Session) (noTime : Bool) : Bool × Session :=
  if s.pendingChecks = 0 then (true, s)
  else if noTime then (false, s)
  else
    let s := s.processResults
    (s.pendingChecks = 0, s)

/-- Looks for the toolchain and shows its state. -/
def refresh (s : Session) : Except DeskFailure (Option Toolchain) × Session :=
  match s.execution with
  | none => (.ok none, s)
  | some e =>
    match s.resolve e with
    | (.error failure, e) => (.error (.search failure), s.withDesk e)
    | (.ok found, e) => (.ok found, (s.withDesk e).announce e found)

/-- Keeps the worker from beginning further checks. -/
def hold (s : Session) : Except DeskFailure Unit × Session :=
  match s.execution with
  | none => (.ok (), s)
  | some e =>
    if e.checks.closed then (.error .closed, s) else (.ok (), s.withDesk { e with held := true })

/-- Lets the worker go on. -/
def release (s : Session) : Session :=
  match s.execution with
  | none => s
  | some e => (s.withDesk { e with held := false }).workOff

/-- Closes the desk: it follows no settings and takes no checks, and those that wait are
cancelled. -/
def closeDesk (s : Session) : Session :=
  match s.execution with
  | none => s
  | some e =>
    let s := match s.manager? e.manager with
      | some m => s.withManager e.manager (m.removeListener .execution)
      | none => s
    s.withDesk { e with checks := e.checks.cancelAll.close }

end Session

end DhrWorkbench
