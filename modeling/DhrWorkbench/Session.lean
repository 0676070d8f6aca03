import DhrWorkbench.Checks
import DhrWorkbench.Hub
import DhrWorkbench.Settings.Handed
import DhrWorkbench.Toolchain.Search

/-!
# Sessions

A session holds all that lives while the workbench runs: the host, the settings managers, the
language hub, the execution desk, and what was heard so far. Settings are changed through
`Session.perform`, which tells the listeners of a manager about every change. An observer may
answer with actions of its own, which run to their end, with all they set off, before the next
listener is told. Listeners are those that were registered when the change was announced.
-/

namespace DhrWorkbench

/-- Something done to a settings manager. -/
inductive Action
  | loadAll (manager : Text) (writeBack : Bool)
  | saveAll (manager : Text) (onlyDirty : Bool)
  | set (manager : Text) (key value : Value) (scope : Option Settings.Scope)
  /-- Registers an observer; the actions are its answer to the first change it is told of. -/
  | listen (manager observer : Text) (answer : List Action)
  | unlisten (manager observer : Text) (answer : List Action)
  /-- Asks for the roots of the workspace. -/
  | roots (manager : Text)
  /-- Asks for the settings of the toolchain. -/
  | toolchain (manager : Text)
  /-- Asks for the settings of completion. -/
  | completion (manager : Text)

namespace Action

mutual

/-- The number of answers in an action. -/
def answers : Action → Nat
  | .listen _ _ answer => answersIn answer + 1
  | .unlisten _ _ answer => answersIn answer + 1
  | _ => 0

def answersIn : List Action → Nat
  | [] => 0
  | a :: rest => answers a + answersIn rest

end

/-- What an action came to. -/
inductive Outcome
  | done
  | changed (yes : Bool)
  | saved (scopes : List Settings.Scope)
  | roots (paths : List Text)
  | settings (value : Value)

end Action

/-- What an editor's run and check actions work with. -/
structure Execution where
  /-- The settings manager that is followed. -/
  manager : Text
  locator : Toolchain.Locator
  /-- The folder of the installation. -/
  install : Value
  /-- The file that is open, as the editor names it. -/
  document : Text
  /-- Whether saving succeeds; none when the editor does not save. -/
  saves : Option Bool
  /-- How the editor's terminal answers; none when there is no terminal. -/
  terminal : Option (Except Invocation.Trouble Value)
  /-- What the last launch gave: the terminal's answer, or a process. -/
  lastLaunch : Option (Value ⊕ Ran)
  checks : Checks
  /-- Whether the worker is kept from beginning further checks. -/
  held : Bool

/-- All that lives while the workbench runs. -/
structure Session where
  host : Host
  managers : List (Text × Settings.Manager)
  hub : Hub
  execution : Option Execution
  /-- The answers that observers have left, by their names. -/
  observers : List (Text × List (List Action))
  log : List Event
  /-- The values that were handed to listeners, by their numbers. -/
  handed : List Settings.Handed

namespace Session

/-- A session on a host, with nothing open. -/
def onHost (host : Host) : Session :=
  { host, managers := [], hub := ⟨[], [], [], [], none⟩, execution := none, observers := []
    log := [], handed := [] }

def manager? (s : Session) (name : Text) : Option Settings.Manager :=
  (s.managers.find? (·.1 = name)).map (·.2)

/-- Puts a manager in the place of that of its name. -/
def withManager (s : Session) (name : Text) (m : Settings.Manager) : Session :=
  { s with managers := s.managers.map fun entry => if entry.1 = name then (name, m) else entry }

/-- Adds a manager under a name. -/
def addManager (s : Session) (name : Text) (m : Settings.Manager) : Session :=
  { s with managers := s.managers ++ [(name, m)] }

def say (s : Session) (events : List Event) : Session := { s with log := s.log ++ events }

/-- The session with nothing said yet. -/
def quiet (s : Session) : Session := { s with log := [], handed := [] }

/-- What a value that was handed to listeners holds now. -/
def contentOf (s : Session) (handed : Nat) : Value :=
  match s.handed[handed]? with
  | some v => v.content
  | none => .null

/-- Puts a changed manager in its place; what was handed to listeners follows. -/
def moveOn (s : Session) (name : Text) (replaced : List Settings.Place) (m : Settings.Manager) :
    Session :=
  { s.withManager name m with handed := s.handed.map (·.follow name replaced m) }

/-- Makes an observer known, unless it is, with its answer to the first change it is told of. -/
def introduce (s : Session) (observer : Text) (answer : List Action) : Session :=
  if s.observers.any (·.1 = observer) then s
  else { s with observers := s.observers ++ [(observer, [answer])] }

/-- The next answer of an observer, and the session without it. -/
def takeAnswer (s : Session) (observer : Text) : List Action × Session :=
  match s.observers.find? (·.1 = observer) with
  | some (_, answer :: rest) =>
    (answer, { s with
      observers := s.observers.map fun entry =>
        if entry.1 = observer then (observer, rest) else entry })
  | _ => ([], s)

/-- The number of answers that are left, those inside others counted. -/
def answersLeft (s : Session) : Nat :=
  s.observers.foldl (fun n (_, answers) =>
    answers.foldl (fun n answer => n + Action.answersIn answer + 1) n) 0

/-- What the hub does when a setting changes: the providers follow the manager it is bound to. -/
def hubFollows (s : Session) (key : Text) : Except Settings.Failure Unit × Session :=
  match s.hub.bound.bind s.manager? with
  | some m =>
    if Settings.isUnder "completion" key then
      match m.completionSettings with
      | .error failure => (.error failure, s)
      | .ok settings =>
        let (hub, events) := s.hub.configure settings
        (.ok (), { s with hub }.say events)
    else (.ok (), s)
  | none => (.ok (), s)

/-- Whether a setting has to do with how the toolchain is found. -/
def concernsToolchain (key : Text) : Bool :=
  Settings.isUnder "dhrlang" key || Settings.isUnder "workspace_roots" key

/-- What the execution desk does when a setting changes: it forgets the toolchain. -/
def executionFollows (s : Session) (key : Text) : Session :=
  match s.execution with
  | some e =>
    if concernsToolchain key then
      let locator := e.locator.invalidate
      { s with execution := some { e with locator } }.say
        [.toolchain (.of locator.status none)]
    else s
  | none => s

/-- Performs actions in turn until one fails. -/
def performAllBy (perform : Action → Session → Except Settings.Failure Action.Outcome × Session) :
    List Action → Session → Except Settings.Failure Unit × Session
  | [], s => (.ok (), s)
  | a :: rest, s =>
    match perform a s with
    | (.error failure, s) => (.error failure, s)
    | (.ok _, s) => performAllBy perform rest s

/-- Tells one listener of a change. -/
def tellBy (perform : Action → Session → Except Settings.Failure Action.Outcome × Session)
    (key : Text) (handed : Nat) (l : Settings.Listener) (s : Session) :
    Except Settings.Failure Unit × Session :=
  match l with
  | .observer name =>
    let (answer, s) := (s.say [.observed name key handed]).takeAnswer name
    performAllBy perform answer s
  | .hub => s.hubFollows key
  | .execution => (.ok (), s.executionFollows key)

/-- Tells listeners of a change in turn, until one fails. -/
def tellAllBy (perform : Action → Session → Except Settings.Failure Action.Outcome × Session)
    (key : Text) (handed : Nat) :
    List Settings.Listener → Session → Except Settings.Failure Unit × Session
  | [], s => (.ok (), s)
  | l :: rest, s =>
    match tellBy perform key handed l s with
    | (.error failure, s) => (.error failure, s)
    | (.ok (), s) => tellAllBy perform key handed rest s

/-- The text of a key: without a scope, what counts as absent is no key. -/
def keyText? (key : Value) (scope : Option Settings.Scope) : Option Text :=
  match key, scope with
  | .str t, _ => some t
  | _, none => none
  | key, some _ => key.textIfAny?

/-- Writes a setting of a manager and tells the listeners if it changed. -/
def setBy (perform : Action → Session → Except Settings.Failure Action.Outcome × Session)
    (s : Session) (m : Settings.Manager) (name key : Text) (value : Value)
    (scope : Option Settings.Scope) : Except Settings.Failure Action.Outcome × Session :=
  match m.write key value scope with
  | .error failure => (.error failure, s)
  | .ok none => (.ok (.changed false), s)
  | .ok (some written) =>
    let s := s.moveOn name [Settings.Manager.placeOf key scope] written
    match written.settle key with
    | .error failure => (.error failure, s)
    | .ok settled =>
      let s := s.moveOn name (written.replacedBySettle key) settled
      let number := s.handed.length
      let s := { s with handed := s.handed ++ [.ofSet name key value scope] }
      match tellAllBy perform key number settled.listeners s with
      | (.error failure, s) => (.error failure, s)
      | (.ok (), s) => (.ok (.changed true), s)

/-- Performs an action on a manager, given how the answers of observers are performed. -/
def performOn (perform : Action → Session → Except Settings.Failure Action.Outcome × Session)
    (s : Session) (m : Settings.Manager) :
    Action → Except Settings.Failure Action.Outcome × Session
  | .loadAll name writeBack =>
    let (r, loaded, host) := m.loadAll s.host writeBack
    (r.map fun () => .done, { s.moveOn name (m.replacedByLoad s.host) loaded with host })
  | .saveAll name onlyDirty =>
    let (r, m, host) := m.saveAll s.host onlyDirty
    (r.map .saved, { s.withManager name m with host })
  | .set name key value scope =>
    match keyText? key scope with
    | none => (.error .keyKind, s)
    | some key => setBy perform s m name key value scope
  | .listen name observer answer =>
    (.ok .done, (s.introduce observer answer).withManager name (m.addListener (.observer observer)))
  | .unlisten name observer answer =>
    (.ok .done,
      (s.introduce observer answer).withManager name (m.removeListener (.observer observer)))
  | .roots _ => match m.workspaceRoots s.host with
    | .ok paths => (.ok (.roots paths), s)
    | .error fault => (.error (.path fault), s)
  | .toolchain _ => (m.toolchainSettings.map .settings, s)
  | .completion _ => (m.completionSettings.map .settings, s)

/-- The manager that an action is about. -/
def managerOf : Action → Text
  | .loadAll name _ => name
  | .saveAll name _ => name
  | .set name _ _ _ => name
  | .listen name _ _ => name
  | .unlisten name _ _ => name
  | .roots name => name
  | .toolchain name => name
  | .completion name => name

/-- Performs an action with answers nested at most `depth` deep. -/
def performTo : (depth : Nat) → Action → Session → Except Settings.Failure Action.Outcome × Session
  | depth, a, s =>
    match s.manager? (managerOf a) with
    | none => (.ok .done, s)
    | some m => match depth with
      | 0 => performOn (fun _ s => (.ok .done, s)) s m a
      | depth + 1 => performOn (performTo depth) s m a

/-- Performs an action. Answers nest no deeper than there are answers left. -/
def perform (a : Action) (s : Session) : Except Settings.Failure Action.Outcome × Session :=
  performTo (s.answersLeft + a.answers + 1) a s

end Session

end DhrWorkbench
