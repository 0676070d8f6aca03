import DhrWorkbench.Settings.Defaults
import DhrWorkbench.Settings.Store
import DhrWorkbench.Text.Blank
import DhrWorkbench.Text.Lower

/-!
# The settings manager

Settings live in two stores, one of the project and one of the workbench. The first part of a key
tells its store; a key of neither is looked up in both and written to the project. The section
`dhrlang` of the project is kept normal: a program to start, a path as text and a truth value. A
file that could not be loaded is never written.
-/

namespace DhrWorkbench

namespace Settings

/-- Whose settings. -/
inductive Scope
  | project
  | ide
  deriving DecidableEq

namespace Scope

def name : Scope → Text
  | .project => "project"
  | .ide => "ide"

/-- The sections of a scope. -/
def sections : Scope → List Text
  | .project => ["project_name", "workspace_roots", "dhrlang"]
  | .ide => ["run", "completion"]

end Scope

/-- Whether a key names a section or something in it. -/
def isUnder (section_ key : Text) : Bool := key = section_ || (section_ ++ ".").isPrefixOf key

/-- The scope that the first part of a key tells. -/
def scopeOf? (key : Text) : Option Scope :=
  if Scope.project.sections.any (isUnder · key) then some .project
  else if Scope.ide.sections.any (isUnder · key) then some .ide
  else none

/-- Where settings are kept. -/
structure Paths where
  projectRoot : Path
  ideFolder : Path
  projectFile : Path
  ideFile : Path

namespace Paths

def projectName : Text := ".pydhr/project.json"

def ideName : Text := "ide-settings.json"

/-- A folder by its text, with the home directory filled in and seen from the root. -/
def folder (h : Host) (t : Text) : Except PathFault Path :=
  match h.expandHome (Path.ofText t) with
  | .error fault => .error fault
  | .ok path => h.resolve path

/-- The paths of settings for two folders and the names of the files in them. -/
def make (h : Host) (projectRoot ideFolder projectName ideName : Text) : Except PathFault Paths :=
  match folder h projectRoot with
  | .error fault => .error fault
  | .ok root =>
    match folder h ideFolder with
    | .error fault => .error fault
    | .ok ide => .ok ⟨root, ide, root / Path.ofText projectName, ide / Path.ofText ideName⟩

end Paths

/-- Who is told of changes: an observer by its name, the language hub, or the execution desk. -/
inductive Listener
  | observer (name : Text)
  | hub
  | execution
  deriving DecidableEq

/-- Two stores, and those who are told of changes in the order in which they asked. -/
structure Manager where
  paths : Paths
  project : Store
  ide : Store
  listeners : List Listener

/-- The texts that switch off finding the toolchain by itself. -/
def offWords : List Text := ["0", "false", "no", "off"]

/-- Whether a value of the setting switches finding the toolchain on. -/
def isOn : Value → Bool
  | .str t => !Text.isAmong (Text.lower (Text.strip t)) offWords
  | v => v.truthy

/-- The program that runs the toolchain, by the value of the setting. -/
def javaProgram (v : Value) : Text :=
  let t := Text.strip (v.textOr "java")
  if t.isEmpty then "java" else t

/-- The normal form of the section on the toolchain. Further fields are kept. -/
def normalSection (current : Option Value) : Fields :=
  let fields := Fields.complete (Fields.ofSection current) defaultToolchain
  let field (name : Text) : Value := (Fields.get? name fields).getD .null
  Fields.insert "auto_detect_jar" (.bool (isOn (field "auto_detect_jar")))
    (Fields.insert "jar_path" (.str ((field "jar_path").textOr ""))
      (Fields.insert "java_path" (.str (javaProgram (field "java_path"))) fields))

/-- A value for the roots of the workspace, which must be a list. -/
def normalRoots : Option Value → Value
  | some (.list items) => .list items
  | _ => .list []

def isList : Option Value → Bool
  | some (.list _) => true
  | _ => false

/-- A project store with its toolchain section and its workspace roots in normal form. It is dirty
if that changed anything. -/
def Store.normalise (s : Store) : Store :=
  let current := Fields.get? "dhrlang" s.data
  let section_ := Value.object (normalSection current)
  let data := Fields.insert "dhrlang" section_ s.data
  let roots := Fields.get? "workspace_roots" data
  let changed := !(section_.same true (current.getD .null)) || !isList roots
  { s with
    data := if isList roots then data else Fields.insert "workspace_roots" (normalRoots roots) data
    dirty := s.dirty || changed }

namespace Manager

/-- A manager with default settings. -/
def make (h : Host) (projectRoot ideFolder projectName ideName : Text) (projectPersistent : Bool) :
    Except PathFault Manager :=
  (Paths.make h projectRoot ideFolder projectName ideName).map fun paths =>
    { paths
      project := .ofDefaults paths.projectFile defaultProject projectPersistent
      ide := .ofDefaults paths.ideFile defaultIde true
      listeners := [] }

def store (m : Manager) : Scope → Store
  | .project => m.project
  | .ide => m.ide

def withStore (m : Manager) (scope : Scope) (s : Store) : Manager :=
  match scope with
  | .project => { m with project := s }
  | .ide => { m with ide := s }

/-- The section on the toolchain as it stands. -/
def currentToolchain (m : Manager) : Value := (Fields.get? "dhrlang" m.project.data).getD .null

/-- Puts the project in normal form, unless its section on the toolchain nests too deep. -/
def normalise (m : Manager) : Except Failure Manager :=
  if m.currentToolchain.isTooDeep then .error .tooDeep
  else .ok { m with project := m.project.normalise }

/-- Whether a store is to be saved: never after a failed load. -/
def wantsSave (onlyDirty : Bool) (s : Store) : Bool :=
  !s.isBarred && (!onlyDirty || s.dirty)

/-- Saves the stores of some scopes, those that are to be saved. Tells which were saved. -/
def saveScopes (onlyDirty : Bool) : List Scope → Manager → Host →
    Except Failure (List Scope) × Manager × Host
  | [], m, h => (.ok [], m, h)
  | scope :: rest, m, h =>
    if wantsSave onlyDirty (m.store scope) then
      match (m.store scope).save h with
      | (.error failure, s, h) => (.error failure, m.withStore scope s, h)
      | (.ok (), s, h) =>
        match saveScopes onlyDirty rest (m.withStore scope s) h with
        | (.ok saved, m, h) => (.ok (scope :: saved), m, h)
        | (.error failure, m, h) => (.error failure, m, h)
    else saveScopes onlyDirty rest m h

def saveAll (m : Manager) (h : Host) (onlyDirty : Bool) :
    Except Failure (List Scope) × Manager × Host :=
  saveScopes onlyDirty [.project, .ide] m h

/-- Loads both stores. -/
def loadStores (m : Manager) (h : Host) : Except Failure Unit × Manager :=
  match m.project.load h with
  | (.error failure, project) => (.error failure, { m with project })
  | (.ok (), project) =>
    match m.ide.load h with
    | (.error failure, ide) => (.error failure, { m with project, ide })
    | (.ok (), ide) => match normalise { m with project, ide } with
      | .error failure => (.error failure, { m with project, ide })
      | .ok m => (.ok (), m)

/-- Loads both stores and, with `writeBack`, saves what is dirty then. -/
def loadAll (m : Manager) (h : Host) (writeBack : Bool) : Except Failure Unit × Manager × Host :=
  match m.loadStores h with
  | (.error failure, m) => (.error failure, m, h)
  | (.ok (), m) =>
    if writeBack then
      match m.saveAll h true with
      | (.ok _, m, h) => (.ok (), m, h)
      | (.error failure, m, h) => (.error failure, m, h)
    else (.ok (), m, h)

/-- The scopes whose file could not be loaded, with the reasons. -/
def loadErrors (m : Manager) : List (Scope × Text) :=
  [Scope.project, Scope.ide].filterMap fun scope =>
    if (m.store scope).isBarred then (m.store scope).lastError.map fun reason => (scope, reason)
    else none

/-- The value of a key in its store; a key of no scope is looked up in the project first. -/
def get (m : Manager) (key : Text) (default : Value) : Value :=
  match scopeOf? key with
  | some scope => (m.store scope).get key default
  | none =>
    match m.project.get key .null with
    | .null => m.ide.get key default
    | value => value

/-- The scope that a key is written to, unless one is asked for. -/
def targetScope (key : Text) (asked : Option Scope) : Scope :=
  (asked <|> scopeOf? key).getD .project

/-- Writes the value of a key, unless it is the same already. -/
def write (m : Manager) (key : Text) (value : Value) (asked : Option Scope) :
    Except Failure (Option Manager) :=
  let scope := targetScope key asked
  match (m.store scope).set key value with
  | .error failure => .error failure
  | .ok (false, _) => .ok none
  | .ok (true, s) => .ok (some (m.withStore scope s))

/-- Normalises the section on the toolchain after a key was written, when the key is in it. -/
def settle (m : Manager) (key : Text) : Except Failure Manager :=
  if isUnder "dhrlang" key then m.normalise else .ok m

/-- Sets the value of a key: writes it and settles. Tells whether the value changed. Where settling
fails the value is written all the same. Telling the listeners is left to the caller. -/
def set (m : Manager) (key : Text) (value : Value) (asked : Option Scope) :
    Except Failure Bool × Manager :=
  match m.write key value asked with
  | .error failure => (.error failure, m)
  | .ok none => (.ok false, m)
  | .ok (some written) => match written.settle key with
    | .error failure => (.error failure, written)
    | .ok settled => (.ok true, settled)

def addListener (m : Manager) (l : Listener) : Manager :=
  if l ∈ m.listeners then m else { m with listeners := m.listeners ++ [l] }

def removeListener (m : Manager) (l : Listener) : Manager :=
  { m with listeners := m.listeners.erase l }

/-- A value that counts as present, an object without fields otherwise. -/
def orEmpty (v : Value) : Value := if v.truthy then v else .object []

/-- A copy of a value, which may not nest too deep. -/
def copied (v : Value) : Except Failure Value := if v.isTooDeep then .error .tooDeep else .ok v

/-- The settings of the toolchain. -/
def toolchainSettings (m : Manager) : Except Failure Value :=
  copied (orEmpty (m.project.get "dhrlang" (.object [])))

/-- The settings of completion. -/
def completionSettings (m : Manager) : Except Failure Value :=
  copied (orEmpty (m.ide.get "completion" (.object [])))

/-- The configured roots of the workspace that are not blank, seen from the project's root. -/
def configuredRoots (m : Manager) (h : Host) : List Value → Except PathFault (List Text)
  | [] => .ok []
  | item :: rest =>
    let t := Text.strip (item.textOr "")
    if t.isEmpty then configuredRoots m h rest
    else match h.expandHome (Path.ofText t) with
      | .error fault => .error fault
      | .ok path =>
        (configuredRoots m h rest).map ((m.paths.projectRoot / path).text :: ·)

/-- The roots of the workspace: those configured, or else the project's root. -/
def workspaceRoots (m : Manager) (h : Host) : Except PathFault (List Text) :=
  let items := match m.project.get "workspace_roots" (.list []) with
    | .list items => items
    | _ => []
  (configuredRoots m h items).map fun roots =>
    if roots.isEmpty then [m.paths.projectRoot.text] else roots

end Manager

end Settings

end DhrWorkbench
