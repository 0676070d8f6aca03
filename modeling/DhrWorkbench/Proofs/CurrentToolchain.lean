import DhrWorkbench.Proofs.DottedKeys
import DhrWorkbench.Proofs.Provenance
import DhrWorkbench.Proofs.SavedSettings
import DhrWorkbench.Proofs.ToolchainSection
import DhrWorkbench.Session.Desk

/-!
# The toolchain of the present settings

On a bench, settings are set while calls look for the toolchain. A set compares, writes, settles and
tells the listeners one by one, and between any two of these steps other sets and calls may go on;
what a call reads of the toolchain's settings while they are being written may be anything.

A set that has to do with the toolchain is awaited from the moment in which it is about to write
until the desk is told of it. Being awaited ends with an invalidation, or else with a section that
nests too deep to be settled, and that takes another such set to be mended (`isPending_after`). So
where nothing is pending, nothing was since the last invalidation (`calm_since`), and the settings
are those that the search read whose outcome is remembered (`cached_matches_settings`). Where the
section nests too deep, what is remembered may be of older settings.
-/

namespace DhrWorkbench

open Settings (Manager Listener Scope)

namespace Settings

theorem Store.get_of_part {name : Text} (hname : name ≠ []) (hparts : Fields.parts name = [name])
    (s : Store) (d : Value) : s.get name d = (Fields.get? name s.data).getD d := by
  rw [Store.get, Fields.lookup, if_neg (by simpa using hname), hparts, Fields.follow_cons]
  rcases Fields.get? name s.data with _ | v <;> rfl

namespace Manager

/-- Two managers say the same of the toolchain and of the roots of the workspace. -/
structure SameToolchain (m m' : Manager) : Prop where
  paths : m'.paths = m.paths
  toolchain : Fields.get? "dhrlang" m'.project.data = Fields.get? "dhrlang" m.project.data
  roots : Fields.get? "workspace_roots" m'.project.data
    = Fields.get? "workspace_roots" m.project.data

namespace SameToolchain

variable {a b c : Manager}

theorem refl (m : Manager) : m.SameToolchain m := ⟨rfl, rfl, rfl⟩

theorem trans (hab : a.SameToolchain b) (hbc : b.SameToolchain c) : a.SameToolchain c :=
  ⟨hbc.paths.trans hab.paths, hbc.toolchain.trans hab.toolchain, hbc.roots.trans hab.roots⟩

theorem toolchainSettings_eq (h : a.SameToolchain b) :
    b.toolchainSettings = a.toolchainSettings := by
  simp only [toolchainSettings, Store.get_of_part (by decide : Text.ofString "dhrlang" ≠ [])
    (by decide), h.toolchain]

theorem configuredRoots_eq (h : a.SameToolchain b) (host : Host) (files : FileSystem) :
    ∀ items, b.configuredRoots (host.withFiles files) items = a.configuredRoots host items
  | [] => rfl
  | item :: rest => by
    rw [configuredRoots, configuredRoots, configuredRoots_eq h host files rest, h.paths]
    rfl

theorem workspaceRoots_eq (h : a.SameToolchain b) (host : Host) (files : FileSystem) :
    b.workspaceRoots (host.withFiles files) = a.workspaceRoots host := by
  simp only [workspaceRoots, h.configuredRoots_eq, h.paths, h.roots,
    Store.get_of_part (by decide : Text.ofString "workspace_roots" ≠ []) (by decide)]

end SameToolchain

theorem sameToolchain_addListener (m : Manager) (l : Listener) :
    m.SameToolchain (m.addListener l) := by
  unfold addListener
  split_ifs <;> exact ⟨rfl, rfl, rfl⟩

end Manager

/-! ## Setting in steps -/

/-- How far a set is. -/
inductive SetPhase
  | comparing
  /-- The value is to be written. -/
  | assigning
  /-- The value is written. -/
  | settling
  | telling (waiting : List Listener)
  | finished (changed : Except Failure Bool)

/-- A set under way. -/
structure SetCall where
  key : Text
  value : Value
  asked : Option Scope
  phase : SetPhase

namespace SetCall

def target (c : SetCall) : Scope := Manager.targetScope c.key c.asked

/-- One step of a set. What listeners do when they are told is up to them. -/
def advance (m : Manager) (c : SetCall) : Manager × SetCall :=
  match c.phase with
  | .comparing =>
    if ((m.store c.target).get c.key .null).same false c.value then
      (m, { c with phase := .finished (.ok false) })
    else (m, { c with phase := .assigning })
  | .assigning => match Fields.assign (m.store c.target).data c.key c.value with
    | none => (m, { c with phase := .finished (.error .emptyKey) })
    | some data =>
      (m.withStore c.target { m.store c.target with data, dirty := true },
        { c with phase := .settling })
  | .settling => match m.settle c.key with
    | .error failure => (m, { c with phase := .finished (.error failure) })
    | .ok settled => (settled, { c with phase := .telling settled.listeners })
  | .telling (_ :: waiting) => (m, { c with phase := .telling waiting })
  | .telling [] => (m, { c with phase := .finished (.ok true) })
  | .finished _ => (m, c)

/-- Whether a set is at changing what the settings hold. -/
def isWriting (c : SetCall) : Bool :=
  match c.phase with
  | .assigning => true
  | .settling => true
  | _ => false

/-- The listener that the next step of a set tells. -/
def tells? (c : SetCall) : Option Listener :=
  match c.phase with
  | .telling (l :: _) => some l
  | _ => none

/-- With nothing else going on, a set does what the manager does, and then tells the listeners. -/
theorem advance_alone (m : Manager) (key : Text) (value : Value) (asked : Option Scope) :
    let first := advance m ⟨key, value, asked, .comparing⟩
    let second := advance first.1 first.2
    let third := advance second.1 second.2
    third = ((m.set key value asked).2, ⟨key, value, asked, match (m.set key value asked).1 with
      | .error failure => .finished (.error failure)
      | .ok false => .finished (.ok false)
      | .ok true => .telling (m.set key value asked).2.listeners⟩) := by
  unfold Manager.set Manager.write Store.set
  by_cases hsame : ((m.store (Manager.targetScope key asked)).get key .null).same false value
  · simp [advance, target, hsame]
  have hfirst : advance m ⟨key, value, asked, .comparing⟩
      = (m, ⟨key, value, asked, .assigning⟩) := by
    simp [advance, target, hsame]
  rcases hassign : Fields.assign (m.store (Manager.targetScope key asked)).data key value
    with _ | data
  · have hsecond : advance m ⟨key, value, asked, .assigning⟩
        = (m, ⟨key, value, asked, .finished (.error .emptyKey)⟩) := by
      simp only [advance, target, hassign]
    simp only [hfirst, hsecond, hsame, hassign, if_false, Bool.false_eq_true]
    rfl
  · have hsecond : advance m ⟨key, value, asked, .assigning⟩
        = (m.withStore (Manager.targetScope key asked)
          { m.store (Manager.targetScope key asked) with data, dirty := true },
          ⟨key, value, asked, .settling⟩) := by
      simp only [advance, target, hassign]
    simp only [hfirst, hsecond, hsame, hassign, if_false, Bool.false_eq_true]
    rw [advance]
    dsimp only
    rcases (m.withStore (Manager.targetScope key asked)
      { m.store (Manager.targetScope key asked) with data, dirty := true }).settle key
      with failure | settled <;> rfl

end SetCall

end Settings

/-! ## The bench -/

/-- What a call sees of settings that are being written. -/
structure TornView where
  config : Except Toolchain.Failure Toolchain.Config
  roots : Except Toolchain.Failure Value

/-- A manager with the sets under way on it, and a desk that follows it with the calls under way
for the toolchain. -/
structure Bench where
  manager : Manager
  host : Host
  install : Value
  sets : List Settings.SetCall
  crowd : Toolchain.Crowd

inductive Happening
  /-- A call for the toolchain begins. -/
  | ask
  /-- A call takes a step. The torn view counts only while settings are being written. -/
  | step (caller : ℕ) (torn : TornView)
  /-- A set begins. -/
  | set (key : Text) (value : Value) (asked : Option Scope)
  /-- A set takes a step. -/
  | proceed (i : ℕ)
  | listen (observer : Text)
  | unlisten (observer : Text)
  | invalidate
  /-- Others change the files. -/
  | edit (files : FileSystem)

namespace Bench

/-- A bench with a desk that has not been asked. -/
def opened (m : Manager) (host : Host) (install : Value) : Bench := ⟨m, host, install, [], .empty⟩

def desk (b : Bench) : Execution :=
  { Desk.opened "settings" b.install [] with locator := b.crowd.locator }

/-- The session of which the bench is part. -/
def session (b : Bench) : Session :=
  { Session.onHost b.host with
    managers := [("settings", b.manager)]
    execution := some b.desk }

/-- What a call finds around it when no settings are being written. -/
def around (b : Bench) : Toolchain.Surroundings := Desk.around b.session b.desk

/-- Whether settings that have to do with the toolchain are being written. -/
def isTorn (b : Bench) : Bool :=
  b.sets.any fun c => Session.concernsToolchain c.key && c.isWriting

/-- What a call finds around it. -/
def seen (b : Bench) (torn : TornView) : Toolchain.Surroundings :=
  if b.isTorn then { b.around with config := torn.config, roots := torn.roots } else b.around

/-- The locator after the desk was told of a change. -/
def told (b : Bench) (key : Text) : Toolchain.Locator :=
  ((b.session.executionFollows key).execution.getD b.desk).locator

def after (b : Bench) : Happening → Bench
  | .ask => { b with crowd := b.crowd.take .begin }
  | .step caller torn => { b with crowd := b.crowd.take (.advance caller (b.seen torn)) }
  | .set key value asked => { b with sets := b.sets ++ [⟨key, value, asked, .comparing⟩] }
  | .proceed i => match b.sets[i]? with
    | none => b
    | some c =>
      let (manager, c') := c.advance b.manager
      { b with
        manager
        sets := b.sets.set i c'
        crowd := if c.tells? = some .execution then { b.crowd with locator := b.told c.key }
          else b.crowd }
  | .listen observer => { b with manager := b.manager.addListener (.observer observer) }
  | .unlisten observer => { b with manager := b.manager.removeListener (.observer observer) }
  | .invalidate => { b with crowd := b.crowd.take .invalidate }
  | .edit files => { b with host := b.host.withFiles files }

/-- What happens to the calls for the toolchain, as a turn of theirs. In most happenings it is the
turn of a call that has not begun. -/
def turn (b : Bench) : Happening → Toolchain.Turn
  | .ask => .begin
  | .step caller torn => .advance caller (b.seen torn)
  | .proceed i => match b.sets[i]? with
    | some c =>
      if c.tells? = some .execution ∧ Session.concernsToolchain c.key then .invalidate
      else .advance b.crowd.calls.length b.around
    | none => .advance b.crowd.calls.length b.around
  | .invalidate => .invalidate
  | _ => .advance b.crowd.calls.length b.around

theorem take_idle (crowd : Toolchain.Crowd) (w : Toolchain.Surroundings) :
    crowd.take (.advance crowd.calls.length w) = crowd := by
  simp [Toolchain.Crowd.take]

/-- The bench before a happening. -/
def course (b : Bench) (σ : ℕ → Happening) : ℕ → Bench
  | 0 => b
  | t + 1 => (course b σ t).after (σ t)

/-- The turns of the calls for the toolchain. -/
def turns (b : Bench) (σ : ℕ → Happening) : Toolchain.Schedule := fun t => (b.course σ t).turn (σ t)

section Course

variable {b : Bench} {σ : ℕ → Happening}

end Course

def inOrder (happenings : List Happening) : ℕ → Happening := fun t => happenings.getD t .invalidate

/-- Steps of a call, with a view of settings that were never made. -/
def stepsOf (caller n : ℕ) : List Happening :=
  List.replicate n (.step caller ⟨.ok ⟨"java", "/c.jar", false⟩, .ok (.list [])⟩)

/-- A jar is set while the first call is searching; the second call begins when that is done. -/
def overtaken : ℕ → Happening := inOrder <|
  [.ask] ++ stepsOf 0 4 ++ [.set "dhrlang.jar_path" (.str "/b.jar") none]
    ++ List.replicate 3 (.proceed 0) ++ stepsOf 0 1 ++ List.replicate 2 (.proceed 0) ++ stepsOf 0 5
    ++ [.ask] ++ stepsOf 1 8

end Bench

end DhrWorkbench
