import DhrWorkbench.Toolchain.Locator

/-!
# Rehearsals of the locator

A locator among things that can be changed at will: the settings and roots it reads, the files,
what a probe answers, and changes that happen just before a certain path is probed. A rehearsal
runs calls one after the other, or several at once with one of them held after it has read its
configuration.
-/

namespace DhrWorkbench

namespace Toolchain

/-- How a probe answers: it refuses some paths, and knows either a list of those that exist or
looks at the files. -/
structure ProbeRule where
  refused : List Text
  found : Option (List Text)

def ProbeRule.answer (rule : ProbeRule) (h : Host) : Probe := fun path =>
  if Text.isAmong path rule.refused then .error ⟨.denied, path⟩
  else match rule.found with
    | some paths => .ok (Text.isAmong path paths)
    | none => .ok (fileAt h path)

/-- A probe that looks at the files. -/
def ProbeRule.files : ProbeRule := ⟨[], none⟩

/-- Something that changes around a locator. -/
inductive Change
  | invalidate
  | settings (value : Value)
  | roots (value : Value)
  | plant (path : Text) (node : Node)
  | remove (path : Text)

/-- A locator and all it depends on. -/
structure Rehearsal where
  host : Host
  settings : Value
  roots : Value
  install : Value
  rule : ProbeRule
  /-- The changes that wait for a path to be probed. -/
  hooks : List (Text × List Change)
  locator : Locator
  /-- The paths probed so far. -/
  probed : List Text

namespace Rehearsal

def apply (r : Rehearsal) : Change → Rehearsal
  | .invalidate => { r with locator := r.locator.invalidate }
  | .settings settings => { r with settings }
  | .roots roots => { r with roots }
  | .plant path node => { r with host := r.host.plant path node }
  | .remove path => { r with host := r.host.remove path }

def applyAll (r : Rehearsal) (changes : List Change) : Rehearsal := changes.foldl apply r

/-- Lets changes wait for a path to be probed, after those that wait for it already. -/
def hook (r : Rehearsal) (path : Text) (changes : List Change) : Rehearsal :=
  { r with hooks := r.hooks ++ [(path, changes)] }

/-- Notes that a path is probed and makes the changes that waited for it. -/
def beforeProbe (path : Text) (r : Rehearsal) : Rehearsal :=
  let waiting := (r.hooks.filter (·.1 = path)).flatMap (·.2)
  applyAll { r with
    probed := r.probed ++ [path]
    hooks := r.hooks.filter (·.1 ≠ path) } waiting

def stand : Stand Rehearsal where
  locator := (·.locator)
  place locator r := { r with locator }
  around r :=
    { config := .ok (.ofSettings r.settings)
      roots := .ok r.roots
      host := r.host
      install := r.install
      probe := r.rule.answer r.host }
  beforeProbe := beforeProbe

def resolve (r : Rehearsal) : Except Failure (Option Toolchain) × Rehearsal := stand.resolve r

/-- Whether a call has read its configuration and nothing more. -/
def isHeld : Call → Bool
  | .rooting _ _ => true
  | _ => false

/-- Takes a call as far as it gets without searching: to its end, to the queue, or to where it has
read its configuration. -/
def bring : Nat → Call → Rehearsal → Call × Rehearsal
  | 0, call, r => (call, r)
  | n + 1, call, r =>
    if isHeld call then (call, r)
    else
      let (call, r) := stand.step call r
      bring n call r

/-- Lets calls in one after the other. -/
def bringAll : Nat → Rehearsal → List Call × Rehearsal
  | 0, r => ([], r)
  | n + 1, r =>
    let (call, r) := bring Call.stepsToSearch .entering r
    let (calls, r) := bringAll n r
    (call :: calls, r)

/-- Takes calls to their ends one after the other. -/
def finishAll : List Call → Rehearsal → List (Except Failure (Option Toolchain)) × Rehearsal
  | [], r => ([], r)
  | call :: calls, r =>
    let (call, r) := stand.finish call r
    let (answers, r) := finishAll calls r
    (call.answer?.getD (.ok none) :: answers, r)

/-- The calls with the one that is held in front. -/
def heldFirst (calls : List Call) : List Call :=
  calls.filter isHeld ++ calls.filter (!isHeld ·)

/-- Several calls at once. The first to search is held after it has read its configuration; when
all others wait or are answered, the changes happen, and the calls go on, the held one first. -/
def concurrent (r : Rehearsal) (callers : Nat) (changes : List Change) :
    List (Except Failure (Option Toolchain)) × Rehearsal :=
  let (calls, r) := bringAll callers r
  finishAll (heldFirst calls) (r.applyAll changes)

end Rehearsal

end Toolchain

end DhrWorkbench
