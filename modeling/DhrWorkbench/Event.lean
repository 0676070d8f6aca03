import DhrWorkbench.Invocation
import DhrWorkbench.Pack
import DhrWorkbench.Toolchain.Locator

/-!
# Events

What the parts of the workbench tell those who listen, in the order in which it happens.
-/

namespace DhrWorkbench

/-- What is shown of the toolchain. -/
structure ToolchainNotice where
  status : Toolchain.Status
  artifact : Text
  origin : Text
  message : Text

namespace ToolchainNotice

def ofFound (t : Toolchain) : ToolchainNotice :=
  ⟨.resolved, t.artifact, t.origin.name, "DhrLang: " ++ Path.baseName t.artifact⟩

/-- What is shown when no toolchain was found, or none was looked for. -/
def ofStatus : Toolchain.Status → ToolchainNotice
  | .unknown => ⟨.unknown, [], [], []⟩
  | _ => ⟨.unresolved, [], [], "DhrLang toolchain not found"⟩

/-- What is shown after a search, given what the locator remembers. -/
def of (status : Toolchain.Status) : Option Toolchain → ToolchainNotice
  | some t => ofFound t
  | none => ofStatus status

end ToolchainNotice

/-- Who speaks of the language services. -/
inductive Speaker
  | hub
  | provider (name : Text)

inductive Event
  /-- An observer was told of a changed setting; `handed` is the number of the value it got. -/
  | observed (observer key : Text) (handed : Nat)
  /-- A provider was called. -/
  | told (provider call : Text) (argument : Value)
  | completion (speaker : Speaker) (answer : CompletionAnswer)
  | hover (speaker : Speaker) (answer : HoverAnswer)
  /-- A provider said something. -/
  | said (speaker : Speaker) (words : Value)
  /-- The execution desk said something. -/
  | status (text : Text)
  /-- The document was to be saved. -/
  | saving (path : Text)
  /-- A file was to be run. -/
  | launching (launch : Invocation.Launch)
  | notification (level text : Text)
  | toolchain (notice : ToolchainNotice)
  | checked (result : Invocation.Result)
  | output (title text : Text)
  | runStarted (target : Text) (focusOutput : Bool)

end DhrWorkbench
