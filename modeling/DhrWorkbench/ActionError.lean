import DhrWorkbench.Text

/-!
# Action errors

What can go wrong with an action of the user, as it is shown to the user in one notification.
-/

namespace DhrWorkbench

/-- What kind of problem an action had. -/
inductive ActionError.Kind
  | general
  | noDocument
  | wrongExtension
  | unresolved
  | invocation
  | tool
  deriving DecidableEq

/-- A problem that is reported to the user. -/
structure ActionError where
  kind : ActionError.Kind
  message : Text
  detail : Text

namespace ActionError

def level : Text := "error"

/-- The text of the notification. -/
def userMessage (e : ActionError) : Text :=
  if e.detail.isEmpty then e.message else e.message ++ ": " ++ e.detail

def noDocument : ActionError := ⟨.noDocument, "No DhrLang file is open!", []⟩

def wrongExtension (action : Text) : ActionError :=
  ⟨.wrongExtension, "Please open a .dhr file to " ++ action ++ "!", []⟩

def notSaved (name : Text) : ActionError :=
  ⟨.general, "Could not save the file before running", name⟩

def unresolved : ActionError := ⟨.unresolved,
  "DhrLang.jar not found. Set 'dhrlang.jar_path' or place DhrLang.jar in the workspace or its lib folder.",
  []⟩

def noTerminal (reason : Text) : ActionError :=
  ⟨.invocation, "Could not open the DhrLang output terminal", reason⟩

def notStarted (reason : Text) : ActionError :=
  ⟨.invocation, "Could not start the DhrLang toolchain", reason⟩

def checkFailed (reason : Text) : ActionError := ⟨.invocation, "Compilation failed", reason⟩

def compilation (stderr : Text) : ActionError := ⟨.tool, "Compilation Error", stderr⟩

end ActionError

end DhrWorkbench
