import DhrWorkbench.Host
import DhrWorkbench.Text.Blank

/-!
# Folders of the workspace

Where the workbench keeps its own settings, and which folder a text names as a project.
-/

namespace DhrWorkbench

namespace Host

/-- The folder for the settings of the workbench: the configured one, or one in the home
directory. -/
def ideFolder (h : Host) : Except PathFault Text :=
  let configured := Text.strip (h.settingsFolder.getD [])
  if configured.isEmpty then
    (h.expandHome (Path.ofText "~")).map fun home => (home / Path.ofText ".pydhr").text
  else (h.expandHome (Path.ofText configured)).map (·.text)

/-- The folder that a text names, if it names one. -/
def existingFolder (h : Host) (t : Text) : Except PathFault (Option Path) :=
  let t := Text.strip t
  if t.isEmpty then .ok none
  else match h.expandHome (Path.ofText t) with
    | .error fault => .error fault
    | .ok path =>
      match h.isFolder path.text with
      | .error fault => .error fault
      | .ok false => .ok none
      | .ok true => (h.resolve path).map some

end Host

end DhrWorkbench
