import DhrWorkbench.Value

/-!
# Default settings

What settings are without a file: those of a project, among them how the toolchain is found, and
those of the workbench itself.
-/

namespace DhrWorkbench

namespace Settings

/-- How the toolchain is found and started. -/
def defaultToolchain : Fields := [
  ("java_path", .str "java"),
  ("jar_path", .str ""),
  ("auto_detect_jar", .bool true)]

def defaultProject : Fields := [
  ("project_name", .str "My DhrLang Project"),
  ("workspace_roots", .list []),
  ("dhrlang", .object defaultToolchain)]

def defaultIde : Fields := [
  ("run", .object [
    ("save_before_run", .bool true),
    ("focus_output_on_run", .bool true),
    ("show_check_output", .bool true)]),
  ("completion", .object [
    ("enabled", .bool true),
    ("auto_trigger", .bool true)])]

end Settings

end DhrWorkbench
