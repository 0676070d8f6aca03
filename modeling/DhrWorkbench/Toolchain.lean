import DhrWorkbench.Settings.Manager

/-!
# The toolchain

The toolchain is a jar that a Java program runs. Its settings say which program that is, where the
jar is, and whether it is looked for elsewhere too.
-/

namespace DhrWorkbench

namespace Toolchain

/-- By which rule a jar was found. -/
inductive Origin
  | override
  | workspaceRoot
  | workspaceLib
  | bundled
  deriving DecidableEq

def Origin.name : Origin → Text
  | .override => "explicit-override"
  | .workspaceRoot => "workspace-root"
  | .workspaceLib => "workspace-lib-glob"
  | .bundled => "bundled"

/-- How the toolchain is to be found and started. -/
structure Config where
  java : Text
  jar : Text
  autoDetect : Bool
  deriving DecidableEq

/-- The configuration in the settings of the toolchain. -/
def Config.ofSettings (settings : Value) : Config :=
  let fields := Fields.ofSection (some settings)
  let field (name : Text) : Option Value := Fields.get? name fields
  { java := Settings.javaProgram ((field "java_path").getD .null)
    jar := ((field "jar_path").getD .null).textOr ""
    autoDetect := ((field "auto_detect_jar").getD (.bool true)).truthy }

/-- Why a search does not complete. -/
inductive Failure
  | path (fault : PathFault)
  | settings (failure : Settings.Failure)
  /-- The roots of the workspace are no list. -/
  | roots

def Failure.message : Failure → Text
  | .path fault => fault.message
  | .settings failure => failure.message
  | .roots => ""

end Toolchain

/-- A toolchain that was found. -/
structure Toolchain where
  artifact : Text
  origin : Toolchain.Origin
  java : Text
  deriving DecidableEq

end DhrWorkbench
