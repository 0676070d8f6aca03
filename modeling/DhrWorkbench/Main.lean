import DhrWorkbench.CommandLine

/-!
# The program

Reads what the command line may look at into a host, runs the command there, and prints what it
printed. Of the folders it looks at, files of settings are read with their bytes and all others
only by their names; programs outside are not part of the host.
-/

namespace DhrWorkbench

/-- A text to print. A code point that is no character prints as the replacement character. -/
def printable (t : Text) : String :=
  String.ofList (t.map fun c => if c.val.isValidChar then Char.ofNat c.val else '\uFFFD')

/-- The bytes of a file that is read. -/
def bytesOf (content : ByteArray) : List Byte := content.toList.map fun b => Byte.ofNat b.toNat

/-- Whether a file is read with its bytes. -/
def isSettingsFile (name : String) : Bool := name.endsWith ".json"

/-- Adds what stands in a folder, down to a depth. -/
partial def survey (h : Host) (folder : String) (depth : Nat) : IO Host := do
  let here ← IO.currentDir
  let path := here / folder
  unless ← path.isDir do return h
  let mut h := h.plant (Text.ofString path.toString) .folder
  for entry in ← path.readDir do
    let name := entry.path.toString
    if ← entry.path.isDir then
      h := h.plant (Text.ofString name) .folder
      if 0 < depth then h ← survey h name (depth - 1)
    else if isSettingsFile name then
      let content ← IO.FS.readBinFile entry.path
      h := h.plant (Text.ofString name) (.file (bytesOf content) false)
    else h := h.plant (Text.ofString name) (.file [] false)
  return h

/-- The host of a command with the folders it may look at. -/
def surroundings (argv : List String) : IO Host := do
  let here ← IO.currentDir
  let home := (← IO.getEnv "HOME").getD "/"
  let settings ← IO.getEnv "PYDHR_IDE_APP_DIR"
  let searched := ((← IO.getEnv "PATH").getD "").splitOn ":"
  let base : Host :=
    { files := ⟨[]⟩
      cwd := (Path.ofText (Text.ofString here.toString)).parts
      home := Text.ofString home
      homes := []
      programFolders := searched.map Text.ofString
      settingsFolder := settings.map Text.ofString }
  let folders := [here.toString, home ++ "/.pydhr", settings.getD "."] ++ argv
  folders.foldlM (fun h folder => survey h folder 1) base

end DhrWorkbench

open DhrWorkbench in
def main (argv : List String) : IO UInt32 := do
  let host ← surroundings argv
  let install := (← IO.appDir).toString
  let report := CommandLine.run host (Text.ofString install) (argv.map Text.ofString)
  IO.print (printable report.stdout)
  IO.eprint (printable report.stderr)
  match report.ending with
  | .returned status => return UInt32.ofNat status
  | .exited status => return UInt32.ofNat status
  | .broken _ => return 1
