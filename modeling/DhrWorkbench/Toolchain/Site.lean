import DhrWorkbench.Toolchain

/-!
# Where a jar may be

The sites at which a search looks, by the rule that names them: the configured path; the jar's
name in each root of the workspace; in the folder `lib` of the first root that has a matching
file there, the first such file by its path; and the jar that comes with the installation. Sites
are absolute, except that a path with an unknown home directory stays as it is.
-/

namespace DhrWorkbench

namespace Toolchain

def artifactName : Text := "DhrLang.jar"

/-- A place where the jar may be, and the rule that names it. -/
structure Site where
  origin : Origin
  path : Text
  deriving DecidableEq

/-- Whether something other than a folder stands at a path; whatever refuses an answer has
nothing. -/
def fileAt (h : Host) (path : Text) : Bool :=
  match h.isFile (Path.ofText path).text with
  | .ok found => found
  | .error _ => false

/-- What a probe says of a path: whether the jar is there, or that it refuses to look. -/
abbrev Probe := Text → Except OsError Bool

/-- Whether a probe finds the jar at a path; a refusal counts as missing. -/
def finds (probe : Probe) (path : Text) : Bool :=
  match probe path with
  | .ok found => found
  | .error _ => false

/-- The text of a path seen from the root, with the home directory filled in. -/
def absoluteSite (h : Host) (p : Path) : Except PathFault Text :=
  match h.expandHome p with
  | .ok path => .ok (h.absolute path).text
  | .error .noHome => .ok p.text
  | .error fault => .error fault

/-- A site by its origin and path. -/
def site (h : Host) (origin : Origin) (p : Path) : Except PathFault Site :=
  (absoluteSite h p).map fun path => ⟨origin, path⟩

/-- The configured jar, seen from the first root. There is none when the setting is blank. -/
def overrideSites (h : Host) (jar : Text) (roots : List Text) : List (Except PathFault Site) :=
  let t := Text.strip jar
  if t.isEmpty then []
  else match h.expandHome (Path.ofText t) with
    | .error fault => [.error fault]
    | .ok path => match roots with
      | [] => [site h .override path]
      | root :: _ => [site h .override (Path.ofText root / path)]

def rootSites (h : Host) (roots : List Text) : List (Except PathFault Site) :=
  roots.map fun root => site h .workspaceRoot (Path.ofText root / Path.ofText artifactName)

/-- Whether a name in a folder `lib` is that of a jar. -/
def isJarName (name : Text) : Bool :=
  (Text.ofString "DhrLang-").isPrefixOf name && (Text.ofString ".jar").isSuffixOf name
    && 12 ≤ name.length

/-- The folder in which a root keeps its libraries. -/
def libFolder (root : Text) : Path := Path.ofText root / Path.ofText "lib"

/-- The names in a folder, none when it is no folder. -/
def namesIn (h : Host) (folder : Path) : Except PathFault (List Text) :=
  match h.isFolder folder.text with
  | .error fault => .error fault
  | .ok false => .ok []
  | .ok true => match h.locate folder.text with
    | .ok (.there location) => .ok (h.files.names location)
    | .ok (.free _ _) => .ok []
    | .error fault => .error fault

/-- The files among some paths. -/
def filesAmong (h : Host) : List Text → Except PathFault (List Text)
  | [] => .ok []
  | path :: rest =>
    match h.isFile path with
    | .error fault => .error fault
    | .ok found => (filesAmong h rest).map fun files => if found then path :: files else files

/-- The jars in the folder `lib` of a root, sorted by their paths. -/
def libJars (h : Host) (root : Text) : List Text :=
  let folder := libFolder root
  match namesIn h folder with
  | .error _ => []
  | .ok names =>
    let paths := (names.filter isJarName).map fun name => (folder / Path.mk .here [name]).text
    match filesAmong h paths with
    | .error _ => []
    | .ok files => files.mergeSort Text.atMost

/-- The first jar in the folder `lib` of the first root that has one there. -/
def libSites (h : Host) : (roots : List Text) → List (Except PathFault Site)
  | [] => []
  | root :: rest => match libJars h root with
    | jar :: _ => [site h .workspaceLib (Path.ofText jar)]
    | [] => libSites h rest

/-- The jar of the installation, whose folder must be a text. -/
def bundledSites (h : Host) (install : Value) : List (Except PathFault Site) :=
  match install with
  | .str t => [site h .bundled (Path.ofText t / Path.ofText "compiler" / Path.ofText artifactName)]
  | v => [.error (.kind v.kindName)]

/-- The sites of one rule, as the files are now. -/
def sitesOf (h : Host) (install : Value) (config : Config) (roots : List Text) :
    Origin → List (Except PathFault Site)
  | .override => overrideSites h config.jar roots
  | .workspaceRoot => rootSites h roots
  | .workspaceLib => libSites h roots
  | .bundled => bundledSites h install

/-- The rules that a search goes through, in order. -/
def rules (config : Config) : List Origin :=
  if config.autoDetect then [.override, .workspaceRoot, .workspaceLib, .bundled] else [.override]

/-- All sites of a search, in order. -/
def sites (h : Host) (install : Value) (config : Config) (roots : List Text) :
    List (Except PathFault Site) :=
  (rules config).flatMap (sitesOf h install config roots)

/-- The roots in a value that are not blank, without blanks around them. -/
def cleanRoots (value : Value) : Except Failure (List Text) :=
  if !value.truthy then .ok []
  else match value.items? with
    | none => .error .roots
    | some items =>
      .ok ((items.map fun item => Text.strip (item.textOr "")).filter fun t => !t.isEmpty)

end Toolchain

end DhrWorkbench
