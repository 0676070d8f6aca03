import DhrWorkbench.FileSystem

/-!
# The host

What a process sees of the machine it runs on: the files, its working directory, the home
directories, the folders searched for programs, and the folder configured for the settings of the
workbench. The operations are those of the system: they take the text of a path, refuse texts that
no file name can hold, and name the path in their errors.
-/

namespace DhrWorkbench

/-- The machine around a process. -/
structure Host where
  files : FileSystem
  /-- The working directory. -/
  cwd : Location
  /-- The home directory of the user. -/
  home : Text
  /-- The home directories of the users by name. -/
  homes : List (Text × Text)
  /-- The folders searched for programs. -/
  programFolders : List Text
  /-- The folder configured for the settings of the workbench. -/
  settingsFolder : Option Text

/-- Why a path cannot be used. -/
inductive PathFault
  | os (error : OsError)
  /-- What is to be a path is no text but of another kind. -/
  | kind (name : Text)
  | nullByte
  | unencodable (fault : Utf8.Unencodable)
  | noHome
  deriving DecidableEq

def PathFault.message : PathFault → Text
  | .os error => error.message
  | .kind name => "expected str, bytes or os.PathLike object, not " ++ name
  | .nullByte => "embedded null byte"
  | .unencodable fault => fault.message
  | .noHome => "Could not determine home directory."

/-- Whether a text can be the name of a file at all. -/
def PathFault.check (t : Text) : Except PathFault Unit :=
  match Utf8.unencodable? Utf8.isByteSurrogate t with
  | some fault => .error (.unencodable fault)
  | none => if t.any fun c : CodePoint => c.val = 0 then .error .nullByte else .ok ()

namespace Host

def cwdText (h : Host) : Text := "/" ++ Text.join "/" h.cwd

/-- What the text of a path leads to. -/
def locate (h : Host) (t : Text) : Except PathFault Spot :=
  match PathFault.check t with
  | .error fault => .error fault
  | .ok () =>
    if FileSystem.pathLimit < (Utf8.nameBytes t).length then .error (.os ⟨.nameTooLong, t⟩)
    else if t = [] then .error (.os ⟨.missing, t⟩)
    else match h.files.walk (if (Path.ofText t).isAbsolute then [] else h.cwd)
        (Text.splitOn '/' t) with
      | .ok spot => .ok spot
      | .error fault => .error (.os ⟨fault, t⟩)

/-- What stands at a path. -/
def stat (h : Host) (t : Text) : Except PathFault Node :=
  match h.locate t with
  | .error fault => .error fault
  | .ok (.free _ _) => .error (.os ⟨.missing, t⟩)
  | .ok (.there location) =>
    match h.files.get? location with
    | some node => .ok node
    | none => .error (.os ⟨.missing, t⟩)

/-- Whether something of a kind stands at a path. A path that cannot be named, is missing or leads
through a file has nothing; any other refusal is an error. -/
def holds (h : Host) (kind : Node → Bool) (t : Text) : Except PathFault Bool :=
  match h.stat t with
  | .ok node => .ok (kind node)
  | .error (.os ⟨.missing, _⟩) => .ok false
  | .error (.os ⟨.notFolder, _⟩) => .ok false
  | .error (.os error) => .error (.os error)
  | .error _ => .ok false

def «exists» (h : Host) (t : Text) : Except PathFault Bool := h.holds (fun _ => true) t

def isFile (h : Host) (t : Text) : Except PathFault Bool := h.holds (fun n => !n.isFolder) t

def isFolder (h : Host) (t : Text) : Except PathFault Bool := h.holds Node.isFolder t

/-- The bytes of a file. A tool is read as an empty file. -/
def readBytes (h : Host) (t : Text) : Except PathFault (List Byte) :=
  match h.stat t with
  | .error fault => .error fault
  | .ok .folder => .error (.os ⟨.isFolder, t⟩)
  | .ok (.file bytes _) => .ok bytes
  | .ok (.tool _) => .ok []

def withFiles (h : Host) (files : FileSystem) : Host := { h with files }

/-- Makes a file that can be written to, or empties it. Gives its location. -/
def openForWriting (h : Host) (t : Text) : Except PathFault (Location × Host) :=
  match h.locate t with
  | .error fault => .error fault
  | .ok (.free folder name) =>
    let location := folder ++ [name]
    .ok (location, h.withFiles (h.files.put location (.file [] false)))
  | .ok (.there location) =>
    match h.files.get? location with
    | some (.file _ executable) =>
      .ok (location, h.withFiles (h.files.put location (.file [] executable)))
    | some (.tool _) => .ok (location, h.withFiles (h.files.put location (.file [] true)))
    | _ => .error (.os ⟨.isFolder, t⟩)

/-- Writes a text to a file. The file is emptied before the text is encoded, so a text without a
UTF-8 form leaves it empty. -/
def writeText (h : Host) (path content : Text) : Except PathFault Unit × Host :=
  match h.openForWriting path with
  | .error fault => (.error fault, h)
  | .ok (location, opened) =>
    match Utf8.unencodable? (fun _ => false) content with
    | some fault => (.error (.unencodable fault), opened)
    | none =>
      let executable := match opened.files.get? location with
        | some (.file _ executable) => executable
        | _ => false
      (.ok (), opened.withFiles
        (opened.files.put location (.file (Utf8.encode content) executable)))

/-- Makes one folder. -/
def makeFolder (h : Host) (t : Text) : Except PathFault Host :=
  match h.locate t with
  | .error fault => .error fault
  | .ok (.there _) => .error (.os ⟨.taken, t⟩)
  | .ok (.free folder name) => .ok (h.withFiles (h.files.put (folder ++ [name]) .folder))

/-- Makes one folder unless it is there. -/
def ensureFolder (h : Host) (t : Text) : Except PathFault Unit × Host :=
  match h.makeFolder t with
  | .ok made => (.ok (), made)
  | .error (.os error) =>
    match h.isFolder t with
    | .ok true => (.ok (), h)
    | .ok false => (.error (.os error), h)
    | .error fault => (.error fault, h)
  | .error fault => (.error fault, h)

/-- Makes a folder and those above it unless they are there; the names are given last first. -/
def ensureFolders (h : Host) (anchor : Anchor) :
    (reversed : List Text) → Except PathFault Unit × Host
  | [] => h.ensureFolder (Path.mk anchor []).text
  | last :: above =>
    let t := (Path.mk anchor (above.reverse ++ [last])).text
    match h.makeFolder t with
    | .ok made => (.ok (), made)
    | .error (.os ⟨.missing, _⟩) =>
      match ensureFolders h anchor above with
      | (.error fault, h) => (.error fault, h)
      | (.ok (), h) => h.ensureFolder t
    | .error _ => h.ensureFolder t

/-- The folder that the text of a home directory names. A text that starts with a tilde names
none. -/
def homeFolder (t : Text) : Except PathFault Text :=
  let folder := (t.reverse.dropWhile fun c : CodePoint => c = '/').reverse
  if folder.head? = some (CodePoint.ofChar '~') then .error .noHome
  else if folder = [] then .ok "/"
  else .ok folder

/-- The home directory that a leading name with a tilde stands for. -/
def homeOf (h : Host) (tilde : Text) : Except PathFault Text :=
  match tilde.drop 1 with
  | [] => homeFolder h.home
  | user =>
    match PathFault.check user with
    | .error fault => .error fault
    | .ok () =>
      match h.homes.find? (·.1 = user) with
      | some (_, folder) => homeFolder folder
      | none => .error .noHome

/-- A path with a leading tilde replaced by the home directory it stands for. -/
def expandHome (h : Host) (p : Path) : Except PathFault Path :=
  match p.anchor, p.parts with
  | .here, first :: rest =>
    if first.head? = some (CodePoint.ofChar '~') then
      (h.homeOf first).map fun folder => Path.ofText folder / Path.mk .here rest
    else .ok p
  | _, _ => .ok p

/-- A path seen from the working directory. -/
def absolute (h : Host) (p : Path) : Path := Path.mk .root h.cwd / p

/-- The text of a path seen from the working directory, folded. -/
def absoluteText (h : Host) (t : Text) : Text := Path.textFrom h.cwdText t

/-- The location of a path, whatever stands there. -/
def locationOf (h : Host) (t : Text) : Location :=
  (h.absolute (Path.ofText t)).normal.parts.map Utf8.normalName

/-- The host after something was put at a path from outside, with the folders above it. -/
def plant (h : Host) (path : Text) (node : Node) : Host :=
  h.withFiles (h.files.plant (h.locationOf path) node)

/-- The host after a path was removed from outside, with all below it. -/
def remove (h : Host) (path : Text) : Host := h.withFiles (h.files.erase (h.locationOf path))

/-- Looks at the starts of a path one after the other, each folded, for the first that no file
name can hold; `done` holds the names so far in reverse. -/
def checkStarts (rooted : Bool) : (done : List Text) → List Text → Except PathFault Unit
  | _, [] => .ok ()
  | done, name :: rest =>
    if name = Text.ofString ".." then checkStarts rooted (Path.stepUp rooted done) rest
    else
      match PathFault.check
          ((if rooted then Text.ofString "/" else []) ++ Text.join "/" (name :: done).reverse) with
      | .error fault => .error fault
      | .ok () => checkStarts rooted (name :: done) rest

/-- The path of the place a path leads to. Without links it is the absolute path, folded; its
names must be such that a file can have them. -/
def resolve (h : Host) (p : Path) : Except PathFault Path :=
  (checkStarts p.isAbsolute [] p.parts).map fun () => ⟨.root, (h.absolute p).normal.parts⟩

end Host

end DhrWorkbench
