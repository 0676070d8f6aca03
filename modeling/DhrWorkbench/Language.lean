import DhrWorkbench.Path
import DhrWorkbench.Text.Blank
import DhrWorkbench.Text.Lower

/-!
# Languages

The language of a file is known by the extension of its name, in any case and with blanks around
the path. Beside this rule stands the one by which a language pack accepts a file: it looks at the
text of the path as it is.
-/

namespace DhrWorkbench

namespace Language

def dhrlang : Text := "dhrlang"

def plain : Text := "plaintext"

/-- The languages known by an extension. -/
def byExtension : List (Text × Text) :=
  [(".dhr", dhrlang), (".md", "markdown"), (".json", "json")]

/-- The name of a language as it is compared: without blanks around it and in lower case. -/
def normalName (name : Text) : Text := Text.lower (Text.strip name)

/-- A name for files of no known language; plain text when it is blank. -/
def fallback (name : Text) : Text :=
  let name := normalName name
  if name.isEmpty then plain else name

/-- The language of a file, `default` when its extension is not known. -/
def ofPath (path default : Text) : Text :=
  let path := Text.strip path
  if path.isEmpty then fallback default
  else
    let extension := Text.lower (Path.ofText path).extension
    match byExtension.find? (·.1 = extension) with
    | some (_, language) => language
    | none => fallback default

/-- Whether a path is routed to the language. -/
def isDhrPath (path : Text) : Bool := ofPath path plain = dhrlang

/-- The extensions of the files that the language pack accepts. -/
def packExtensions : List Text := [".dhr"]

/-- The languages that the language pack serves. -/
def packLanguages : List Text := [dhrlang]

/-- Whether the language pack accepts a file. -/
def packAccepts (path : Text) : Bool :=
  Text.isAmong (Text.lower (Path.extensionText path)) packExtensions

end Language

end DhrWorkbench
