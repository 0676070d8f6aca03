import DhrWorkbench.Completion
import DhrWorkbench.Hover
import DhrWorkbench.Language
import DhrWorkbench.Position

/-!
# The language pack

A language pack answers requests for completion and for documentation out of its catalog. A
request carries values as an editor sends them: blank ones count as absent, and the number of a
request is read as an integer. The settings of completion can switch completion off, altogether or
where the editor asked by itself.
-/

namespace DhrWorkbench

/-- Why a request is not answered. -/
inductive RequestFault
  /-- An argument is missing or unknown. -/
  | arguments
  | integer (fault : IntegerFault)

/-- A request for completion. -/
structure CompletionRequest where
  file : Value
  source : Value
  line : Value
  column : Value
  /-- What was typed so far. -/
  typed : Value
  token : Value
  reason : Value

/-- A request for documentation. Without a word it is about the word at the position. -/
structure HoverRequest where
  file : Value
  source : Value
  line : Value
  column : Value
  token : Value
  word : Value

/-- The answer to a request for completion. -/
structure CompletionAnswer where
  file : Text
  token : Int
  items : List Candidate
  /-- What was typed so far; not told by an answer out of no catalog. -/
  typed : Option Text
  backend : Text
  reason : Text

/-- The answer to a request for documentation. -/
structure HoverAnswer where
  file : Text
  token : Int
  word : Text
  label : Text
  markdown : Text
  source : Text

/-- The arguments of a request by name, if each required one is there and none is unknown. -/
def acceptArguments (required optional : List Text) (arguments : Fields) : Option Fields :=
  if required.all (fun name => Fields.contains name arguments)
      && (Fields.keys arguments).all fun name =>
        Text.isAmong name required || Text.isAmong name optional
  then some arguments else none

/-- An argument by its name, null when it is absent. -/
def argument (arguments : Fields) (name : Text) : Value := (Fields.get? name arguments).getD .null

def CompletionRequest.ofArguments (arguments : Fields) : Option CompletionRequest :=
  (acceptArguments ["file_path", "source_text", "line", "column", "prefix", "token"]
    ["reason", "trigger_char"] arguments).map fun a =>
    { file := argument a "file_path"
      source := argument a "source_text"
      line := argument a "line"
      column := argument a "column"
      typed := argument a "prefix"
      token := argument a "token"
      reason := (Fields.get? "reason" a).getD (.str "auto") }

def HoverRequest.ofArguments (arguments : Fields) : Option HoverRequest :=
  (acceptArguments ["file_path", "source_text", "line", "column", "token"] ["word"] arguments).map
    fun a =>
    { file := argument a "file_path"
      source := argument a "source_text"
      line := argument a "line"
      column := argument a "column"
      token := argument a "token"
      word := argument a "word" }

/-- What a provider of language services can do. -/
structure Capabilities where
  completion : Bool := true
  signature : Bool := true
  definition : Bool := true
  references : Bool := true
  hover : Bool := false

/-- A catalog and the settings of completion. -/
structure Pack where
  catalog : Catalog
  settings : Fields

namespace Pack

def backend : Text := "dhrlang"

def capabilities : Capabilities :=
  { signature := false, definition := false, references := false, hover := true }

/-- Takes new settings of completion; what is no object is ignored. -/
def configure (p : Pack) : Value → Pack
  | .object settings => { p with settings }
  | _ => p

/-- A setting that is on unless it says otherwise. -/
def isSet (p : Pack) (name : Text) : Bool :=
  ((Fields.get? name p.settings).getD (.bool true)).truthy

/-- Whether the editor asked by itself. -/
def isAutomatic (reason : Value) : Bool := reason.same false (.str "auto")

/-- Whether a request for completion gets any candidates. -/
def completes (p : Pack) (reason : Value) : Bool :=
  p.isSet "enabled" && !(isAutomatic reason && !p.isSet "auto_trigger")

/-- The number of a request, at least 1. -/
def tokenOf (v : Value) : Except RequestFault Int :=
  match v.toInt with
  | .ok n => .ok (max 1 n)
  | .error fault => .error (.integer fault)

/-- The position of a request. -/
def offsetOf (source line column : Value) : Except RequestFault Nat :=
  (Position.offsetOf (source.textOr []) line column).mapError .integer

def complete (p : Pack) (r : CompletionRequest) : Except RequestFault CompletionAnswer := do
  let offset ← offsetOf r.source r.line r.column
  let token ← tokenOf r.token
  return {
    file := r.file.textOr []
    token
    items := if p.completes r.reason then p.catalog.complete { cursorOffset := offset } else []
    typed := some (r.typed.textOr [])
    backend
    reason := r.reason.textOr "auto" }

/-- The word that a request for documentation is about. -/
def wordOf (p : Pack) (r : HoverRequest) : Except RequestFault Text :=
  match r.word with
  | .null => (offsetOf r.source r.line r.column).map fun offset =>
      let t := r.source.textOr []
      if t.isEmpty then [] else p.catalog.wordAt t offset
  | word => .ok (word.textOr [])

def hover (p : Pack) (r : HoverRequest) : Except RequestFault HoverAnswer := do
  let word ← p.wordOf r
  let token ← tokenOf r.token
  let card := p.catalog.hover word
  return {
    file := r.file.textOr []
    token
    word
    label := match card with
      | some card => card.label
      | none => []
    markdown := match card with
      | some card => card.markdown
      | none => []
    source := backend }

end Pack

end DhrWorkbench
