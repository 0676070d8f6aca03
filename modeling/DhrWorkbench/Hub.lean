import DhrWorkbench.Event
import DhrWorkbench.Settings.Store

/-!
# The language hub

The hub routes requests to the provider that was last registered for a language, and answers with
nothing where there is none. A language pack speaks for itself; the hub passes on what each
provider it knows says, once, however often the provider was registered. Other providers may
support only some of the calls.
-/

namespace DhrWorkbench

/-- Something that provides language services. -/
inductive Provider
  | pack (pack : Pack)
  /-- Records the calls it gets; it offers no completion. -/
  | recorder
  /-- Supports no call. -/
  | bare
  /-- No provider at all. -/
  | absent

/-- Why the hub does not do what it is asked. -/
inductive HubFault
  | request (fault : RequestFault)
  /-- The languages are no list. -/
  | languages
  /-- The provider does not support the call. -/
  | unsupported
  /-- The settings of completion cannot be handed on. -/
  | settings (failure : Settings.Failure)

/-- The routes of requests. Providers go by their names. -/
structure Hub where
  providers : List (Text × Provider)
  /-- The providers of languages, in the order in which the languages were first routed. -/
  routes : List (Text × Text)
  /-- The providers whose words the hub passes on, one entry for each connection. -/
  connected : List Text
  /-- The providers who are listened to directly, before the hub. -/
  watched : List Text
  /-- The settings manager that providers follow. -/
  bound : Option Text

namespace Hub

def provider (hub : Hub) (name : Text) : Provider :=
  match hub.providers.find? (·.1 = name) with
  | some (_, p) => p
  | none => .absent

/-- Puts another provider in the place of that of a name. -/
def withProvider (hub : Hub) (name : Text) (p : Provider) : Hub :=
  { hub with
    providers := hub.providers.map fun entry => if entry.1 = name then (name, p) else entry }

/-- Routes a language to a provider. -/
def route (language provider : Text) : List (Text × Text) → List (Text × Text)
  | [] => [(language, provider)]
  | (l, p) :: rest =>
    if l = language then (language, provider) :: rest else (l, p) :: route language provider rest

/-- The provider of a language. -/
def providerFor (hub : Hub) (language : Value) : Option Text :=
  let key := Language.normalName (language.textOr [])
  (hub.routes.find? (·.1 = key)).map (·.2)

/-- The provider for a file. -/
def providerForPath (hub : Hub) (path : Text) : Option Text :=
  hub.providerFor (.str (Language.ofPath path Language.plain))

/-- The providers that some language is routed to, each once. -/
def routed (hub : Hub) : List Text := (hub.routes.map (·.2)).eraseDups

/-- What is heard when a provider speaks: those who listen directly first, then the hub, once for
each connection. -/
def heard (hub : Hub) (name : Text) (event : Speaker → Event) : List Event :=
  (if Text.isAmong name hub.watched then [event (.provider name)] else [])
    ++ (hub.connected.filter (· = name)).map fun _ => event .hub

/-- Lets a provider say something. Only a pack can. -/
def speak (hub : Hub) (name : Text) (words : Value) : Except HubFault (List Event) :=
  match hub.provider name with
  | .pack _ => .ok (hub.heard name (.said · words))
  | _ => .error .unsupported

/-- Gives one provider settings of completion. -/
def configureOne (hub : Hub) (value : Value) (name : Text) : Hub × List Event :=
  match hub.provider name with
  | .pack pack => (hub.withProvider name (.pack (pack.configure value)), [])
  | .recorder => (hub, [.told name "update_settings" value])
  | _ => (hub, [])

/-- Gives providers settings of completion. -/
def configureAll (value : Value) : List Text → Hub → Hub × List Event
  | [], hub => (hub, [])
  | name :: rest, hub =>
    let (hub, events) := hub.configureOne value name
    let (hub, more) := configureAll value rest hub
    (hub, events ++ more)

/-- Gives every routed provider settings of completion. -/
def configure (hub : Hub) (value : Value) : Hub × List Event := configureAll value hub.routed hub

/-- The languages in a value: one by its name, or several. -/
def languagesOf : Value → Option (List Text)
  | .str t => some [t]
  | v => v.items?.map fun items => items.map (·.textOr [])

/-- Routes languages to a provider and connects it. -/
def connect (hub : Hub) (name : Text) (languages : List Text) : Hub :=
  let names := (languages.map Language.normalName).filter fun l => !l.isEmpty
  { hub with
    routes := names.foldl (fun routes l => route l name routes) hub.routes
    connected := match hub.provider name with
      | .pack _ =>
        if Text.isAmong name hub.connected then hub.connected else hub.connected ++ [name]
      | _ => hub.connected }

/-- The provider of a request: by the language it names, or else by its file. -/
def providerOf (hub : Hub) (language : Value) (arguments : Fields) : Option Text :=
  if language.truthy then hub.providerFor language
  else hub.providerForPath ((argument arguments "file_path").textOr [])

/-- The number of a request that no provider answers. -/
def emptyToken (arguments : Fields) : Except HubFault Int :=
  (Position.integerOr 0 (argument arguments "token")).mapError fun fault =>
    .request (.integer fault)

def emptyCompletion (arguments : Fields) : Except HubFault CompletionAnswer :=
  (emptyToken arguments).map fun token =>
    { file := (argument arguments "file_path").textOr []
      token
      items := []
      typed := none
      backend := "none"
      reason := (argument arguments "reason").textOr "manual" }

def emptyHover (arguments : Fields) : Except HubFault HoverAnswer :=
  (emptyToken arguments).map fun token =>
    { file := (argument arguments "file_path").textOr []
      token
      word := (argument arguments "word").textOr []
      label := []
      markdown := []
      source := "none" }

/-- Asks a pack for completion. -/
def packCompletion (hub : Hub) (name : Text) (pack : Pack) (arguments : Fields) :
    Except HubFault (List Event) :=
  match CompletionRequest.ofArguments arguments with
  | none => .error (.request .arguments)
  | some r => match pack.complete r with
    | .error fault => .error (.request fault)
    | .ok answer => .ok (hub.heard name fun speaker => .completion speaker answer)

/-- Asks a pack for documentation. -/
def packHover (hub : Hub) (name : Text) (pack : Pack) (arguments : Fields) :
    Except HubFault (List Event) :=
  match HoverRequest.ofArguments arguments with
  | none => .error (.request .arguments)
  | some r => match pack.hover r with
    | .error fault => .error (.request fault)
    | .ok answer => .ok (hub.heard name fun speaker => .hover speaker answer)

/-- The arguments of a request without the language, which is for the hub itself. -/
def withoutLanguage (arguments : Fields) : Fields :=
  arguments.filter fun (name, _) => name ≠ Text.ofString "language_id"

/-- A name that no argument can have: it stands for the one who is asked. -/
def reservedName : Text := "self"

def requestCompletion (hub : Hub) (arguments : Fields) : Except HubFault (List Event) :=
  let rest := withoutLanguage arguments
  if Fields.contains reservedName arguments then .error (.request .arguments)
  else match hub.providerOf (argument arguments "language_id") rest with
  | none => (emptyCompletion rest).map fun answer => [.completion .hub answer]
  | some name => match hub.provider name with
    | .pack pack => hub.packCompletion name pack rest
    | _ => (emptyCompletion rest).map fun answer => [.completion .hub answer]

def requestHover (hub : Hub) (arguments : Fields) : Except HubFault (List Event) :=
  let rest := withoutLanguage arguments
  if Fields.contains reservedName arguments then .error (.request .arguments)
  else match hub.providerOf (argument arguments "language_id") rest with
  | none => (emptyHover rest).map fun answer => [.hover .hub answer]
  | some name => match hub.provider name with
    | .pack pack => hub.packHover name pack rest
    | .recorder => .ok [.told name "request_hover" (.object rest)]
    | _ => (emptyHover rest).map fun answer => [.hover .hub answer]

/-- Asks one provider for completion, past the hub's routes. -/
def askCompletion (hub : Hub) (name : Text) (arguments : Fields) : Except HubFault (List Event) :=
  match hub.provider name with
  | .pack pack => hub.packCompletion name pack arguments
  | _ => .error .unsupported

/-- Asks one provider for documentation, past the hub's routes. -/
def askHover (hub : Hub) (name : Text) (arguments : Fields) : Except HubFault (List Event) :=
  match hub.provider name with
  | .pack pack => hub.packHover name pack arguments
  | .recorder =>
    if Fields.contains reservedName arguments then .error (.request .arguments)
    else .ok [.told name "request_hover" (.object arguments)]
  | _ => .error .unsupported

/-- Whether a provider supports being told of settings, of accepted texts and of the end. -/
def isTold (hub : Hub) (name : Text) : Bool :=
  match hub.provider name with
  | .pack _ => true
  | .recorder => true
  | _ => false

/-- Tells providers something that only a recorder keeps. -/
def tell (hub : Hub) (call : Text) (value : Value) (names : List Text) : List Event :=
  names.filterMap fun name => match hub.provider name with
    | .recorder => some (.told name call value)
    | _ => none

end Hub

end DhrWorkbench
