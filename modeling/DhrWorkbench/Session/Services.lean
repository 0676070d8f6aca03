import DhrWorkbench.Session

/-!
# Language services in a session

Registering providers with the hub, and binding the hub to a settings manager: from then on every
routed provider holds that manager's settings of completion.
-/

namespace DhrWorkbench

namespace Session

/-- Gives every routed provider settings of completion. -/
def configureProviders (s : Session) (value : Value) : Session :=
  let (hub, events) := s.hub.configure value
  { s with hub }.say events

/-- Gives one provider settings of completion. -/
def configureProvider (s : Session) (name : Text) (value : Value) : Except HubFault Session :=
  if s.hub.isTold name then
    let (hub, events) := s.hub.configureOne value name
    .ok ({ s with hub }.say events)
  else .error .unsupported

/-- Hands the settings of completion of the bound manager to a provider that takes them. -/
def follow (s : Session) (name : Text) : Except HubFault Unit × Session :=
  match s.hub.bound.bind s.manager? with
  | none => (.ok (), s)
  | some m =>
    if !s.hub.isTold name then (.ok (), s)
    else match m.completionSettings with
      | .error failure => (.error (.settings failure), s)
      | .ok settings =>
        let (hub, events) := s.hub.configureOne settings name
        (.ok (), { s with hub }.say events)

/-- Routes languages to a provider, which then follows the manager the hub is bound to. -/
def register (s : Session) (name : Text) (languages : Value) : Except HubFault Unit × Session :=
  match s.hub.provider name with
  | .absent => (.ok (), s)
  | _ =>
    match Hub.languagesOf languages with
    | none => (.error .languages, s)
    | some languages => { s with hub := s.hub.connect name languages }.follow name

/-- Takes the hub off the manager it is bound to. -/
def unbind (s : Session) : Session :=
  match s.hub.bound with
  | none => s
  | some name =>
    let s := match s.manager? name with
      | some m => s.withManager name (m.removeListener .hub)
      | none => s
    { s with hub := { s.hub with bound := none } }

/-- Binds the hub to a manager, also when its settings of completion cannot be handed on. -/
def bind (s : Session) (name : Text) : Except HubFault Unit × Session :=
  match s.unbind.manager? name with
  | none => (.ok (), s)
  | some m =>
    let s := s.unbind.withManager name (m.addListener .hub)
    let s := { s with hub := { s.hub with bound := some name } }
    match m.completionSettings with
    | .error failure => (.error (.settings failure), s)
    | .ok settings => (.ok (), s.configureProviders settings)

/-- Ends the language services. -/
def endServices (s : Session) : Session :=
  let s := s.unbind
  s.say (s.hub.tell "shutdown" .null s.hub.routed)

end Session

end DhrWorkbench
