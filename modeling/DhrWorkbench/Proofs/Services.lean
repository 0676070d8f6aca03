import DhrWorkbench.Proofs.CurrentToolchain
import DhrWorkbench.Proofs.HubRequests
import DhrWorkbench.Proofs.Notification
import Mathlib.Algebra.Order.BigOperators.Group.List

/-!
# Language services over time

Providers are registered, the hub is bound to one manager and then to another, settings change and
requests are made, in any order (`ServiceCall`). Through all of it a language is routed to the
provider that was registered for it last (`served_afterCalls`), and what the hub needs to answer
and to follow its manager is kept (`IsServing`): each routed pack is connected, once, the bound
manager tells the hub of changes, and the routed packs hold the settings of completion of that
manager. One step of this is telling the listeners of one manager of a change (`told_tellAllBy`).
-/

namespace DhrWorkbench

open Settings (Manager Listener Failure isUnder)

/-! ## Settings of completion -/

namespace Settings.Manager

theorem completionSettings_eq (m : Manager) : m.completionSettings
    = copied (orEmpty ((Fields.get? "completion" m.ide.data).getD (.object []))) := by
  have hparts : Fields.parts "completion" = [Text.ofString "completion"] := by decide
  rw [completionSettings, Store.get_of_part (by decide) hparts]

variable {m m' : Manager} {key : Text} {value : Value} {asked : Option Scope}

/-- Writing a key of another section leaves the settings of completion. -/
theorem completionSettings_of_write (h : m.write key value asked = .ok (some m'))
    (hunder : isUnder "completion" key = false) : m'.completionSettings = m.completionSettings := by
  obtain ⟨s, hset, rfl⟩ := exists_of_write h
  rw [completionSettings_eq, completionSettings_eq]
  cases htarget : targetScope key asked with
  | project => rfl
  | ide =>
    rw [htarget] at hset
    obtain ⟨data, hassign, rfl⟩ := Store.exists_of_written hset
    exact congrArg (fun v => copied (orEmpty (v.getD (.object []))))
      (get?_assign (by decide) hunder hassign)

theorem completionSettings_of_settle (h : m.settle key = .ok m') :
    m'.completionSettings = m.completionSettings := by
  unfold settle at h
  split_ifs at h
  · obtain ⟨-, rfl⟩ := normalise_eq h
    rfl
  · obtain rfl : m = m' := by simpa using h
    rfl

end Settings.Manager

/-- A key is under one section at most. -/
theorem Settings.isUnder_completion_of_toolchain {key : Text} (h : isUnder "dhrlang" key) :
    isUnder "completion" key = false := by
  by_contra hunder
  rw [Bool.not_eq_false] at hunder
  have hfirst := (isUnder_iff (by decide)).1 h
  rw [(isUnder_iff (by decide)).1 hunder] at hfirst
  exact absurd hfirst (by decide)

/-! ## Calls -/

/-- What is asked of the language services, or changes what they work with. -/
inductive ServiceCall
  | register (provider : Text) (languages : Value)
  | bind (manager : Text)
  | set (manager : Text) (key value : Value) (scope : Option Settings.Scope)
  | completion (arguments : Fields)
  | hover (arguments : Fields)

namespace Session

/-- The session in which a request was answered, or was not. -/
def answered (s : Session) : Except HubFault (List Event) → Session
  | .ok events => s.say events
  | .error _ => s

/-- The session after a call, also where the call fails. -/
def afterCall (s : Session) : ServiceCall → Session
  | .register provider languages => (s.register provider languages).2
  | .bind manager => (s.bind manager).2
  | .set manager key value scope => (s.perform (.set manager key value scope)).2
  | .completion arguments => s.answered (s.hub.requestCompletion arguments)
  | .hover arguments => s.answered (s.hub.requestHover arguments)

def afterCalls (s : Session) (calls : List ServiceCall) : Session := calls.foldl afterCall s

end Session

/-- The provider that a call registers for a language, given by its normal name, if it does. -/
def ServiceCall.registers? (hub : Hub) (language : Text) : ServiceCall → Option Text
  | .register provider languages =>
    match hub.provider provider, Hub.languagesOf languages with
    | .absent, _ => none
    | _, none => none
    | _, some languages =>
      if Text.isAmong language (Hub.normalNames languages) then some provider else none
  | _ => none

/-- The provider that was registered for a language last. -/
def ServiceCall.lastRegistered (hub : Hub) (language : Text) (calls : List ServiceCall) :
    Option Text :=
  (calls.filterMap (registers? hub language)).getLast?

namespace Session

/-! ## Following the bound manager -/

/-- The settings of completion that providers are to hold. -/
def boundSettings (s : Session) : Option Value :=
  (s.hub.bound.bind s.manager?).bind fun m => m.completionSettings.toOption

/-- Each pack that some language is routed to holds the settings of completion of the manager that
the hub is bound to, as far as these are an object that can be handed on. -/
def IsInStep (s : Session) : Prop :=
  ∀ fields, s.boundSettings = some (.object fields) → ∀ name ∈ s.hub.routed, ∀ pack,
    s.hub.provider name = .pack pack → pack.settings = fields

/-- What the hub needs to answer and to follow: observers that only watch, packs that are connected
and a bound manager that tells the hub of changes. -/
structure IsServing (s : Session) : Prop where
  silent : s.answersLeft = 0
  connected : s.hub.IsConnected
  listens : ∀ m, s.hub.bound.bind s.manager? = some m → .hub ∈ m.listeners

theorem IsServing.reconfigured {a b : Session} (ha : a.IsServing)
    (hmanagers : b.managers = a.managers) (hobservers : b.observers = a.observers)
    (hhub : Hub.Reconfigured a.hub b.hub) : b.IsServing := by
  refine ⟨?_, ha.connected.reconfigured hhub, fun m hm => ha.listens m ?_⟩
  · rw [← ha.silent]
    unfold answersLeft
    rw [hobservers]
  · unfold manager? at hm
    rwa [hmanagers, hhub.bound] at hm

theorem boundSettings_reconfigured {s : Session} {hub : Hub} (h : Hub.Reconfigured s.hub hub) :
    boundSettings { s with hub } = s.boundSettings := by
  unfold boundSettings
  rw [h.bound]
  rfl

theorem isInStep_configure {s : Session} {value : Value} (h : s.boundSettings = some value) :
    IsInStep { s with hub := (s.hub.configure value).1 } := by
  have hkept := s.hub.reconfigured_configure value
  intro fields hfields name hname pack hpack
  rw [boundSettings_reconfigured hkept] at hfields
  obtain rfl : value = .object fields := Option.some.inj (h.symm.trans hfields)
  have hrouted : name ∈ s.hub.routed := by
    rwa [Hub.routed, ← hkept.routes]
  exact Hub.settings_configureAll hrouted hpack

/-! ## Telling of a change -/

/-- What telling a listener can do here: nothing but to give packs settings, and only those of the
bound manager. -/
structure Told (s s' : Session) : Prop where
  managers : s'.managers = s.managers
  observers : s'.observers = s.observers
  hub : Hub.Reconfigured s.hub s'.hub
  inStep : s.IsInStep → s'.IsInStep

namespace Told

variable {a b c : Session}

theorem trans (hab : Told a b) (hbc : Told b c) : Told a c :=
  ⟨hbc.managers.trans hab.managers, hbc.observers.trans hab.observers, hab.hub.trans hbc.hub,
    hbc.inStep ∘ hab.inStep⟩

/-- Nothing else matters than managers, observers and the hub. -/
theorem of_eq (hmanagers : b.managers = a.managers) (hobservers : b.observers = a.observers)
    (hhub : b.hub = a.hub) : Told a b := by
  refine ⟨hmanagers, hobservers, hhub ▸ .refl a.hub, fun h => ?_⟩
  unfold IsInStep boundSettings manager? at h ⊢
  rwa [hmanagers, hhub]

theorem answersLeft (h : Told a b) : b.answersLeft = a.answersLeft := by
  unfold Session.answersLeft
  rw [h.observers]

theorem isServing (h : Told a b) (ha : a.IsServing) : b.IsServing :=
  ha.reconfigured h.managers h.observers h.hub

end Told

/-- What the hub does when it is told of a change: nothing, unless the change has to do with
completion and the settings can be handed on. -/
theorem hubFollows_cases (s : Session) (key : Text) :
    ((s.hubFollows key).2 = s ∧ (isUnder "completion" key → s.boundSettings = none))
    ∨ ∃ settings, s.boundSettings = some settings
      ∧ (s.hubFollows key).2
        = { s with hub := (s.hub.configure settings).1 }.say (s.hub.configure settings).2 := by
  unfold hubFollows boundSettings
  rcases s.hub.bound.bind s.manager? with _ | m
  · exact .inl ⟨rfl, fun _ => rfl⟩
  dsimp only
  split_ifs with hunder
  · rcases hsettings : m.completionSettings with failure | settings
    · exact .inl ⟨rfl, fun _ => by simp [hsettings, Except.toOption]⟩
    · exact .inr ⟨settings, by simp [hsettings, Except.toOption], rfl⟩
  · exact .inl ⟨rfl, fun h => absurd h hunder⟩

theorem told_hubFollows (s : Session) (key : Text) : Told s (s.hubFollows key).2 := by
  obtain ⟨hsame, -⟩ | ⟨settings, hsettings, hfollows⟩ := hubFollows_cases s key
  · rw [hsame]
    exact .of_eq rfl rfl rfl
  · rw [hfollows]
    exact ⟨rfl, rfl, s.hub.reconfigured_configure settings,
      fun _ => isInStep_configure hsettings⟩

/-- Told of a change that has to do with completion, the hub brings the packs in step. -/
theorem isInStep_hubFollows (s : Session) {key : Text} (hunder : isUnder "completion" key) :
    (s.hubFollows key).2.IsInStep := by
  obtain ⟨hsame, hnone⟩ | ⟨settings, hsettings, hfollows⟩ := hubFollows_cases s key
  · rw [hsame]
    intro fields hfields
    rw [hnone hunder] at hfields
    cases hfields
  · rw [hfollows]
    exact isInStep_configure hsettings

theorem takeAnswer_of_silent {s : Session} (h : s.answersLeft = 0) (observer : Text) :
    s.takeAnswer observer = ([], s) := by
  unfold takeAnswer
  split
  · rename_i known answer rest hfind
    have hmem := List.mem_map_of_mem (f := fun entry => answersAmong entry.2)
      (List.mem_of_find?_eq_some hfind)
    have hle := List.le_sum_of_mem hmem
    rw [← answersLeft_eq, h] at hle
    simp [answersAmong] at hle
  · rfl

section Nested

variable {perform : Action → Session → Except Failure Action.Outcome × Session} {key : Text}
  {number : ℕ}

theorem told_tellBy (l : Listener) {s : Session} (h : s.answersLeft = 0) :
    Told s (tellBy perform key number l s).2
      ∧ ((tellBy perform key number l s).1 = .ok () ∨ l = .hub) := by
  rcases l with observer | _ | _
  · have hsaid : (s.say [.observed observer key number]).answersLeft = 0 := h
    rw [tellBy, takeAnswer_of_silent hsaid]
    exact ⟨.of_eq rfl rfl rfl, .inl rfl⟩
  · exact ⟨told_hubFollows s key, .inr rfl⟩
  · refine ⟨?_, .inl rfl⟩
    simp only [tellBy, executionFollows]
    split
    · split_ifs
      · exact .of_eq rfl rfl rfl
      · exact .of_eq rfl rfl rfl
    · exact .of_eq rfl rfl rfl

/-- Whoever else listens, packs stay in step, and come to be so where the hub is told. -/
theorem told_tellAllBy : ∀ (ls : List Listener) {s : Session}, s.answersLeft = 0 →
    Told s (tellAllBy perform key number ls s).2
      ∧ (.hub ∈ ls → isUnder "completion" key → (tellAllBy perform key number ls s).2.IsInStep)
  | [], s, _ => ⟨.of_eq rfl rfl rfl, by simp⟩
  | l :: rest, s, h => by
    obtain ⟨hfirst, hgoes⟩ := @told_tellBy perform key number l s h
    have hhub : l = .hub → isUnder "completion" key →
        (tellBy perform key number l s).2.IsInStep := by
      rintro rfl hunder
      exact isInStep_hubFollows s hunder
    unfold tellAllBy
    rcases htell : tellBy perform key number l s with ⟨failure | _, s'⟩
    · -- only the hub can fail, and it does where there are no settings to be in step with
      rw [htell] at hfirst hgoes hhub
      exact ⟨hfirst, fun _ hunder => hhub (by simpa using hgoes) hunder⟩
    · rw [htell] at hfirst hhub
      obtain ⟨hrest, hlater⟩ := told_tellAllBy rest (hfirst.answersLeft.trans h)
      refine ⟨hfirst.trans hrest, fun hmem hunder => ?_⟩
      obtain rfl | hmem := List.mem_cons.1 hmem
      · exact hrest.inStep (hhub rfl hunder)
      · exact hlater hmem hunder

end Nested

/-! ## One call -/

/-- What a call comes to: what the hub needs is kept, the packs are in step, and routes change by
registering alone. -/
structure Served (call : ServiceCall) (s s' : Session) : Prop where
  serving : s'.IsServing
  inStep : s'.IsInStep
  providers : Hub.SameProviders s.hub s'.hub
  route : ∀ language,
    s'.hub.routeOf language = (call.registers? s.hub language).or (s.hub.routeOf language)

variable {s s' : Session} {call : ServiceCall}

theorem Served.unregistered (hserving : s'.IsServing) (hstep : s'.IsInStep)
    (hproviders : Hub.SameProviders s.hub s'.hub) (hroutes : s'.hub.routes = s.hub.routes)
    (hcall : ∀ language, call.registers? s.hub language = none) : Served call s s' := by
  refine ⟨hserving, hstep, hproviders, fun language => ?_⟩
  rw [hcall, Option.none_or, Hub.routeOf, hroutes]
  rfl

theorem Told.served (h : Told s s') (hs : s.IsServing) (hstep : s.IsInStep)
    (hcall : ∀ language, call.registers? s.hub language = none) : Served call s s' :=
  .unregistered (h.isServing hs) (h.inStep hstep) h.hub.providers h.hub.routes hcall

/-! ### Setting -/

section MoveOn

variable {name : Text} {m m' : Manager} (hm : s.manager? name = some m)
  (replaced : List Settings.Place)

include hm

theorem manager?_moveOn (other : Text) : (s.moveOn name replaced m').manager? other
    = if name = other then some m' else s.manager? other :=
  manager?_withManager hm m' other

theorem boundSettings_moveOn (h : s.hub.bound = some name →
    m'.completionSettings = m.completionSettings) :
    (s.moveOn name replaced m').boundSettings = s.boundSettings := by
  unfold boundSettings
  change (Option.bind s.hub.bound _).bind _ = _
  rcases hbound : s.hub.bound with _ | bound
  · rfl
  rw [Option.bind_some, Option.bind_some, manager?_moveOn hm]
  split_ifs with hname
  · subst hname
    rw [hm, Option.bind_some, Option.bind_some, h hbound]
  · rfl

theorem isServing_moveOn (hs : s.IsServing) (hlisteners : m'.listeners = m.listeners) :
    (s.moveOn name replaced m').IsServing := by
  refine ⟨hs.silent, hs.connected, fun found hfound => ?_⟩
  obtain ⟨bound, hbound, hfound⟩ := Option.bind_eq_some_iff.1 hfound
  rw [manager?_moveOn hm] at hfound
  split_ifs at hfound with hname
  · subst hname
    obtain rfl : m' = found := Option.some.inj hfound
    rw [hlisteners]
    exact hs.listens m (Option.bind_eq_some_iff.2 ⟨name, hbound, hm⟩)
  · exact hs.listens found (Option.bind_eq_some_iff.2 ⟨bound, hbound, hfound⟩)

end MoveOn

theorem IsInStep.congr (h : s.IsInStep) (hhub : s'.hub = s.hub)
    (hsettings : s'.boundSettings = s.boundSettings) : s'.IsInStep := by
  unfold IsInStep at h ⊢
  rwa [hhub, hsettings]

theorem served_setBy {perform : Action → Session → Except Failure Action.Outcome × Session}
    (hs : s.IsServing) (hstep : s.IsInStep) {name : Text} {m : Manager}
    (hm : s.manager? name = some m) (key : Text) (value : Value) (scope : Option Settings.Scope)
    (hcall : ∀ language, call.registers? s.hub language = none) :
    Served call s (setBy perform s m name key value scope).2 := by
  have hsame : Served call s s := (Told.of_eq rfl rfl rfl).served hs hstep hcall
  rw [setBy_eq]
  rcases hwrite : m.write key value scope with failure | _ | written
  · exact hsame
  · exact hsame
  dsimp only
  have hserving := isServing_moveOn hm [Manager.placeOf key scope] hs
    (Manager.listeners_of_write hwrite)
  have hbound : (s.hub.bound = some name → isUnder "completion" key = false) →
      (s.moveOn name [Manager.placeOf key scope] written).boundSettings = s.boundSettings :=
    fun hunder => boundSettings_moveOn hm _ fun hname =>
      Manager.completionSettings_of_write hwrite (hunder hname)
  rcases hsettle : written.settle key with failure | settled
  · -- settling fails for the toolchain only, which has nothing to do with completion
    have hunder : isUnder "dhrlang" key := by
      by_contra hunder
      simp [Manager.settle, hunder] at hsettle
    refine .unregistered hserving (hstep.congr rfl (hbound fun _ => ?_)) (.refl s.hub) rfl hcall
    exact Settings.isUnder_completion_of_toolchain hunder
  · dsimp only
    have hwritten : (s.moveOn name [Manager.placeOf key scope] written).manager? name
        = some written := by
      rw [manager?_moveOn hm, if_pos rfl]
    have hsettled := isServing_moveOn hwritten (written.replacedBySettle key) hserving
      (Manager.listeners_of_settle hsettle)
    have hannounced : (s.announced name key value scope written settled).IsServing :=
      hsettled.reconfigured rfl rfl (.refl s.hub)
    obtain ⟨htold, hfollows⟩ := @told_tellAllBy perform key s.handed.length m.listeners
      (s.announced name key value scope written settled) hannounced.silent
    refine .unregistered (htold.isServing hannounced) ?_ htold.hub.providers htold.hub.routes hcall
    -- a change that the bound manager makes to completion is followed, any other leaves the settings
    by_cases hown : s.hub.bound = some name ∧ isUnder "completion" key
    · exact hfollows (hs.listens m (by simp [hown.1, hm])) hown.2
    · refine htold.inStep (hstep.congr rfl ?_)
      have hsame : (s.announced name key value scope written settled).boundSettings
          = (s.moveOn name [Manager.placeOf key scope] written).boundSettings :=
        boundSettings_moveOn hwritten (written.replacedBySettle key) fun _ =>
          Manager.completionSettings_of_settle hsettle
      rw [hsame]
      exact hbound fun hname => by simpa [hname] using hown

theorem served_set (hs : s.IsServing) (hstep : s.IsInStep) (name : Text) (key value : Value)
    (scope : Option Settings.Scope) :
    Served (.set name key value scope) s (s.perform (.set name key value scope)).2 := by
  have hsame : Served (.set name key value scope) s s :=
    (Told.of_eq rfl rfl rfl).served hs hstep fun _ => rfl
  rw [perform, performTo_eq]
  rcases hm : s.manager? (managerOf (.set name key value scope)) with _ | m
  · exact hsame
  dsimp only [performOn]
  rcases keyText? key scope with _ | key
  · exact hsame
  · exact served_setBy hs hstep hm key value scope fun _ => rfl

/-! ### Registering and binding -/

/-- A provider takes the settings of the bound manager, if it is a pack and they can be handed
on. -/
theorem follow_cases (s : Session) (name : Text) :
    ((s.follow name).2 = s
      ∧ (s.boundSettings = none ∨ ∀ pack, s.hub.provider name ≠ .pack pack))
    ∨ ∃ settings, s.boundSettings = some settings
      ∧ (s.follow name).2 = { s with hub := (s.hub.configureOne settings name).1 }.say
        (s.hub.configureOne settings name).2 := by
  unfold follow boundSettings
  rcases s.hub.bound.bind s.manager? with _ | m
  · exact .inl ⟨rfl, .inl rfl⟩
  dsimp only
  split_ifs with htold
  · refine .inl ⟨rfl, .inr fun pack hpack => ?_⟩
    simp [Hub.isTold, hpack] at htold
  · rcases hsettings : m.completionSettings with failure | settings
    · exact .inl ⟨rfl, .inl (by simp [hsettings, Except.toOption])⟩
    · exact .inr ⟨settings, by simp [hsettings, Except.toOption], rfl⟩

/-- When all other packs are in step, a provider that follows brings the last one in step. -/
theorem isInStep_follow {name : Text} (h : ∀ fields, s.boundSettings = some (.object fields) →
      ∀ other ∈ s.hub.routed, other ≠ name → ∀ pack, s.hub.provider other = .pack pack →
        pack.settings = fields) : (s.follow name).2.IsInStep := by
  obtain ⟨hsame, hnone⟩ | ⟨settings, hsettings, hfollow⟩ := follow_cases s name
  · rw [hsame]
    intro fields hfields other hother pack hpack
    refine h fields hfields other hother ?_ pack hpack
    rintro rfl
    obtain hnone | hnone := hnone
    · rw [hnone] at hfields
      cases hfields
    · exact hnone pack hpack
  · rw [hfollow]
    have hkept := Hub.reconfigured_configureOne s.hub settings name
    intro fields hfields other hother pack hpack
    have hbound : s.boundSettings = some (.object fields) :=
      (boundSettings_reconfigured hkept).symm.trans hfields
    obtain rfl : settings = .object fields := Option.some.inj (hsettings.symm.trans hbound)
    by_cases hname : other = name
    · subst hname
      exact @Hub.settings_configureAll fields [other] s.hub other pack (by simp) hpack
    · refine h fields hbound other ?_ hname pack ?_
      · rwa [Hub.routed, ← hkept.routes]
      · rw [← hpack]
        exact (Hub.provider_configureOne_of_ne _ (Ne.symm hname)).symm

theorem reconfigured_follow (s : Session) (name : Text) :
    (s.follow name).2.managers = s.managers ∧ (s.follow name).2.observers = s.observers
      ∧ Hub.Reconfigured s.hub (s.follow name).2.hub := by
  obtain ⟨hsame, -⟩ | ⟨settings, -, hfollow⟩ := follow_cases s name
  · rw [hsame]
    exact ⟨rfl, rfl, .refl s.hub⟩
  · rw [hfollow]
    exact ⟨rfl, rfl, Hub.reconfigured_configureOne s.hub settings name⟩

/-- What registering can do: nothing, or to route languages to a provider, which then follows. -/
theorem register_cases (s : Session) (name : Text) (languages : Value) :
    ((s.register name languages).2 = s
      ∧ ∀ language, ServiceCall.registers? s.hub language (.register name languages) = none)
    ∨ ∃ names, (s.register name languages).2
        = ({ s with hub := s.hub.connect name names }.follow name).2
      ∧ ∀ language, ServiceCall.registers? s.hub language (.register name languages)
        = if Text.isAmong language (Hub.normalNames names) then some name else none := by
  unfold register ServiceCall.registers?
  dsimp only
  rcases s.hub.provider name with pack | _ | _ | _
  case absent => exact .inl ⟨rfl, fun _ => rfl⟩
  all_goals
    rcases Hub.languagesOf languages with _ | names
    · exact .inl ⟨rfl, fun _ => rfl⟩
    · exact .inr ⟨names, rfl, fun _ => rfl⟩

theorem served_register (hs : s.IsServing) (hstep : s.IsInStep) (name : Text) (languages : Value) :
    Served (.register name languages) s (s.register name languages).2 := by
  obtain ⟨hsame, hnone⟩ | ⟨names, hregister, hcall⟩ := register_cases s name languages
  · rw [hsame]
    exact (Told.of_eq rfl rfl rfl).served hs hstep hnone
  rw [hregister]
  obtain ⟨hmanagers, hobservers, hkept⟩ :=
    reconfigured_follow { s with hub := s.hub.connect name names } name
  have hserving : IsServing { s with hub := s.hub.connect name names } :=
    ⟨hs.silent, hs.connected.connect name names, hs.listens⟩
  refine ⟨hserving.reconfigured hmanagers hobservers hkept,
    isInStep_follow fun fields hfields other hother hne pack hpack => ?_, hkept.providers,
    fun language => ?_⟩
  · exact hstep fields hfields other ((Hub.mem_routed_connect hother).resolve_left hne) pack hpack
  · rw [hcall, Hub.routeOf, hkept.routes]
    refine (Hub.routeOf_connect s.hub name names language).trans ?_
    split_ifs <;> rfl

theorem unbind_hub (s : Session) : s.unbind.hub = { s.hub with bound := none } := by
  unfold unbind
  rcases hbound : s.hub.bound with _ | name
  · exact congrArg (fun bound => { s.hub with bound }) hbound
  · dsimp only
    rcases s.manager? name with _ | m <;> rfl

theorem unbind_observers (s : Session) : s.unbind.observers = s.observers := by
  unfold unbind
  rcases s.hub.bound with _ | name
  · rfl
  · dsimp only
    rcases s.manager? name with _ | m <;> rfl

theorem completionSettings_addListener (m : Manager) (l : Listener) :
    (m.addListener l).completionSettings = m.completionSettings := by
  unfold Manager.addListener
  split_ifs <;> rfl

/-- The session in which the hub is bound to a manager, before it hands on its settings. -/
def boundTo (s : Session) (name : Text) (m : Manager) : Session :=
  { s.unbind.withManager name (m.addListener .hub) with
    hub := { s.unbind.hub with bound := some name } }

section Bound

variable {name : Text} {m : Manager} (hm : s.unbind.manager? name = some m)

include hm

theorem manager?_boundTo : (s.boundTo name m).hub.bound.bind (s.boundTo name m).manager?
    = some (m.addListener .hub) :=
  (manager?_withManager hm (m.addListener .hub) name).trans (if_pos rfl)

theorem boundSettings_boundTo :
    (s.boundTo name m).boundSettings = m.completionSettings.toOption := by
  rw [boundSettings, manager?_boundTo hm, Option.bind_some, completionSettings_addListener]

/-- Bound to a manager, the hub is told of its changes. -/
theorem isServing_boundTo (hs : s.IsServing) : (s.boundTo name m).IsServing := by
  have hhub : (s.boundTo name m).hub = { s.hub with bound := some name } := by
    rw [boundTo, unbind_hub]
  refine ⟨?_, ?_, fun found hfound => ?_⟩
  · rw [← hs.silent]
    unfold answersLeft
    rw [← unbind_observers s]
    rfl
  · rw [hhub]
    exact ⟨hs.connected.nodup, hs.connected.routed⟩
  · rw [manager?_boundTo hm] at hfound
    obtain rfl := Option.some.inj hfound
    rw [Manager.listeners_addListener]
    split_ifs with hmem
    · exact hmem
    · simp

end Bound

theorem bind_eq (s : Session) {name : Text} {m : Manager} (hm : s.unbind.manager? name = some m) :
    (s.bind name).2 = match m.completionSettings with
      | .error _ => s.boundTo name m
      | .ok settings => (s.boundTo name m).configureProviders settings := by
  unfold bind
  rw [hm]
  dsimp only
  rcases m.completionSettings with failure | settings <;> rfl

theorem served_bind (hs : s.IsServing) (hstep : s.IsInStep) (name : Text) :
    Served (.bind name) s (s.bind name).2 := by
  rcases hm : s.unbind.manager? name with _ | m
  · rw [bind, hm]
    exact (Told.of_eq rfl rfl rfl).served hs hstep fun _ => rfl
  rw [bind_eq s hm]
  have hserving := isServing_boundTo hm hs
  have hsettings := boundSettings_boundTo hm
  have hroutes : (s.boundTo name m).hub.routes = s.hub.routes := by
    rw [boundTo, unbind_hub]
  have hproviders : Hub.SameProviders s.hub (s.boundTo name m).hub := by
    rw [boundTo, unbind_hub]
    exact fun _ => .inl rfl
  rcases hcopied : m.completionSettings with failure | settings
  · rw [hcopied] at hsettings
    refine .unregistered hserving (fun fields hfields => ?_) hproviders hroutes fun _ => rfl
    cases hsettings.symm.trans hfields
  · rw [hcopied] at hsettings
    have hkept := (s.boundTo name m).hub.reconfigured_configure settings
    exact .unregistered (hserving.reconfigured rfl rfl hkept) (isInStep_configure hsettings)
      (hproviders.trans hkept.providers) (hkept.routes.trans hroutes) fun _ => rfl

/-! ## All calls -/

theorem served_afterCall (hs : s.IsServing) (hstep : s.IsInStep) :
    ∀ call, Served call s (s.afterCall call)
  | .register name languages => served_register hs hstep name languages
  | .bind name => served_bind hs hstep name
  | .set name key value scope => served_set hs hstep name key value scope
  | .completion arguments => by
    refine Told.served ?_ hs hstep fun _ => rfl
    rw [afterCall]
    rcases s.hub.requestCompletion arguments <;> exact .of_eq rfl rfl rfl
  | .hover arguments => by
    refine Told.served ?_ hs hstep fun _ => rfl
    rw [afterCall]
    rcases s.hub.requestHover arguments <;> exact .of_eq rfl rfl rfl

/-- It does not matter what settings packs hold. -/
theorem registers?_congr {hub hub' : Hub} (h : Hub.SameProviders hub hub') (language : Text) :
    ServiceCall.registers? hub' language call = ServiceCall.registers? hub language call := by
  rcases call with ⟨name, languages⟩ | _ | _ | _ | _
  case register =>
    unfold ServiceCall.registers?
    dsimp only
    obtain hsame | ⟨pack, settings, hpack, hpack'⟩ := h name
    · rw [hsame]
    · rw [hpack, hpack']
      rcases Hub.languagesOf languages <;> rfl
  all_goals rfl

/-- After any calls, a language is routed to the provider that was registered for it last. -/
theorem served_afterCalls (hs : s.IsServing) (hstep : s.IsInStep) (calls : List ServiceCall) :
    (s.afterCalls calls).IsServing ∧ (s.afterCalls calls).IsInStep
      ∧ Hub.SameProviders s.hub (s.afterCalls calls).hub
      ∧ ∀ language, (s.afterCalls calls).hub.routeOf language
        = (ServiceCall.lastRegistered s.hub language calls).or (s.hub.routeOf language) := by
  -- from the end, because the last call that registers for a language decides
  induction calls using List.reverseRecOn with
  | nil => exact ⟨hs, hstep, .refl s.hub, fun _ => rfl⟩
  | append_singleton calls call ih =>
    obtain ⟨hserving, hinStep, hproviders, hroute⟩ := ih
    have hserved := served_afterCall hserving hinStep call
    rw [afterCalls, List.foldl_concat]
    refine ⟨hserved.serving, hserved.inStep, hproviders.trans hserved.providers, fun language => ?_⟩
    have hlast : ServiceCall.lastRegistered s.hub language (calls ++ [call])
        = (ServiceCall.registers? s.hub language call).or
          (ServiceCall.lastRegistered s.hub language calls) := by
      unfold ServiceCall.lastRegistered
      rw [List.filterMap_append, List.getLast?_append, List.filterMap_cons]
      rcases ServiceCall.registers? s.hub language call with _ | name <;> rfl
    rw [hlast, Option.or_assoc, ← hroute, ← registers?_congr hproviders]
    exact hserved.route language

end Session

end DhrWorkbench
