import DhrWorkbench.Hub
import DhrWorkbench.Proofs.Documents

/-!
# Requests to the hub

A language is routed to the provider that was registered for it last (`routeOf_connect`), and a
provider is connected at most once, whatever it is registered for (`nodup_connect`). So a request
that is given its arguments is answered by the hub once: by the pack that its language is routed to
(`requestCompletion_routed`, `requestHover_routed`), or with nothing where there is none
(`requestCompletion_unrouted`, `requestHover_unrouted`). New settings change nothing of a hub but
the settings that packs hold (`Reconfigured`).
-/

namespace DhrWorkbench

/-! ## Arguments -/

/-- What an argument of a request is given as. -/
inductive ArgumentKind
  | text
  /-- An integer, or a truth value, which counts as one. -/
  | integer
  deriving DecidableEq

def ArgumentKind.Admits : ArgumentKind → Value → Prop
  | .text, v => ∃ t, v = .str t
  | .integer, v => ∃ n, v.integer? = some n

/-- The arguments of a request by their names, beside the language that it may be given. -/
structure Signature where
  required : List (Text × ArgumentKind)
  optional : List Text

namespace Signature

def names (σ : Signature) : List Text := σ.required.map (·.1) ++ σ.optional

/-- All arguments that are required are given and are of their kinds, and no others are given than
those that are known; a language is given as text, or as nothing. -/
structure Valid (σ : Signature) (arguments : Fields) : Prop where
  required : ∀ p ∈ σ.required, ∃ v, Fields.get? p.1 arguments = some v ∧ p.2.Admits v
  language : ∀ v, Fields.get? "language_id" arguments = some v → v = .null ∨ ∃ t, v = .str t
  known : ∀ name ∈ Fields.keys arguments, name = Text.ofString "language_id" ∨ name ∈ σ.names

def completion : Signature where
  required := [("file_path", .text), ("source_text", .text), ("line", .integer),
    ("column", .integer), ("prefix", .text), ("token", .integer)]
  optional := ["reason", "trigger_char"]

def hover : Signature where
  required := [("file_path", .text), ("source_text", .text), ("line", .integer),
    ("column", .integer), ("token", .integer)]
  optional := ["word"]

end Signature

/-- The language that a request on a file is about: the one it is given, unless that is empty, or
else the language of the file. -/
def requestedLanguage (arguments : Fields) (file : Text) : Text :=
  match Fields.get? "language_id" arguments with
  | some (.str (c :: t)) => Language.normalName (c :: t)
  | _ => Language.ofPath file Language.plain

theorem Value.toInt_of_integer? {v : Value} {n : Int} (h : v.integer? = some n) :
    v.toInt = .ok n := by
  cases v <;> simp_all [integer?, toInt]

namespace Position

theorem integerOr_of_integer? {v : Value} {n : Int} (h : v.integer? = some n) (absent : Int) :
    ∃ k, integerOr absent v = .ok k := by
  unfold integerOr
  split
  · exact ⟨n, Value.toInt_of_integer? h⟩
  · exact ⟨absent, rfl⟩

theorem exists_offsetOf {line column : Value} {l c : Int} (hline : line.integer? = some l)
    (hcolumn : column.integer? = some c) (t : Text) : ∃ k, offsetOf t line column = .ok k := by
  obtain ⟨l', hl'⟩ := integerOr_of_integer? hline 1
  obtain ⟨c', hc'⟩ := integerOr_of_integer? hcolumn 0
  simp only [offsetOf, hl', hc']
  split
  · exact ⟨_, rfl⟩
  · exact ⟨_, rfl⟩

end Position

namespace Language

/-- The languages of files are named by their normal names. -/
theorem normalName_ofPath (path : Text) :
    normalName (ofPath path plain) = ofPath path plain := by
  have hplain : normalName (fallback plain) = fallback plain := by decide
  unfold ofPath
  dsimp only
  split
  · exact hplain
  split
  · rename_i language hfind
    have hmem := List.mem_of_find?_eq_some hfind
    simp only [byExtension, List.mem_cons, Prod.mk.injEq, List.not_mem_nil, or_false] at hmem
    obtain ⟨-, rfl⟩ | ⟨-, rfl⟩ | ⟨-, rfl⟩ := hmem <;> decide
  · exact hplain

end Language

namespace Hub

/-! ## Routes and connections -/

/-- The provider that a language is routed to, by the language's normal name. -/
def routeOf (hub : Hub) (language : Text) : Option Text :=
  (hub.routes.find? (·.1 = language)).map (·.2)

theorem providerFor_eq (hub : Hub) (language : Value) :
    hub.providerFor language = hub.routeOf (Language.normalName (language.textOr [])) := rfl

theorem find?_route (language provider other : Text) : ∀ routes : List (Text × Text),
    ((route language provider routes).find? (·.1 = other)).map (·.2)
      = if language = other then some provider else (routes.find? (·.1 = other)).map (·.2)
  | [] => by
    by_cases h : language = other <;> simp [route, h]
  | (l, p) :: rest => by
    have ih := find?_route language provider other rest
    rw [route]
    by_cases hl : l = language
    · subst hl
      by_cases h : l = other <;> simp [h]
    · by_cases h : l = other
      · subst h
        simp [hl, Ne.symm hl]
      · simpa [hl, h] using ih

theorem find?_foldl_route (provider other : Text) : ∀ (names : List Text)
    (routes : List (Text × Text)),
    ((names.foldl (fun routes l => route l provider routes) routes).find? (·.1 = other)).map (·.2)
      = if Text.isAmong other names then some provider
        else (routes.find? (·.1 = other)).map (·.2)
  | [], routes => rfl
  | name :: rest, routes => by
    rw [List.foldl_cons, find?_foldl_route provider other rest, find?_route]
    by_cases hrest : Text.isAmong other rest
    · simp_all [Text.isAmong]
    · by_cases hname : name = other <;> simp_all [Text.isAmong]

/-- The normal names of languages, less the blank ones. -/
def normalNames (languages : List Text) : List Text :=
  (languages.map Language.normalName).filter fun l => !l.isEmpty

variable {hub : Hub} {name : Text}

/-- Languages are routed to the provider that they are registered for; others stay as they were. -/
theorem routeOf_connect (hub : Hub) (name : Text) (languages : List Text) (other : Text) :
    (hub.connect name languages).routeOf other
      = if Text.isAmong other (normalNames languages) then some name else hub.routeOf other :=
  find?_foldl_route name other (normalNames languages) hub.routes

theorem mem_routed_of_routeOf {language : Text} (h : hub.routeOf language = some name) :
    name ∈ hub.routed := by
  obtain ⟨entry, hfind, rfl⟩ := Option.map_eq_some_iff.1 h
  rw [routed, List.mem_eraseDups]
  exact List.mem_map_of_mem (List.mem_of_find?_eq_some hfind)

theorem mem_route {language provider other : Text} : ∀ {routes : List (Text × Text)},
    other ∈ (route language provider routes).map (·.2) →
      other = provider ∨ other ∈ routes.map (·.2)
  | [], h => by simpa [route] using h
  | (l, p) :: rest, h => by
    rw [route] at h
    split_ifs at h
    · simp only [List.map_cons, List.mem_cons] at h ⊢
      tauto
    · simp only [List.map_cons, List.mem_cons] at h ⊢
      obtain rfl | hrest := h
      · exact .inr (.inl rfl)
      · exact (mem_route hrest).imp_right .inr

/-- No other provider comes to be routed than the one that is registered. -/
theorem mem_routed_connect {languages : List Text} {other : Text}
    (h : other ∈ (hub.connect name languages).routed) : other = name ∨ other ∈ hub.routed := by
  rw [routed, List.mem_eraseDups] at h ⊢
  have hfold : ∀ (names : List Text) (routes : List (Text × Text)),
      other ∈ (names.foldl (fun routes l => route l name routes) routes).map (·.2) →
        other = name ∨ other ∈ routes.map (·.2) := by
    intro names
    induction names with
    | nil => exact fun routes => .inr
    | cons l rest ih =>
      intro routes hmem
      obtain rfl | hmem := ih _ hmem
      · exact .inl rfl
      · exact mem_route hmem
  exact hfold _ _ h

/-- A provider comes to be connected at most once. -/
theorem connected_connect (hub : Hub) (name : Text) (languages : List Text) :
    (hub.connect name languages).connected = hub.connected
      ∨ name ∉ hub.connected
        ∧ (hub.connect name languages).connected = hub.connected ++ [name] := by
  unfold connect
  dsimp only
  split
  · split_ifs with hamong
    · exact .inl rfl
    · exact .inr ⟨fun hmem => hamong (Text.isAmong_iff.2 hmem), rfl⟩
  · exact .inl rfl

theorem nodup_connect (h : hub.connected.Nodup) (languages : List Text) :
    (hub.connect name languages).connected.Nodup := by
  obtain hsame | ⟨hnew, hjoined⟩ := connected_connect hub name languages
  · rwa [hsame]
  · rw [hjoined]
    refine List.nodup_append.2 ⟨h, by simp, ?_⟩
    rintro a ha b hb rfl
    exact hnew (List.mem_singleton.1 hb ▸ ha)

theorem subset_connect (hub : Hub) (name : Text) (languages : List Text) :
    hub.connected ⊆ (hub.connect name languages).connected := by
  obtain hsame | ⟨-, hjoined⟩ := connected_connect hub name languages
  · rw [hsame]
    exact List.Subset.refl _
  · rw [hjoined]
    exact List.subset_append_left _ _

theorem mem_connect {pack : Pack} (h : hub.provider name = .pack pack) (languages : List Text) :
    name ∈ (hub.connect name languages).connected := by
  simp only [connect, h]
  split_ifs with hamong
  · exact Text.isAmong_iff.1 hamong
  · simp

/-- Each pack that some language is routed to is connected, and nothing is connected twice. -/
structure IsConnected (hub : Hub) : Prop where
  nodup : hub.connected.Nodup
  routed : ∀ name ∈ hub.routed, ∀ pack, hub.provider name = .pack pack → name ∈ hub.connected

theorem IsConnected.connect (h : hub.IsConnected) (name : Text) (languages : List Text) :
    (hub.connect name languages).IsConnected := by
  refine ⟨nodup_connect h.nodup languages, fun other hother pack hpack => ?_⟩
  obtain rfl | hother := mem_routed_connect hother
  · exact @mem_connect hub other pack hpack languages
  · exact subset_connect hub name languages (h.routed other hother pack hpack)

/-! ## Settings of packs -/

theorem provider_withProvider {p : Provider} (h : hub.provider name ≠ .absent) (other : Text) :
    (hub.withProvider name p).provider other = if name = other then p else hub.provider other := by
  have hnames : (fun entry : Text × Provider => decide (entry.1 = other))
      ∘ (fun entry => if entry.1 = name then (name, p) else entry)
      = fun entry => decide (entry.1 = other) := by
    funext entry
    simp only [Function.comp_apply]
    split_ifs with hname
    · rw [hname]
    · rfl
  unfold provider at h ⊢
  unfold withProvider
  rw [List.find?_map, hnames]
  split_ifs with hname
  · subst hname
    rcases hfind : hub.providers.find? (fun entry => decide (entry.1 = name)) with _ | entry
    · simp [hfind] at h
    · have hentry : entry.1 = name := by simpa using List.find?_some hfind
      simp [hfind, hentry]
  · rcases hfind : hub.providers.find? (fun entry => decide (entry.1 = other)) with _ | entry
    · rw [hfind]
      rfl
    · have hentry : entry.1 = other := by simpa using List.find?_some hfind
      simp [hfind, hentry, Ne.symm hname]

/-- Providers are the same but for the settings that packs hold. -/
def SameProviders (hub hub' : Hub) : Prop :=
  ∀ name, hub'.provider name = hub.provider name
    ∨ ∃ pack settings, hub.provider name = .pack pack
      ∧ hub'.provider name = .pack { pack with settings }

theorem SameProviders.refl (hub : Hub) : SameProviders hub hub := fun _ => .inl rfl

theorem SameProviders.trans {a b c : Hub} (hab : SameProviders a b) (hbc : SameProviders b c) :
    SameProviders a c := by
  intro name
  obtain hb | ⟨pack, settings, hpack, hb⟩ := hab name
  · rw [← hb]
    exact hbc name
  · obtain hc | ⟨pack', settings', hpack', hc⟩ := hbc name
    · exact .inr ⟨pack, settings, hpack, hc.trans hb⟩
    · obtain rfl : { pack with settings } = pack' := by simpa using hb.symm.trans hpack'
      exact .inr ⟨pack, settings', hpack, hc⟩

theorem SameProviders.exists_settings {hub hub' : Hub} {pack : Pack} (h : SameProviders hub hub')
    (hpack : hub.provider name = .pack pack) :
    ∃ settings, hub'.provider name = .pack { pack with settings } := by
  obtain hsame | ⟨old, settings, hold, hnow⟩ := h name
  · exact ⟨pack.settings, hsame.trans hpack⟩
  · obtain rfl : pack = old := by simpa using hpack.symm.trans hold
    exact ⟨settings, hnow⟩

/-- The hubs differ at most in the settings that packs hold. -/
structure Reconfigured (hub hub' : Hub) : Prop where
  routes : hub'.routes = hub.routes
  connected : hub'.connected = hub.connected
  bound : hub'.bound = hub.bound
  providers : SameProviders hub hub'

theorem Reconfigured.refl (hub : Hub) : Reconfigured hub hub := ⟨rfl, rfl, rfl, .refl hub⟩

theorem Reconfigured.trans {a b c : Hub} (hab : Reconfigured a b) (hbc : Reconfigured b c) :
    Reconfigured a c :=
  ⟨hbc.routes.trans hab.routes, hbc.connected.trans hab.connected, hbc.bound.trans hab.bound,
    hab.providers.trans hbc.providers⟩

theorem IsConnected.reconfigured {hub' : Hub} (h : hub.IsConnected)
    (hkept : Reconfigured hub hub') : hub'.IsConnected := by
  refine ⟨hkept.connected ▸ h.nodup, fun name hname pack hpack => ?_⟩
  rw [hkept.connected]
  rw [Hub.routed, hkept.routes] at hname
  obtain hsame | ⟨old, settings, hold, -⟩ := hkept.providers name
  · exact h.routed name hname pack (hsame ▸ hpack)
  · exact h.routed name hname old hold

theorem provider_configureOne_of_ne (value : Value) {other : Text} (h : name ≠ other) :
    (hub.configureOne value name).1.provider other = hub.provider other := by
  unfold configureOne
  split
  · rename_i pack hpack
    rw [provider_withProvider (by simp [hpack]), if_neg h]
  · rfl
  · rfl

theorem provider_configureOne {pack : Pack} (h : hub.provider name = .pack pack) (value : Value) :
    (hub.configureOne value name).1.provider name = .pack (pack.configure value) := by
  simp only [configureOne, h]
  rw [provider_withProvider (by simp [h]), if_pos rfl]

theorem reconfigured_configureOne (hub : Hub) (value : Value) (name : Text) :
    Reconfigured hub (hub.configureOne value name).1 := by
  rcases hp : hub.provider name with pack | _ | _ | _
  · refine ⟨by simp [configureOne, hp, withProvider], by simp [configureOne, hp, withProvider],
      by simp [configureOne, hp, withProvider], fun other => ?_⟩
    by_cases hname : name = other
    · subst hname
      rw [provider_configureOne hp]
      obtain ⟨settings, hsettings⟩ :
          ∃ settings, pack.configure value = { pack with settings } := by
        cases value <;> exact ⟨_, rfl⟩
      exact .inr ⟨pack, settings, hp, by rw [hsettings]⟩
    · exact .inl (provider_configureOne_of_ne value hname)
  all_goals
    simp only [configureOne, hp]
    exact .refl hub

theorem reconfigured_configureAll (value : Value) : ∀ (names : List Text) (hub : Hub),
    Reconfigured hub (configureAll value names hub).1
  | [], hub => .refl hub
  | name :: rest, hub =>
    (reconfigured_configureOne hub value name).trans (reconfigured_configureAll value rest _)

theorem reconfigured_configure (hub : Hub) (value : Value) :
    Reconfigured hub (hub.configure value).1 :=
  reconfigured_configureAll value hub.routed hub

theorem provider_configureAll_of_notMem (value : Value) : ∀ {names : List Text} {hub : Hub}
    {name : Text}, name ∉ names →
      (configureAll value names hub).1.provider name = hub.provider name
  | [], _, _, _ => rfl
  | first :: rest, hub, name, h => by
    rw [List.mem_cons, not_or] at h
    rw [configureAll]
    exact (provider_configureAll_of_notMem value h.2).trans
      (provider_configureOne_of_ne value (Ne.symm h.1))

/-- Each pack among those that are given settings holds them afterwards. -/
theorem settings_configureAll {fields : Fields} : ∀ {names : List Text} {hub : Hub} {name : Text}
    {pack : Pack}, name ∈ names →
      (configureAll (.object fields) names hub).1.provider name = .pack pack →
      pack.settings = fields
  | first :: rest, hub, name, pack, hmem, hpack => by
    rw [configureAll] at hpack
    -- a name may stand there more than once, and the last time counts
    by_cases hrest : name ∈ rest
    · exact settings_configureAll hrest hpack
    obtain rfl : name = first := by simpa [hrest] using hmem
    rw [provider_configureAll_of_notMem _ hrest] at hpack
    rcases hold : hub.provider name with old | _ | _ | _
    case pack =>
      rw [provider_configureOne hold] at hpack
      obtain rfl : old.configure (.object fields) = pack := by simpa using hpack
      rfl
    all_goals simp [configureOne, hold] at hpack

/-! ## Answers -/

end Hub

/-- Whether the hub says something. -/
def Event.isOfHub : Event → Bool
  | .completion .hub _ => true
  | .hover .hub _ => true
  | .said .hub _ => true
  | _ => false

/-- A request goes well, and all that the hub says is one event. -/
def SaysOnly (heard : Except HubFault (List Event)) (event : Event) : Prop :=
  ∃ events, heard = .ok events ∧ events.filter Event.isOfHub = [event]

namespace Signature

variable {σ : Signature} {arguments : Fields}

/-- An integer that is required is given. -/
theorem exists_integer (h : σ.Valid arguments) (name : Text)
    (hname : (name, .integer) ∈ σ.required) : ∃ n, (argument arguments name).integer? = some n := by
  obtain ⟨v, hv, n, hn⟩ := h.required _ hname
  exact ⟨n, by rw [argument, hv]; exact hn⟩

theorem get?_withoutLanguage {name : Text} (h : name ≠ Text.ofString "language_id") :
    ∀ arguments : Fields,
      Fields.get? name (Hub.withoutLanguage arguments) = Fields.get? name arguments
  | [] => rfl
  | (k, v) :: rest => by
    have ih := get?_withoutLanguage h rest
    unfold Hub.withoutLanguage at ih ⊢
    by_cases hk : k = Text.ofString "language_id"
    · rw [List.filter_cons_of_neg (by simpa using hk), ih, Fields.get?_cons,
        if_neg fun hname : k = name => h (hname.symm.trans hk)]
    · rw [List.filter_cons_of_pos (by simpa using hk), Fields.get?_cons, Fields.get?_cons, ih]

theorem argument_withoutLanguage {name : Text} (h : name ≠ Text.ofString "language_id")
    (arguments : Fields) :
    argument (Hub.withoutLanguage arguments) name = argument arguments name := by
  unfold argument
  rw [get?_withoutLanguage h]

theorem acceptArguments_withoutLanguage (h : σ.Valid arguments)
    (hlanguage : Text.ofString "language_id" ∉ σ.required.map (·.1)) :
    acceptArguments (σ.required.map (·.1)) σ.optional (Hub.withoutLanguage arguments)
      = some (Hub.withoutLanguage arguments) := by
  have hrequired : (σ.required.map (·.1)).all fun name =>
      Fields.contains name (Hub.withoutLanguage arguments) := by
    refine List.all_eq_true.2 fun name hname => ?_
    obtain ⟨p, hp, rfl⟩ := List.mem_map.1 hname
    obtain ⟨v, hv, -⟩ := h.required p hp
    have hne : p.1 ≠ Text.ofString "language_id" := fun heq => hlanguage (heq ▸ hname)
    simp [Fields.contains, get?_withoutLanguage hne, hv]
  have hknown : (Fields.keys (Hub.withoutLanguage arguments)).all fun name =>
      Text.isAmong name (σ.required.map (·.1)) || Text.isAmong name σ.optional := by
    refine List.all_eq_true.2 fun name hname => ?_
    obtain ⟨⟨k, v⟩, hentry, rfl⟩ := List.mem_map.1 hname
    obtain ⟨hmem, hne⟩ := List.mem_filter.1 hentry
    obtain heq | hamong := h.known k (List.mem_map.2 ⟨_, hmem, rfl⟩)
    · simp [heq] at hne
    · rw [Bool.or_eq_true, Text.isAmong_iff, Text.isAmong_iff, ← List.mem_append]
      exact hamong
  rw [acceptArguments, if_pos (by rw [hrequired, hknown]; rfl)]

end Signature

namespace Pack

/-- A request whose numbers are numbers is answered, with all of the catalog or with nothing. -/
theorem exists_complete (p : Pack) {r : CompletionRequest} {line column token : Int}
    (hline : r.line.integer? = some line) (hcolumn : r.column.integer? = some column)
    (htoken : r.token.integer? = some token) :
    ∃ answer, p.complete r = .ok answer ∧ answer.file = r.file.textOr []
      ∧ answer.items = if p.completes r.reason then p.catalog.entries.map Candidate.ofEntry
        else [] := by
  obtain ⟨k, hk⟩ := Position.exists_offsetOf hline hcolumn (r.source.textOr [])
  have hoffset : offsetOf r.source r.line r.column = .ok k := by rw [offsetOf, hk]; rfl
  have htoken' : tokenOf r.token = .ok (max 1 token) := by
    simp only [tokenOf, Value.toInt_of_integer? htoken]
  unfold complete
  rw [hoffset, htoken']
  exact ⟨_, rfl, rfl, rfl⟩

theorem exists_hover (p : Pack) {r : HoverRequest} {line column token : Int}
    (hline : r.line.integer? = some line) (hcolumn : r.column.integer? = some column)
    (htoken : r.token.integer? = some token) :
    ∃ answer, p.hover r = .ok answer ∧ answer.file = r.file.textOr [] := by
  obtain ⟨k, hk⟩ := Position.exists_offsetOf hline hcolumn (r.source.textOr [])
  have hoffset : offsetOf r.source r.line r.column = .ok k := by rw [offsetOf, hk]; rfl
  obtain ⟨word, hword⟩ : ∃ word, p.wordOf r = .ok word := by
    unfold wordOf
    rw [hoffset]
    split
    · exact ⟨_, rfl⟩
    · exact ⟨_, rfl⟩
  have htoken' : tokenOf r.token = .ok (max 1 token) := by
    simp only [tokenOf, Value.toInt_of_integer? htoken]
  unfold hover
  rw [hword, htoken']
  exact ⟨_, rfl, rfl⟩

end Pack

namespace Hub

variable {hub : Hub} {name file : Text} {arguments : Fields} {σ : Signature}

/-- What a pack says is passed on once if it is connected once. -/
theorem saysOnly_heard (hnodup : hub.connected.Nodup) (hmem : name ∈ hub.connected)
    {event : Speaker → Event} (hhub : (event .hub).isOfHub)
    (hprovider : (event (.provider name)).isOfHub = false) :
    SaysOnly (.ok (hub.heard name event)) (event .hub) := by
  have honce : hub.connected.filter (· = name) = [name] := by
    rw [List.filter_eq, hnodup.count, if_pos hmem]
    rfl
  refine ⟨_, rfl, ?_⟩
  rw [heard, honce]
  split_ifs <;> simp [hhub, hprovider]

theorem exists_completionRequest (h : Signature.completion.Valid arguments) :
    ∃ r, CompletionRequest.ofArguments (withoutLanguage arguments) = some r
      ∧ r.file = argument arguments "file_path" ∧ r.line = argument arguments "line"
      ∧ r.column = argument arguments "column" ∧ r.token = argument arguments "token"
      ∧ r.reason = (Fields.get? "reason" arguments).getD (.str "auto") := by
  have haccept := Signature.acceptArguments_withoutLanguage h (by decide)
  refine ⟨_, congrArg (Option.map _) haccept, Signature.argument_withoutLanguage (by decide) _,
    Signature.argument_withoutLanguage (by decide) _,
    Signature.argument_withoutLanguage (by decide) _,
    Signature.argument_withoutLanguage (by decide) _, ?_⟩
  dsimp only
  rw [Signature.get?_withoutLanguage (by decide)]

theorem exists_hoverRequest (h : Signature.hover.Valid arguments) :
    ∃ r, HoverRequest.ofArguments (withoutLanguage arguments) = some r
      ∧ r.file = argument arguments "file_path" ∧ r.line = argument arguments "line"
      ∧ r.column = argument arguments "column" ∧ r.token = argument arguments "token" := by
  have haccept := Signature.acceptArguments_withoutLanguage h (by decide)
  exact ⟨_, congrArg (Option.map _) haccept, Signature.argument_withoutLanguage (by decide) _,
    Signature.argument_withoutLanguage (by decide) _,
    Signature.argument_withoutLanguage (by decide) _,
    Signature.argument_withoutLanguage (by decide) _⟩

theorem textOr_file (hfile : Fields.get? "file_path" arguments = some (.str file)) :
    (argument (withoutLanguage arguments) "file_path").textOr [] = file := by
  rw [Signature.argument_withoutLanguage (by decide), argument, hfile]
  exact Value.textOr_str_nil file

/-- A request goes to the provider that its language is routed to. -/
theorem providerOf_eq (hub : Hub) (h : σ.Valid arguments)
    (hfile : Fields.get? "file_path" arguments = some (.str file)) :
    hub.providerOf (argument arguments "language_id") (withoutLanguage arguments)
      = hub.routeOf (requestedLanguage arguments file) := by
  have hfallback :
      hub.providerForPath file = hub.routeOf (Language.ofPath file Language.plain) := by
    rw [providerForPath, providerFor_eq, Value.textOr_str_nil, Language.normalName_ofPath]
  unfold providerOf requestedLanguage
  rw [textOr_file hfile, hfallback, argument]
  rcases hlanguage : Fields.get? "language_id" arguments with _ | v
  · rfl
  obtain rfl | ⟨_ | ⟨c, t⟩, rfl⟩ := h.language v hlanguage
  · rfl
  · rfl
  · rfl

theorem not_contains_reserved (h : σ.Valid arguments) (hσ : reservedName ∉ σ.names) :
    Fields.contains reservedName arguments = false := by
  have hkeys : reservedName ∉ Fields.keys arguments := by
    intro hmem
    obtain heq | hname := h.known _ hmem
    · exact absurd heq (by decide)
    · exact hσ hname
  rw [Fields.contains, Fields.get?_eq_none_iff.2 hkeys]
  rfl

/-- The number of a request that nobody answers. -/
theorem exists_emptyToken (h : σ.Valid arguments)
    (htoken : (Text.ofString "token", .integer) ∈ σ.required) :
    ∃ token, emptyToken (withoutLanguage arguments) = .ok token := by
  obtain ⟨n, hn⟩ := Signature.exists_integer h _ htoken
  obtain ⟨k, hk⟩ := Position.integerOr_of_integer? hn 0
  refine ⟨k, ?_⟩
  rw [emptyToken, Signature.argument_withoutLanguage (by decide), hk]
  rfl

theorem requestCompletion_unrouted (h : Signature.completion.Valid arguments)
    (hfile : Fields.get? "file_path" arguments = some (.str file))
    (hroute : hub.routeOf (requestedLanguage arguments file) = none) :
    ∃ answer, SaysOnly (hub.requestCompletion arguments) (.completion .hub answer)
      ∧ answer.file = file ∧ answer.items = [] ∧ answer.backend = "none" := by
  obtain ⟨token, htoken⟩ := exists_emptyToken h (by decide)
  unfold requestCompletion
  dsimp only
  rw [not_contains_reserved h (by decide), hub.providerOf_eq h hfile, hroute]
  simp only [Bool.false_eq_true, if_false, emptyCompletion, htoken]
  exact ⟨_, ⟨_, rfl, rfl⟩, textOr_file hfile, rfl, rfl⟩

theorem requestHover_unrouted (h : Signature.hover.Valid arguments)
    (hfile : Fields.get? "file_path" arguments = some (.str file))
    (hroute : hub.routeOf (requestedLanguage arguments file) = none) :
    ∃ answer, SaysOnly (hub.requestHover arguments) (.hover .hub answer)
      ∧ answer.file = file ∧ answer.label = [] ∧ answer.markdown = [] ∧ answer.source = "none" := by
  obtain ⟨token, htoken⟩ := exists_emptyToken h (by decide)
  unfold requestHover
  dsimp only
  rw [not_contains_reserved h (by decide), hub.providerOf_eq h hfile, hroute]
  simp only [Bool.false_eq_true, if_false, emptyHover, htoken]
  exact ⟨_, ⟨_, rfl, rfl⟩, textOr_file hfile, rfl, rfl, rfl⟩

theorem requestCompletion_routed {pack : Pack} (hconnected : hub.IsConnected)
    (h : Signature.completion.Valid arguments)
    (hfile : Fields.get? "file_path" arguments = some (.str file))
    (hroute : hub.routeOf (requestedLanguage arguments file) = some name)
    (hpack : hub.provider name = .pack pack) :
    ∃ r answer, CompletionRequest.ofArguments (withoutLanguage arguments) = some r
      ∧ pack.complete r = .ok answer
      ∧ SaysOnly (hub.requestCompletion arguments) (.completion .hub answer)
      ∧ answer.file = file
      ∧ answer.items = if pack.completes ((Fields.get? "reason" arguments).getD (.str "auto"))
          then pack.catalog.entries.map Candidate.ofEntry else [] := by
  have hmem := hconnected.routed name (mem_routed_of_routeOf hroute) pack hpack
  obtain ⟨r, hr, hrfile, hline, hcolumn, htoken, hreason⟩ := exists_completionRequest h
  obtain ⟨line, hlineInt⟩ := Signature.exists_integer h "line" (by decide)
  obtain ⟨column, hcolumnInt⟩ := Signature.exists_integer h "column" (by decide)
  obtain ⟨token, htokenInt⟩ := Signature.exists_integer h "token" (by decide)
  obtain ⟨answer, hanswer, hanswerFile, hitems⟩ := pack.exists_complete
    (hline ▸ hlineInt) (hcolumn ▸ hcolumnInt) (htoken ▸ htokenInt)
  refine ⟨r, answer, hr, hanswer, ?_, ?_, hreason ▸ hitems⟩
  · unfold requestCompletion
    dsimp only
    rw [not_contains_reserved h (by decide), hub.providerOf_eq h hfile, hroute]
    simp only [Bool.false_eq_true, if_false, hpack, packCompletion, hr, hanswer]
    exact saysOnly_heard hconnected.nodup hmem rfl rfl
  · rw [hanswerFile, hrfile, argument, hfile]
    exact Value.textOr_str_nil file

theorem requestHover_routed {pack : Pack} (hconnected : hub.IsConnected)
    (h : Signature.hover.Valid arguments)
    (hfile : Fields.get? "file_path" arguments = some (.str file))
    (hroute : hub.routeOf (requestedLanguage arguments file) = some name)
    (hpack : hub.provider name = .pack pack) :
    ∃ r answer, HoverRequest.ofArguments (withoutLanguage arguments) = some r
      ∧ pack.hover r = .ok answer
      ∧ SaysOnly (hub.requestHover arguments) (.hover .hub answer) ∧ answer.file = file := by
  have hmem := hconnected.routed name (mem_routed_of_routeOf hroute) pack hpack
  obtain ⟨r, hr, hrfile, hline, hcolumn, htoken⟩ := exists_hoverRequest h
  obtain ⟨line, hlineInt⟩ := Signature.exists_integer h "line" (by decide)
  obtain ⟨column, hcolumnInt⟩ := Signature.exists_integer h "column" (by decide)
  obtain ⟨token, htokenInt⟩ := Signature.exists_integer h "token" (by decide)
  obtain ⟨answer, hanswer, hanswerFile⟩ := pack.exists_hover
    (hline ▸ hlineInt) (hcolumn ▸ hcolumnInt) (htoken ▸ htokenInt)
  refine ⟨r, answer, hr, hanswer, ?_, ?_⟩
  · unfold requestHover
    dsimp only
    rw [not_contains_reserved h (by decide), hub.providerOf_eq h hfile, hroute]
    simp only [Bool.false_eq_true, if_false, hpack, packHover, hr, hanswer]
    exact saysOnly_heard hconnected.nodup hmem rfl rfl
  · rw [hanswerFile, hrfile, argument, hfile]
    exact Value.textOr_str_nil file

end Hub

end DhrWorkbench
