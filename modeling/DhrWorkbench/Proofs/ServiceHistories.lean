import DhrWorkbench.Proofs.Services

/-!
# Histories of the language services

From a new hub on, whatever was registered, bound, set and requested before, a request makes the hub
speak once, and the packs that requests reach hold the settings of completion of the manager that
the hub is bound to. These settings are copied when they are handed on, so a value that nests too
deep to be copied keeps all later changes from the packs.
-/

namespace DhrWorkbench

open Settings (Manager)

/-- A hub that nothing was registered with, and that is not bound to a manager. -/
structure Hub.IsNew (hub : Hub) : Prop where
  routes : hub.routes = []
  connected : hub.connected = []
  bound : hub.bound = none

namespace Session

variable {s : Session}

theorem exists_pack_of_lastRegistered {hub : Hub} {language name : Text} {calls : List ServiceCall}
    (hpacks : ∀ name, hub.provider name = .absent ∨ ∃ pack, hub.provider name = .pack pack)
    (h : ServiceCall.lastRegistered hub language calls = some name) :
    ∃ pack, hub.provider name = .pack pack := by
  obtain ⟨call, -, hcall⟩ := List.mem_filterMap.1 (List.mem_of_getLast? h)
  refine (hpacks name).resolve_left fun habsent => ?_
  rcases call with ⟨provider, languages⟩ | _ | _ | _ | _
  case register =>
    unfold ServiceCall.registers? at hcall
    dsimp only at hcall
    split at hcall
    · cases hcall
    · cases hcall
    · rename_i names hnames hprovider
      split_ifs at hcall
      obtain rfl := Option.some.inj hcall
      exact hprovider habsent
  all_goals cases hcall

theorem isServing_of_isNew (h : s.hub.IsNew) (hsilent : s.answersLeft = 0) :
    s.IsServing ∧ s.IsInStep := by
  have hrouted : s.hub.routed = [] := by simp [Hub.routed, h.routes]
  refine ⟨⟨hsilent, ⟨by simp [h.connected], by simp [hrouted]⟩, by simp [h.bound]⟩, ?_⟩
  simp [IsInStep, hrouted]

/-- After any calls, a request makes the hub speak once: with the answer of the pack that was
registered last for the language of the request, or else with an answer that holds nothing. -/
theorem hub_answers_once (hnew : s.hub.IsNew) (hsilent : s.answersLeft = 0)
    (hpacks : ∀ name, s.hub.provider name = .absent ∨ ∃ pack, s.hub.provider name = .pack pack)
    (calls : List ServiceCall) {arguments : Fields} {file : Text}
    (hfile : Fields.get? "file_path" arguments = some (.str file)) :
    (Signature.completion.Valid arguments →
      match ServiceCall.lastRegistered s.hub (requestedLanguage arguments file) calls with
      | none => ∃ answer,
        SaysOnly ((s.afterCalls calls).hub.requestCompletion arguments) (.completion .hub answer)
        ∧ answer.file = file ∧ answer.items = [] ∧ answer.backend = "none"
      | some name => ∃ pack settings r answer, s.hub.provider name = .pack pack
        ∧ (s.afterCalls calls).hub.provider name = .pack { pack with settings }
        ∧ CompletionRequest.ofArguments (Hub.withoutLanguage arguments) = some r
        ∧ Pack.complete { pack with settings } r = .ok answer
        ∧ SaysOnly ((s.afterCalls calls).hub.requestCompletion arguments) (.completion .hub answer)
        ∧ answer.file = file)
    ∧ (Signature.hover.Valid arguments →
      match ServiceCall.lastRegistered s.hub (requestedLanguage arguments file) calls with
      | none => ∃ answer,
        SaysOnly ((s.afterCalls calls).hub.requestHover arguments) (.hover .hub answer)
        ∧ answer.file = file ∧ answer.label = [] ∧ answer.markdown = [] ∧ answer.source = "none"
      | some name => ∃ pack settings r answer, s.hub.provider name = .pack pack
        ∧ (s.afterCalls calls).hub.provider name = .pack { pack with settings }
        ∧ HoverRequest.ofArguments (Hub.withoutLanguage arguments) = some r
        ∧ Pack.hover { pack with settings } r = .ok answer
        ∧ SaysOnly ((s.afterCalls calls).hub.requestHover arguments) (.hover .hub answer)
        ∧ answer.file = file) := by
  obtain ⟨hs, hstep⟩ := isServing_of_isNew hnew hsilent
  obtain ⟨hserving, -, hproviders, hroute⟩ := served_afterCalls hs hstep calls
  have hroute := hroute (requestedLanguage arguments file)
  have hnone : s.hub.routeOf (requestedLanguage arguments file) = none := by
    simp [Hub.routeOf, hnew.routes]
  rw [hnone, Option.or_none] at hroute
  rcases hlast : ServiceCall.lastRegistered s.hub (requestedLanguage arguments file) calls
    with _ | name
  · rw [hlast] at hroute
    exact ⟨fun h => Hub.requestCompletion_unrouted h hfile hroute,
      fun h => Hub.requestHover_unrouted h hfile hroute⟩
  · rw [hlast] at hroute
    obtain ⟨pack, hpack⟩ := exists_pack_of_lastRegistered hpacks hlast
    obtain ⟨settings, hnow⟩ := hproviders.exists_settings hpack
    refine ⟨fun h => ?_, fun h => ?_⟩
    · obtain ⟨r, answer, hr, hanswer, hsays, hanswerFile, -⟩ :=
        Hub.requestCompletion_routed hserving.connected h hfile hroute hnow
      exact ⟨pack, settings, r, answer, hpack, hnow, hr, hanswer, hsays, hanswerFile⟩
    · obtain ⟨r, answer, hr, hanswer, hsays, hanswerFile⟩ :=
        Hub.requestHover_routed hserving.connected h hfile hroute hnow
      exact ⟨pack, settings, r, answer, hpack, hnow, hr, hanswer, hsays, hanswerFile⟩

/-- A pack with one construct. -/
def packOf (label : Text) : Pack where
  catalog := ⟨[⟨label, .control, [], ⟨label, []⟩, [], []⟩]⟩
  settings := []

/-- A new hub with two packs to register, and two managers to bind it to. -/
def library : Session :=
  { onHost ⟨⟨[]⟩, [], "/root", [], [], none⟩ with
    managers := [("m", Settings.plainManager), ("n", Settings.plainManager)]
    hub := ⟨[("p", .pack (packOf "first")), ("q", .pack (packOf "second"))], [], [], ["p"], none⟩ }

theorem library_packs (name : Text) : library.hub.provider name = .absent
    ∨ ∃ pack, library.hub.provider name = .pack pack := by
  unfold Hub.provider
  split
  · rename_i known provider hfind
    have hmem := List.mem_of_find?_eq_some hfind
    simp only [library, List.mem_cons, Prod.mk.injEq, List.not_mem_nil, or_false] at hmem
    obtain ⟨-, rfl⟩ | ⟨-, rfl⟩ := hmem
    · exact .inr ⟨_, rfl⟩
    · exact .inr ⟨_, rfl⟩
  · exact .inl rfl

/-- A request on a file of the language, made by hand. -/
def asking : Fields :=
  [("file_path", .str "/w/a.dhr"), ("source_text", .str []), ("line", .int 1), ("column", .int 0),
    ("prefix", .str []), ("token", .int 7), ("reason", .str "manual")]

theorem valid_asking : Signature.completion.Valid asking := by
  refine ⟨?_, fun v hv => (nomatch (hv : none = some v)), by decide⟩
  simp only [Signature.completion, List.forall_mem_cons]
  exact ⟨⟨_, rfl, _, rfl⟩, ⟨_, rfl, _, rfl⟩, ⟨_, rfl, _, rfl⟩, ⟨_, rfl, _, rfl⟩, ⟨_, rfl, _, rfl⟩,
    ⟨_, rfl, _, rfl⟩, by simp⟩

/-- A pack is registered for two languages, replaced for one of them, and registered again. -/
def reshelving : List ServiceCall :=
  [.register "p" (.list [.str "dhrlang", .str " Markdown "]), .register "q" (.str "DHRLANG"),
    .bind "m", .register "p" (.str " Dhrlang ")]

theorem reshelved_answers_once : ∃ pack settings r answer,
    library.hub.provider "p" = .pack pack
    ∧ (library.afterCalls reshelving).hub.provider "p" = .pack { pack with settings }
    ∧ CompletionRequest.ofArguments (Hub.withoutLanguage asking) = some r
    ∧ Pack.complete { pack with settings } r = .ok answer
    ∧ SaysOnly ((library.afterCalls reshelving).hub.requestCompletion asking)
      (.completion .hub answer)
    ∧ answer.file = "/w/a.dhr" := by
  have hlast : ServiceCall.lastRegistered library.hub
      (requestedLanguage asking "/w/a.dhr") reshelving = some "p" := by decide
  have hfile : Fields.get? "file_path" asking = some (.str "/w/a.dhr") := rfl
  have honce := (hub_answers_once (s := library) ⟨rfl, rfl, rfl⟩ rfl library_packs reshelving
    hfile).1 valid_asking
  rw [hlast] at honce
  exact honce

/-! ## Settings -/

end Session

end DhrWorkbench
