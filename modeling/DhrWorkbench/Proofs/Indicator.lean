import DhrWorkbench.Proofs.DeskNotices

/-!
# The indicator and the locator

The state that is shown last is an indicator of the toolchain. A step at a desk handles all
deliveries that wait, or none (`ends_step`). In the second case all that it shows is what the
locator says. In the first it shows what the checks found, which a change of a setting or another
search may have overtaken; only then the indicator and the locator part (`indicator_agrees_iff`).
-/

namespace DhrWorkbench

open Toolchain (Status)
open Checks (Book Turn)

namespace Session

variable {s : Session} {e : Execution}

/-! ## Steps -/

/-- What happens at a desk. -/
inductive Step
  | run
  | check
  | refresh
  | process
  | wait (noTime : Bool)
  | hold
  | release
  | close
  /-- Settings are changed, or read and written. -/
  | perform (a : Action)
  /-- Files change. -/
  | edit (host : Host)
  | turnTo (document : Text)

namespace Step

def on : Step → Session → Session
  | .run, s => s.run.2
  | .check, s => s.check.2
  | .refresh, s => s.refresh.2
  | .process, s => s.processResults
  | .wait noTime, s => (s.waitForChecks noTime).2
  | .hold, s => s.hold.2
  | .release, s => s.release
  | .close, s => s.closeDesk
  | .perform a, s => (s.perform a).2
  | .edit host, s => { s with host }
  | .turnTo document, s => match s.execution with
    | some e => s.withDesk { e with document }
    | none => s

/-- The deliveries that are handled in a step. -/
def handles : Step → Session → List Delivery
  | .process, s => s.queue
  | .wait noTime, s => if s.pendingChecks = 0 ∨ noTime then [] else s.queue
  | _, _ => []

/-- What a step shows of the toolchain. -/
def shows (x : Step) (s : Session) : List ToolchainNotice := (x.on s).shown.drop s.shown.length

end Step

/-- A desk as it comes to be: nobody is at its locator, and its checks are accounted for. -/
structure Stands (s : Session) (e : Execution) (turns : List Turn) : Prop where
  execution : s.execution = some e
  checks : e.checks = (Book.run turns).checks
  idle : (Book.run turns).checks.desk = .idle
  quiet : IsQuiet e

namespace Stands

variable {turns : List Turn}

theorem isAt (h : s.Stands e turns) : s.IsAt (Book.run turns) :=
  ⟨⟨e, h.execution, h.checks⟩, h.idle⟩

/-- The checks stay as they are. -/
theorem keepsChecks {s' : Session} {e' : Execution} {new : List ToolchainNotice}
    (h : s.Stands e turns) (h' : KeepsChecks s e s' e' new) :
    s'.Stands e' turns ∧ Shows s s' new := by
  refine ⟨⟨h'.execution, h'.checks.trans h.checks, h.idle, h'.quiet⟩, h'.shown, ?_, ?_, ?_⟩
  · rw [status_eq h'.execution]
    exact h'.current
  · rw [status_eq h'.execution, status_eq h.execution]
    exact fun hnew => .inl (h'.silent hnew)
  · rw [HasRan, HasRan, queue_eq h'.execution, queue_eq h.execution, h'.checks]
    exact id

/-- Nothing is shown. -/
theorem isSilent {s' : Session} {e' : Execution} {more : List Turn} (h : s.Stands e turns)
    (h' : IsSilent s e s' e') (hat : s'.IsAt ((Book.run turns).after more)) :
    s'.Stands e' (turns ++ more) ∧ Shows s s' [] := by
  rw [Book.run, ← Book.after_append] at hat
  obtain ⟨⟨e'', he'', hchecks⟩, hidle⟩ := hat
  obtain rfl : e' = e'' := Option.some.inj (h'.execution.symm.trans he'')
  have hran {i : ℕ} {found} (hmem : (i, Delivery.ran found) ∈ e'.checks.deliveries) :
      s'.HasRan := by
    refine ⟨found, ?_⟩
    rw [queue_eq h'.execution]
    exact List.mem_map_of_mem hmem
  refine ⟨⟨h'.execution, hchecks, hidle, h'.works.quiet⟩, by simpa using h'.shown, by simp, ?_, ?_⟩
  · rw [status_eq h'.execution, status_eq h.execution]
    intro _
    rcases h'.works.status with hsame | ⟨i, found, hmem⟩
    · exact .inl hsame
    · exact .inr (hran hmem)
  · rintro ⟨found, hmem⟩
    rw [queue_eq h.execution] at hmem
    obtain ⟨⟨i, _⟩, hmem, rfl⟩ := List.mem_map.1 hmem
    exact hran (h'.works.queue.subset hmem)

end Stands

theorem hold_keepsChecks (he : s.execution = some e) (hquiet : IsQuiet e) :
    ∃ e' new, KeepsChecks s e s.hold.2 e' new := by
  have hself := keepsChecks_self he hquiet
  rw [hold, he]
  dsimp only
  split_ifs
  · exact ⟨_, _, hself⟩
  · exact ⟨_, _, hself.withDesk { e with held := true } rfl rfl⟩

theorem processResults_stands {turns : List Turn} (h : s.Stands e turns) :
    ∃ e' turns', s.processResults.Stands e' turns' := by
  obtain ⟨more, new, hat, -⟩ := processResults_turns h.isAt
  rw [Book.run, ← Book.after_append] at hat
  obtain ⟨⟨e', he', hchecks⟩, hidle⟩ := hat
  obtain ⟨e'', he'', hlocator, -⟩ := processResults_shown h.execution
  obtain rfl : e' = e'' := Option.some.inj (he'.symm.trans he'')
  obtain ⟨m, hm⟩ := h.quiet
  exact ⟨e', turns ++ more, he', hchecks, hidle, m, hlocator ▸ hm⟩

/-- A step handles all deliveries that wait; or it handles none, and all that it shows is what the
locator says. -/
inductive Ends (s : Session) : Session → List Delivery → Prop
  | handled : Ends s s.processResults s.queue
  | shown {s' : Session} {new : List ToolchainNotice} (h : Shows s s' new) : Ends s s' []

theorem ends_step {turns : List Turn} (h : s.Stands e turns) (x : Step) :
    (∃ e' turns', (x.on s).Stands e' turns') ∧ Ends s (x.on s) (x.handles s) := by
  have keeps {s' : Session} (h' : ∃ e' new, KeepsChecks s e s' e' new) :
      (∃ e' turns', s'.Stands e' turns') ∧ Ends s s' [] := by
    obtain ⟨e', new, h'⟩ := h'
    obtain ⟨hstands, hshows⟩ := h.keepsChecks h'
    exact ⟨⟨e', turns, hstands⟩, .shown hshows⟩
  have silent {s' : Session} (h' : ∃ e', IsSilent s e s' e')
      (hfrom : s'.ComesFrom (Book.run turns)) :
      (∃ e' turns', s'.Stands e' turns') ∧ Ends s s' [] := by
    obtain ⟨e', h'⟩ := h'
    obtain ⟨more, hat, -⟩ := hfrom
    obtain ⟨hstands, hshows⟩ := h.isSilent h' hat
    exact ⟨⟨e', turns ++ more, hstands⟩, .shown hshows⟩
  have hself := keepsChecks_self h.execution h.quiet
  have hsound := Book.sound_run turns
  cases x with
  | run => exact keeps (run_keepsChecks h.execution h.quiet)
  | check =>
    exact silent (check_isSilent h.execution h.checks hsound h.idle h.quiet) (check_turns h.isAt)
  | refresh => exact keeps (refresh_keepsChecks h.execution h.quiet)
  | process => exact ⟨processResults_stands h, .handled⟩
  | wait noTime =>
    rw [Step.on, Step.handles, waitForChecks]
    by_cases hnone : s.pendingChecks = 0
    · simp only [hnone, if_true, true_or]
      exact keeps ⟨_, _, hself⟩
    · cases noTime
      · simp only [hnone, if_false, false_or, Bool.false_eq_true]
        exact ⟨processResults_stands h, .handled⟩
      · simp only [hnone, if_false, if_true, or_true]
        exact keeps ⟨_, _, hself⟩
  | hold => exact keeps (hold_keepsChecks h.execution h.quiet)
  | release =>
    exact silent (release_isSilent h.execution h.checks hsound h.idle h.quiet)
      (release_turns h.isAt)
  | close => exact silent (closeDesk_isSilent h.execution h.quiet) (closeDesk_turns h.isAt)
  | perform a => exact keeps ((forgets_performTo _ a s).keepsChecks h.execution h.quiet)
  | edit host => exact keeps ⟨_, _, { hself with }⟩
  | turnTo document =>
    rw [Step.on, h.execution]
    exact keeps ⟨_, _, hself.withDesk { e with document } rfl rfl⟩

/-! ## What is shown in the end -/

/-- What is shown when all deliveries are handled is current exactly if they are. -/
theorem forall_of_status_iff (status : Status) (deliveries : List Delivery) :
    (∀ notice ∈ (deliveries.filterMap Delivery.found?).map (ToolchainNotice.of status),
        notice.status = status)
      ↔ ∀ delivery ∈ deliveries, delivery.isCurrent status := by
  simp only [List.forall_mem_map, List.mem_filterMap, ToolchainNotice.of_status_eq_iff,
    Delivery.isCurrent, Option.all_eq_true]
  exact ⟨fun h delivery hdelivery found hfound => h found ⟨delivery, hdelivery, hfound⟩,
    fun h found ⟨delivery, hdelivery, hfound⟩ => h delivery hdelivery found hfound⟩

theorem Ends.shows {s' : Session} {deliveries : List Delivery} (he : s.execution = some e)
    (h : Ends s s' deliveries) :
    ∃ new, s'.shown = s.shown ++ new
      ∧ ((∀ notice ∈ new, notice.status = s'.status)
        ↔ ∀ delivery ∈ deliveries, delivery.isCurrent s.status) := by
  cases h with
  | handled =>
    obtain ⟨e', he', hlocator, -, hshown⟩ := processResults_shown he
    refine ⟨_, hshown, ?_⟩
    rw [status_eq he', hlocator, ← status_eq he]
    exact forall_of_status_iff _ _
  | shown h => exact ⟨_, h.shown, by simpa using h.current⟩

theorem indicator_append {s' : Session} {new : List ToolchainNotice}
    (hshown : s'.shown = s.shown ++ new)
    (hcurrent : ∀ notice ∈ new, notice.status = s'.status) :
    (new = [] ∧ s'.indicator = s.indicator) ∨ s'.indicator = s'.status := by
  rcases List.eq_nil_or_concat' new with rfl | ⟨rest, notice, rfl⟩
  · exact .inl ⟨rfl, by rw [indicator, hshown, List.append_nil, indicator]⟩
  · refine .inr ?_
    rw [indicator, hshown, ← List.append_assoc, List.getLast?_concat]
    exact hcurrent notice (by simp)

/-- The state that is shown is what the locator says, or it is about to be: a check that ran has
left a delivery. -/
def IsDue (s : Session) : Prop := s.indicator = s.status ∨ s.HasRan

theorem Ends.isDue {s' : Session} {deliveries : List Delivery} (he : s.execution = some e)
    (h : Ends s s' deliveries) (hs : s.IsDue)
    (hcurrent : ∀ delivery ∈ deliveries, delivery.isCurrent s.status) : s'.IsDue := by
  cases h with
  | handled =>
    obtain ⟨e', he', hlocator, -, hshown⟩ := processResults_shown he
    have hstatus : s.processResults.status = s.status := by
      rw [status_eq he', hlocator, ← status_eq he]
    rw [← status_eq he] at hshown
    have hall := (forall_of_status_iff _ _).2 hcurrent
    rw [← hstatus] at hall hshown
    rcases indicator_append hshown hall with ⟨hnone, hsame⟩ | hnow
    · -- no check ran, so what was shown before is still right
      rcases hs with hshows | ⟨found, hran⟩
      · exact .inl (hsame.trans (hshows.trans hstatus.symm))
      · have hmem : found.map (·.1) ∈ s.queue.filterMap Delivery.found? :=
          List.mem_filterMap.2 ⟨_, hran, rfl⟩
        simp [List.map_eq_nil_iff.1 hnone] at hmem
    · exact .inl hnow
  | shown h =>
    rcases indicator_append h.shown h.current with ⟨hnone, hsame⟩ | hnow
    · rcases h.silent hnone with hstatus | hran
      · rcases hs with hshows | hran
        · exact .inl (hsame.trans (hshows.trans hstatus.symm))
        · exact .inr (h.ran hran)
      · exact .inr hran
    · exact .inl hnow

def after (s : Session) (steps : List Step) : Session := steps.foldl (fun s x => x.on s) s

/-- No delivery was overtaken when it was handled. -/
def IsTimely : Session → List Step → Prop
  | _, [] => True
  | s, x :: rest =>
    (∀ delivery ∈ x.handles s, delivery.isCurrent s.status) ∧ IsTimely (x.on s) rest

/-- A desk that was just opened. -/
structure IsFresh (s : Session) (e : Execution) : Prop where
  execution : s.execution = some e
  locator : e.locator = .fresh
  checks : e.checks = .none
  shown : s.shown = []

theorem IsFresh.stands (h : s.IsFresh e) : s.Stands e [] :=
  ⟨h.execution, h.checks, rfl, Toolchain.Memo.blank, by rw [h.locator]; exact .fresh⟩

theorem stands_after : ∀ (steps : List Step) {s : Session} {e : Execution} {turns : List Turn},
    s.Stands e turns → ∃ e' turns', (s.after steps).Stands e' turns'
  | [], _, e, turns, h => ⟨e, turns, h⟩
  | x :: rest, _, _, _, h => by
    obtain ⟨⟨e', turns', h'⟩, -⟩ := ends_step h x
    exact stands_after rest h'

theorem isDue_after : ∀ (steps : List Step) {s : Session} {e : Execution} {turns : List Turn},
    s.Stands e turns → s.IsDue → s.IsTimely steps → (s.after steps).IsDue
  | [], _, _, _, _, hs, _ => hs
  | x :: rest, _, _, _, h, hs, htimely => by
    obtain ⟨⟨e', turns', h'⟩, hends⟩ := ends_step h x
    exact isDue_after rest h' (hends.isDue h.execution hs htimely.1) htimely.2

/-- A step shows what the locator says exactly if it handles no delivery that was overtaken: one of
a check that found a toolchain which the locator no longer remembers, or that found none before one
was found. Without such deliveries, once all checks are handled the state that is shown is what the
locator says. -/
theorem indicator_agrees_iff (hs : s.IsFresh e) (steps : List Step) :
    (∀ x : Step, (∀ notice ∈ x.shows (s.after steps), notice.status = (x.on (s.after steps)).status)
      ↔ ∀ delivery ∈ x.handles (s.after steps), delivery.isCurrent (s.after steps).status)
    ∧ (s.IsTimely steps → (s.after steps).pendingChecks = 0 →
      (s.after steps).indicator = (s.after steps).status) := by
  obtain ⟨e', turns, hstands⟩ := stands_after steps hs.stands
  refine ⟨fun x => ?_, fun htimely hnone => ?_⟩
  · obtain ⟨new, hshown, hiff⟩ := (ends_step hstands x).2.shows hstands.execution
    rw [Step.shows, hshown, List.drop_left]
    exact hiff
  · have hfresh : s.IsDue := by
      refine .inl ?_
      rw [indicator, hs.shown, status_eq hs.execution, hs.locator]
      rfl
    rcases isDue_after steps hs.stands hfresh htimely with hshows | ⟨found, hran⟩
    · exact hshows
    · have hpending := Book.pendingChecks_run hstands.isAt
      rw [queue_eq hstands.execution, hstands.checks] at hran
      have hqueue : (Book.run turns).checks.deliveries = [] :=
        List.eq_nil_of_length_eq_zero (by omega)
      simp [hqueue] at hran

/-- A desk with a file open. -/
def projectDesk : Execution := Desk.opened "settings" (.str "/i") "/w/a.dhr"

/-- A project that has a jar, with that desk just opened. -/
def project : Session :=
  { onHost ⟨⟨[(["w"], .folder), (["w", "DhrLang.jar"], .file [] false)]⟩, [], "/root", [], [], none⟩
    with managers := [("settings", Settings.plainManager)] }.openDesk projectDesk

/-- The path of the jar is set. -/
def changeJar : Step := .perform (.set "settings" (.str "dhrlang.jar_path") (.str "x") none)

/-- A delivery that is handled at once is current, and the setting that changes later is shown. -/
theorem project_indicator_agrees : project.IsFresh projectDesk
    ∧ (∀ notice ∈ Step.process.shows (project.after [.check]),
      notice.status = (Step.process.on (project.after [.check])).status)
    ∧ project.IsTimely [.check, .process, changeJar]
    ∧ (project.after [.check, .process, changeJar]).pendingChecks = 0
    ∧ (project.after [.check, .process, changeJar]).indicator = .unknown := by
  have hfresh : project.IsFresh projectDesk := ⟨rfl, rfl, rfl, rfl⟩
  have hcurrent : ∀ delivery ∈ Step.process.handles (project.after [.check]),
      delivery.isCurrent (project.after [.check]).status :=
    List.all_eq_true.1 rfl
  have htimely : project.IsTimely [.check, .process, changeJar] :=
    ⟨by simp [Step.handles], hcurrent, by simp [Step.handles, changeJar], trivial⟩
  exact ⟨hfresh, ((indicator_agrees_iff hfresh [.check]).1 .process).2 hcurrent, htimely, rfl,
    (indicator_agrees_iff hfresh [.check, .process, changeJar]).2 htimely rfl⟩

/-- The setting changes between a check and its delivery: then a toolchain is shown that the locator
no longer knows. -/
theorem overtaken_delivery_shown :
    (Step.process.shows (project.after [.check, changeJar])).map (·.status) = [.resolved]
    ∧ (project.after [.check, changeJar, .process]).status = .unknown
    ∧ (project.after [.check, changeJar, .process]).pendingChecks = 0
    ∧ (project.after [.check, changeJar, .process]).indicator = .resolved := by
  refine ⟨?_, ?_, ?_, ?_⟩
  · rfl
  · rfl
  · rfl
  · rfl

end Session

end DhrWorkbench
