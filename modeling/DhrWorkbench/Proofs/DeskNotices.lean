import DhrWorkbench.Proofs.Notification
import DhrWorkbench.Proofs.PendingChecks

/-!
# What a desk shows of the toolchain

A desk shows the state of the toolchain when it looks for one, when a setting of the toolchain
changes, and when the delivery of a check is handled. A search shows what the locator says
afterwards (`keepsChecks_announce`), and a change of settings, however changes nest, that nothing is
known (`Forgets`). The worker shows nothing, although its searches change what the locator says
(`Works`); a delivery shows later what its check found (`toolchainNotices_deliveryEvents`), whatever
the locator says by then.
-/

namespace DhrWorkbench

open Toolchain (Status Locator)
open Checks (Book Turn)

/-! ## Notices -/

/-- What was shown of the toolchain among what was said. -/
def toolchainNotices (events : List Event) : List ToolchainNotice :=
  events.filterMap fun
    | .toolchain notice => some notice
    | _ => none

theorem toolchainNotices_append (first second : List Event) :
    toolchainNotices (first ++ second) = toolchainNotices first ++ toolchainNotices second :=
  List.filterMap_append

theorem toolchainNotices_saving {events : List Event}
    (h : ∀ event ∈ events, ∃ path, event = .saving path) : toolchainNotices events = [] := by
  refine List.filterMap_eq_nil_iff.2 fun event hevent => ?_
  obtain ⟨path, rfl⟩ := h event hevent
  rfl

namespace ToolchainNotice

/-- Whether an outcome of a search is what the locator remembers, if it remembers one. -/
def isCurrent (status : Status) (found : Option Toolchain) : Bool :=
  found.isSome = (status = .resolved)

/-- A notice shows the status of the locator exactly if the outcome is current. -/
theorem of_status_eq_iff (status : Status) (found : Option Toolchain) :
    (of status found).status = status ↔ isCurrent status found := by
  cases found <;> cases status <;> simp [of, ofFound, ofStatus, isCurrent]

end ToolchainNotice

namespace Delivery

/-- The outcome of the search that a check began with. -/
def found? : Delivery → Option (Option Toolchain)
  | .ran found => some (found.map (·.1))
  | _ => none

/-- Whether what a check found is still what the locator remembers. -/
def isCurrent (status : Status) (delivery : Delivery) : Bool :=
  delivery.found?.all (ToolchainNotice.isCurrent status)

end Delivery

namespace Session

/-- What the locator of the desk says. -/
def status (s : Session) : Status :=
  match s.execution with
  | some e => e.locator.status
  | none => .unknown

def shown (s : Session) : List ToolchainNotice := toolchainNotices s.log

/-- The state that is shown: the last one, and at first that nothing is known. -/
def indicator (s : Session) : Status :=
  match s.shown.getLast? with
  | some notice => notice.status
  | none => .unknown

/-- The deliveries that wait to be handled. -/
def queue (s : Session) : List Delivery :=
  match s.execution with
  | some e => e.checks.deliveries.map (·.2)
  | none => []

theorem status_eq {s : Session} {e : Execution} (he : s.execution = some e) :
    s.status = e.locator.status := by
  rw [status, he]

theorem queue_eq {s : Session} {e : Execution} (he : s.execution = some e) :
    s.queue = e.checks.deliveries.map (·.2) := by
  rw [queue, he]

theorem shown_say (s : Session) (said : List Event) :
    (s.say said).shown = s.shown ++ toolchainNotices said :=
  toolchainNotices_append _ _

/-- Nothing is shown, and the desk stays as it is; or the desk forgets the toolchain and shows
that nothing is known. -/
inductive Forgets (s s' : Session) : Prop
  | keeps (execution : s'.execution = s.execution) (shown : s'.shown = s.shown)
  | forgets {e : Execution} {l : Locator} {n : ℕ} (before : s.execution = some e)
      (after : s'.execution = some { e with locator := l })
      (quiet : IsQuiet e → IsQuiet { e with locator := l }) (status : l.status = .unknown)
      (shown : s'.shown = s.shown ++ List.replicate (n + 1) (.ofStatus .unknown))

theorem Forgets.refl (s : Session) : Forgets s s := .keeps rfl rfl

theorem Forgets.trans {a b c : Session} (hab : Forgets a b) (hbc : Forgets b c) : Forgets a c := by
  rcases hab with ⟨hexecution, hshown⟩ | ⟨hbefore, hafter, hquiet, hstatus, hshown⟩
  · rcases hbc with ⟨hexecution', hshown'⟩ | ⟨hbefore, hafter, hquiet, hstatus, hshown'⟩
    · exact .keeps (hexecution'.trans hexecution) (hshown'.trans hshown)
    · exact .forgets (hexecution ▸ hbefore) hafter hquiet hstatus (by rw [hshown', hshown])
  · rename_i e l n
    rcases hbc with ⟨hexecution, hshown'⟩ | ⟨hbefore', hafter', hquiet', hstatus', hshown'⟩
    · exact .forgets hbefore (hexecution.trans hafter) hquiet hstatus (hshown'.trans hshown)
    · rename_i e' l' k
      obtain rfl : _ = e' := Option.some.inj (hafter.symm.trans hbefore')
      refine .forgets (n := n + k + 1) hbefore hafter' (hquiet' ∘ hquiet) hstatus' ?_
      rw [hshown', hshown, List.append_assoc, List.replicate_append_replicate]
      congr 2
      omega

theorem toolchainNotices_configureAll (value : Value) : ∀ (names : List Text) (hub : Hub),
    toolchainNotices (Hub.configureAll value names hub).2 = []
  | [], _ => rfl
  | name :: rest, hub => by
    rw [Hub.configureAll]
    dsimp only
    rw [toolchainNotices_append, toolchainNotices_configureAll value rest, List.append_nil]
    unfold Hub.configureOne
    split <;> rfl

theorem forgets_hubFollows (s : Session) (key : Text) : Forgets s (s.hubFollows key).2 := by
  unfold hubFollows
  rcases s.hub.bound.bind s.manager? with _ | m
  · exact .refl s
  dsimp only
  split_ifs
  · rcases m.completionSettings with failure | settings
    · exact .refl s
    · refine .keeps rfl ((shown_say _ _).trans ?_)
      rw [Hub.configure, toolchainNotices_configureAll, List.append_nil]
      rfl
  · exact .refl s

theorem forgets_executionFollows (s : Session) (key : Text) :
    Forgets s (s.executionFollows key) := by
  unfold executionFollows
  rcases he : s.execution with _ | e
  · exact .refl s
  dsimp only
  split_ifs
  · refine .forgets (n := 0) he rfl ?_ rfl (shown_say _ _)
    rintro ⟨m, hm⟩
    exact ⟨_, hm.forget⟩
  · exact .refl s

theorem forgets_introduce (s : Session) (observer : Text) (answer : List Action) :
    Forgets s (s.introduce observer answer) := by
  unfold introduce
  split_ifs <;> exact .keeps rfl rfl

theorem forgets_takeAnswer (s : Session) (observer : Text) :
    Forgets s (s.takeAnswer observer).2 := by
  unfold takeAnswer
  split <;> exact .keeps rfl rfl

section Nested

-- What is known of the answers one level further in.
variable {perform : Action → Session → Except Settings.Failure Action.Outcome × Session}
  (hperform : ∀ (a : Action) (s : Session), Forgets s (perform a s).2)

include hperform

theorem forgets_performAllBy : ∀ (actions : List Action) (s : Session),
    Forgets s (performAllBy perform actions s).2
  | [], s => .refl s
  | a :: rest, s => by
    have hfirst := hperform a s
    unfold performAllBy
    split
    · rename_i heq
      rw [heq] at hfirst
      exact hfirst
    · rename_i s' heq
      rw [heq] at hfirst
      exact hfirst.trans (forgets_performAllBy rest s')

theorem forgets_tellBy (key : Text) (handed : ℕ) (l : Settings.Listener) (s : Session) :
    Forgets s (tellBy perform key handed l s).2 := by
  cases l with
  | observer name =>
    have hsaid : Forgets s (s.say [.observed name key handed]) :=
      .keeps rfl ((shown_say _ _).trans (List.append_nil _))
    exact (hsaid.trans (forgets_takeAnswer _ name)).trans (forgets_performAllBy hperform _ _)
  | hub => exact forgets_hubFollows s key
  | execution => exact forgets_executionFollows s key

theorem forgets_tellAllBy (key : Text) (handed : ℕ) : ∀ (ls : List Settings.Listener)
    (s : Session), Forgets s (tellAllBy perform key handed ls s).2
  | [], s => .refl s
  | l :: rest, s => by
    have hfirst := forgets_tellBy hperform key handed l s
    unfold tellAllBy
    split
    · rename_i heq
      rw [heq] at hfirst
      exact hfirst
    · rename_i s' heq
      rw [heq] at hfirst
      exact hfirst.trans (forgets_tellAllBy key handed rest s')

theorem forgets_setBy (s : Session) (m : Settings.Manager) (name key : Text) (value : Value)
    (scope : Option Settings.Scope) :
    Forgets s (setBy perform s m name key value scope).2 := by
  rw [setBy_eq]
  rcases m.write key value scope with failure | _ | written
  · exact .refl s
  · exact .refl s
  dsimp only
  rcases written.settle key with failure | settled
  · exact .keeps rfl rfl
  · have hannounced : Forgets s (s.announced name key value scope written settled) :=
      .keeps rfl rfl
    exact hannounced.trans (forgets_tellAllBy hperform _ _ _ _)

theorem forgets_performOn (s : Session) (m : Settings.Manager) (a : Action) :
    Forgets s (performOn perform s m a).2 := by
  cases a with
  | loadAll name writeBack => exact .keeps rfl rfl
  | saveAll name onlyDirty => exact .keeps rfl rfl
  | set name key value scope =>
    rw [performOn]
    split
    · exact .refl s
    · exact forgets_setBy hperform s m name _ value scope
  | listen name observer answer =>
    exact (forgets_introduce s observer answer).trans (.keeps rfl rfl)
  | unlisten name observer answer =>
    exact (forgets_introduce s observer answer).trans (.keeps rfl rfl)
  | roots name =>
    rw [performOn]
    split <;> exact .refl s
  | toolchain name => exact .refl s
  | completion name => exact .refl s

end Nested

theorem forgets_performTo : ∀ (depth : ℕ) (a : Action) (s : Session),
    Forgets s (performTo depth a s).2
  | depth, a, s => by
    unfold performTo
    split
    · exact .refl s
    · cases depth with
      | zero => exact forgets_performOn (fun _ s => .refl s) s _ a
      | succ depth => exact forgets_performOn (forgets_performTo depth) s _ a

/-! ## What the desk shows -/

/-- A check that ran has left a delivery. -/
def HasRan (s : Session) : Prop := ∃ found, Delivery.ran found ∈ s.queue

/-- All that is shown is what the locator says in the end. If nothing is shown, that has not
changed, or there is a delivery of a check that ran. -/
structure Shows (s s' : Session) (new : List ToolchainNotice) : Prop where
  shown : s'.shown = s.shown ++ new
  current : ∀ notice ∈ new, notice.status = s'.status
  silent : new = [] → s'.status = s.status ∨ s'.HasRan
  ran : s.HasRan → s'.HasRan

/-- The checks of the desk stay as they are, and all that is shown is what the locator says. -/
structure KeepsChecks (s : Session) (e : Execution) (s' : Session) (e' : Execution)
    (new : List ToolchainNotice) : Prop where
  execution : s'.execution = some e'
  checks : e'.checks = e.checks
  quiet : IsQuiet e'
  shown : s'.shown = s.shown ++ new
  current : ∀ notice ∈ new, notice.status = e'.locator.status
  silent : new = [] → e'.locator.status = e.locator.status

variable {s : Session} {e : Execution}

theorem KeepsChecks.say {s' : Session} {e' : Execution} {new : List ToolchainNotice}
    (h : KeepsChecks s e s' e' new) {said : List Event} (hsaid : toolchainNotices said = []) :
    KeepsChecks s e (s'.say said) e' new :=
  { h with shown := by rw [shown_say, hsaid, List.append_nil, h.shown] }

theorem KeepsChecks.withDesk {s' : Session} {e' : Execution} {new : List ToolchainNotice}
    (h : KeepsChecks s e s' e' new) (e'' : Execution) (hchecks : e''.checks = e'.checks)
    (hlocator : e''.locator = e'.locator) : KeepsChecks s e (s'.withDesk e'') e'' new where
  execution := rfl
  checks := hchecks.trans h.checks
  quiet := by
    obtain ⟨m, hm⟩ := h.quiet
    exact ⟨m, hlocator ▸ hm⟩
  shown := h.shown
  current := hlocator ▸ h.current
  silent := hlocator ▸ h.silent

theorem keepsChecks_self (he : s.execution = some e) (hquiet : IsQuiet e) :
    KeepsChecks s e s e [] :=
  ⟨he, rfl, hquiet, by simp, by simp, fun _ => rfl⟩

theorem Forgets.keepsChecks {s' : Session} (h : Forgets s s') (he : s.execution = some e)
    (hquiet : IsQuiet e) : ∃ e' new, KeepsChecks s e s' e' new := by
  rcases h with ⟨hexecution, hshown⟩ | ⟨hbefore, hafter, hkept, hstatus, hshown⟩
  · exact ⟨e, [], hexecution.trans he, rfl, hquiet, by simpa using hshown, by simp, fun _ => rfl⟩
  · obtain rfl : _ = e := Option.some.inj (hbefore.symm.trans he)
    refine ⟨_, _, hafter, rfl, hkept hquiet, hshown, ?_, by simp⟩
    intro notice hnotice
    rw [List.eq_of_mem_replicate hnotice, hstatus]
    rfl

theorem keepsChecks_failed {failure : Toolchain.Failure} {e' : Execution} (hquiet : IsQuiet e)
    (h : s.resolve e = (.error failure, e')) : KeepsChecks s e (s.withDesk e') e' [] := by
  have hchecks := congrArg Execution.checks (resolve_snd (s := s) (e := e))
  obtain ⟨hquiet', ⟨found, hfound, -⟩ | ⟨failure, -, hstatus⟩⟩ := status_of_resolve (s := s) hquiet
  · simp [h] at hfound
  · rw [h] at hchecks hquiet' hstatus
    exact ⟨rfl, hchecks, hquiet', (List.append_nil _).symm, by simp, fun _ => hstatus⟩

/-- What a search finds is what the locator says afterwards. -/
theorem keepsChecks_announce {found : Option Toolchain} {e' : Execution} (hquiet : IsQuiet e)
    (h : s.resolve e = (.ok found, e')) :
    KeepsChecks s e ((s.withDesk e').announce e' found) e' [.of e'.locator.status found] := by
  have hchecks := congrArg Execution.checks (resolve_snd (s := s) (e := e))
  obtain ⟨hquiet', ⟨found', hfound, hstatus⟩ | ⟨failure, hfailure, -⟩⟩ :=
    status_of_resolve (s := s) hquiet
  · rw [h] at hchecks hquiet' hstatus hfound
    cases hfound
    refine ⟨rfl, hchecks, hquiet', shown_say _ _, ?_, by simp⟩
    intro notice hnotice
    obtain rfl := List.mem_singleton.1 hnotice
    rw [ToolchainNotice.of_status_eq_iff, hstatus]
    cases found <;> rfl
  · simp [h] at hfailure

theorem refresh_keepsChecks (he : s.execution = some e) (hquiet : IsQuiet e) :
    ∃ e' new, KeepsChecks s e s.refresh.2 e' new := by
  rcases hresolve : s.resolve e with ⟨failure | found, e'⟩
  · simp only [refresh, he, hresolve]
    exact ⟨_, _, keepsChecks_failed hquiet hresolve⟩
  · simp only [refresh, he, hresolve]
    exact ⟨_, _, keepsChecks_announce hquiet hresolve⟩

theorem launch_eq_say (s : Session) (e : Execution) (t : Toolchain) (target : Text) :
    ∃ answer launch, s.launch e t target = (answer, s.say [.launching launch]) := by
  unfold launch
  rcases e.terminal with _ | answer
  · exact ⟨_, _, rfl⟩
  · exact ⟨_, _, rfl⟩

theorem runTarget_keepsChecks (hquiet : IsQuiet e) (target : Text) :
    ∃ e' new, KeepsChecks s e (s.runTarget e target).2 e' new := by
  rcases hresolve : s.resolve e with ⟨failure | _ | t, e'⟩
  · simp only [runTarget, hresolve]
    exact ⟨_, _, keepsChecks_failed hquiet hresolve⟩
  · simp only [runTarget, hresolve]
    exact ⟨_, _, (keepsChecks_announce hquiet hresolve).say rfl⟩
  · have hkeeps := keepsChecks_announce hquiet hresolve
    obtain ⟨answer, launch, hlaunch⟩ :=
      ((s.withDesk e').announce e' (some t)).launch_eq_say e' t target
    have hlaunched := hkeeps.say (rfl : toolchainNotices [.launching launch] = [])
    rcases answer with (error | trouble) | launched
    · simp only [runTarget, hresolve, hlaunch]
      exact ⟨_, _, hlaunched.say rfl⟩
    · simp only [runTarget, hresolve, hlaunch]
      exact ⟨_, _, hlaunched⟩
    · simp only [runTarget, hresolve, hlaunch]
      exact ⟨_, _, (hlaunched.withDesk { e' with lastLaunch := some launched } rfl rfl).say rfl⟩

theorem run_keepsChecks (he : s.execution = some e) (hquiet : IsQuiet e) :
    ∃ e' new, KeepsChecks s e s.run.2 e' new := by
  obtain ⟨answer, said, hprepare, hsaving⟩ := s.prepare_eq_say e "run"
  have hsaid := toolchainNotices_saving hsaving
  rcases answer with error | target
  · simp only [run, he, hprepare]
    exact ⟨_, _, ((keepsChecks_self he hquiet).say hsaid).say rfl⟩
  · simp only [run, he, hprepare]
    obtain ⟨e', new, h⟩ := runTarget_keepsChecks (s := s.say said) hquiet target
    exact ⟨e', new, { h with shown := by rw [h.shown, shown_say, hsaid, List.append_nil] }⟩

/-! ## What the worker does unseen -/

/-- Deliveries come to the queue. What the locator says changes only with one of a check that
ran. -/
structure Works (e e' : Execution) : Prop where
  quiet : IsQuiet e'
  queue : e.checks.deliveries <+: e'.checks.deliveries
  status : e'.locator.status = e.locator.status
    ∨ ∃ i found, (i, Delivery.ran found) ∈ e'.checks.deliveries

theorem Works.trans {e₁ e₂ e₃ : Execution} (h : Works e₁ e₂) (h' : Works e₂ e₃) : Works e₁ e₃ := by
  refine ⟨h'.quiet, h.queue.trans h'.queue, ?_⟩
  rcases h'.status with hsame | hran
  · rcases h.status with hsame' | ⟨i, found, hran⟩
    · exact .inl (hsame.trans hsame')
    · exact .inr ⟨i, found, h'.queue.subset hran⟩
  · exact .inr hran

/-- Only the checks change. -/
theorem works_checks (hquiet : IsQuiet e) {checks : Checks}
    (h : e.checks.deliveries <+: checks.deliveries) : Works e { e with checks } :=
  ⟨hquiet, h, .inl rfl⟩

theorem deliver_quiet (hquiet : IsQuiet e) (target : Text) : IsQuiet (s.deliver e target).2
    ∧ ((s.deliver e target).2.locator.status = e.locator.status
      ∨ ∃ found, (s.deliver e target).1 = .ran found) := by
  obtain ⟨hquiet', hanswer⟩ := status_of_resolve (s := s) hquiet
  rcases hresolve : s.resolve e with ⟨failure | _ | t, e'⟩ <;> rw [hresolve] at hquiet' hanswer <;>
    simp only [deliver, hresolve]
  · refine ⟨hquiet', .inl ?_⟩
    simpa using hanswer
  · exact ⟨hquiet', .inr ⟨_, rfl⟩⟩
  · exact ⟨hquiet', .inr ⟨_, rfl⟩⟩

theorem work_works (s : Session) : ∀ (n : ℕ) {e : Execution} {b : Book}, e.checks = b.checks →
    Book.Sound b.outline → b.checks.desk = .idle → IsQuiet e → Works e (s.work n e)
  | 0, e, b, _, _, _, hquiet => ⟨hquiet, List.prefix_rfl, .inl rfl⟩
  | n + 1, e, b, hchecks, hsound, hidle, hquiet => by
    have hbegin : Works e { e with checks := e.checks.begin } := works_checks hquiet (by simp)
    rw [work]
    dsimp only
    split
    · exact hbegin
    · rename_i i target hrunning
      have hkept := s.deliver_checks { e with checks := e.checks.begin } target
      obtain ⟨hquiet', hstatus⟩ :=
        deliver_quiet (s := s) (e := { e with checks := e.checks.begin }) hquiet target
      rcases hdeliver : s.deliver { e with checks := e.checks.begin } target with ⟨delivery, e'⟩
      rw [hdeliver] at hkept hquiet' hstatus
      dsimp only at hkept hquiet' hstatus ⊢
      -- the delivery comes to the queue
      have hqueue : ((e'.checks.finish delivery).tell i).deliveries
          = e.checks.deliveries ++ [(i, delivery)] := by
        rw [hkept, hchecks] at *
        have := Book.finish_tell (b := b.after [.begin]) (Book.sound_after _ hsound)
          (by simp [Book.after, Book.take, hidle]) hrunning delivery
        simpa [Book.after, Book.take] using this
      have hdone : Works e { e' with checks := (e'.checks.finish delivery).tell i } := by
        refine ⟨hquiet', ⟨_, hqueue.symm⟩, ?_⟩
        rcases hstatus with hsame | ⟨found, rfl⟩
        · exact .inl hsame
        · exact .inr ⟨i, found, by simp [hqueue]⟩
      refine hdone.trans (work_works s n (b := b.after [.begin, .finish delivery, .tell i]) ?_
        (Book.sound_after _ hsound) ?_ hquiet')
      · simp [Book.after, Book.take, hkept, hchecks]
      · simp [Book.after, Book.take, hidle]

/-- Nothing is shown, and the worker may have gone on. -/
structure IsSilent (s : Session) (e : Execution) (s' : Session) (e' : Execution) : Prop where
  execution : s'.execution = some e'
  shown : s'.shown = s.shown
  works : Works e e'

theorem isSilent_self (he : s.execution = some e) (hquiet : IsQuiet e) : IsSilent s e s e :=
  ⟨he, rfl, works_checks hquiet List.prefix_rfl⟩

theorem IsSilent.say {s' : Session} {e' : Execution} (h : IsSilent s e s' e') {said : List Event}
    (hsaid : toolchainNotices said = []) : IsSilent s e (s'.say said) e' :=
  { h with shown := by rw [shown_say, hsaid, List.append_nil, h.shown] }

theorem IsSilent.trans {s₁ s₂ s₃ : Session} {e₁ e₂ e₃ : Execution} (h : IsSilent s₁ e₁ s₂ e₂)
    (h' : IsSilent s₂ e₂ s₃ e₃) : IsSilent s₁ e₁ s₃ e₃ :=
  ⟨h'.execution, h'.shown.trans h.shown, h.works.trans h'.works⟩

theorem workOff_isSilent {b : Book} (he : s.execution = some e) (hchecks : e.checks = b.checks)
    (hsound : Book.Sound b.outline) (hidle : b.checks.desk = .idle) (hquiet : IsQuiet e) :
    ∃ e', IsSilent s e s.workOff e' := by
  rw [workOff, he]
  dsimp only
  split_ifs
  · exact ⟨e, isSilent_self he hquiet⟩
  · exact ⟨_, rfl, rfl, s.work_works _ hchecks hsound hidle hquiet⟩

theorem check_isSilent {b : Book} (he : s.execution = some e) (hchecks : e.checks = b.checks)
    (hsound : Book.Sound b.outline) (hidle : b.checks.desk = .idle) (hquiet : IsQuiet e) :
    ∃ e', IsSilent s e s.check.2 e' := by
  obtain ⟨answer, said, hprepare, hsaving⟩ := s.prepare_eq_say e "compile"
  have hsaid := toolchainNotices_saving hsaving
  have hself := (isSilent_self he hquiet).say hsaid
  rcases answer with error | target
  · simp only [check, he, hprepare]
    exact ⟨e, hself.say rfl⟩
  rcases hsubmit : b.checks.submit? target with _ | checks
  · simp only [check, he, hprepare, hchecks, hsubmit]
    exact ⟨e, hself⟩
  · simp only [check, he, hprepare, hchecks, hsubmit]
    obtain ⟨hbook, hdesk, hqueue⟩ := Book.after_submit hidle hsubmit
    have hsubmitted : IsSilent s e
        ((s.say said).withDesk { e with checks := checks.count.watch })
        { e with checks := checks.count.watch } :=
      ⟨rfl, hself.shown, works_checks hquiet (by rw [hqueue, hchecks])⟩
    have hsaid' : toolchainNotices [.status ("Checking " ++ Path.baseName target)] = [] := rfl
    obtain ⟨e', hwork⟩ := workOff_isSilent (b := b.after [.submit target, .count, .watch])
      (hsubmitted.say hsaid').execution (by rw [hbook]) (Book.sound_after _ hsound)
      (by rw [hbook, hdesk]) hquiet
    exact ⟨e', (hsubmitted.say hsaid').trans hwork⟩

theorem release_isSilent {b : Book} (he : s.execution = some e) (hchecks : e.checks = b.checks)
    (hsound : Book.Sound b.outline) (hidle : b.checks.desk = .idle) (hquiet : IsQuiet e) :
    ∃ e', IsSilent s e s.release e' := by
  have hreleased : IsSilent s e (s.withDesk { e with held := false }) { e with held := false } :=
    ⟨rfl, rfl, hquiet, List.prefix_rfl, .inl rfl⟩
  obtain ⟨e', hwork⟩ := workOff_isSilent hreleased.execution hchecks hsound hidle hquiet
  rw [release, he]
  exact ⟨e', hreleased.trans hwork⟩

theorem cancelAll_deliveries : ∀ (numbers : List ℕ) (c : Checks),
    c.deliveries <+: (numbers.foldl (fun c i => (c.cancel i).tell i) c).deliveries
  | [], _ => List.prefix_rfl
  | i :: rest, c => by
    refine List.IsPrefix.trans ?_ (cancelAll_deliveries rest _)
    dsimp only
    rcases (c.cancel i).tell_cases i with h | ⟨_, _, _, _, _, _, h⟩ <;> rw [h]
    · exact List.prefix_rfl
    · exact List.prefix_append _ _

theorem closeDesk_isSilent (he : s.execution = some e) (hquiet : IsQuiet e) :
    ∃ e', IsSilent s e s.closeDesk e' := by
  rw [closeDesk, he]
  refine ⟨_, rfl, ?_, works_checks hquiet (cancelAll_deliveries _ _)⟩
  dsimp only
  split <;> rfl

/-! ## What deliveries show -/

theorem toolchainNotices_resultEvents (s : Session) (e : Execution) (r : Invocation.Result) :
    toolchainNotices (s.resultEvents e r) = [] := by
  have hlines : toolchainNotices (r.lines.map .status) = [] := by simp [toolchainNotices]
  rw [resultEvents, toolchainNotices_append, hlines]
  rcases r.outcome
  · dsimp only
    split_ifs <;> rfl
  · rfl
  · rfl

/-- A delivery of a check that ran shows what the check found, whatever the locator says now. -/
theorem toolchainNotices_deliveryEvents (s : Session) (e : Execution) (delivery : Delivery) :
    toolchainNotices (s.deliveryEvents e delivery) =
      (delivery.found?.map (.of e.locator.status)).toList := by
  rcases delivery with (_ | ⟨t, r⟩) | reason | _
  · rfl
  · exact congrArg (_ :: ·) (s.toolchainNotices_resultEvents e r)
  · rfl
  · rfl

theorem handleUpTo_shown : ∀ (n : ℕ) {s : Session} {e : Execution}, s.execution = some e →
    ∃ e', (handleUpTo n s).execution = some e' ∧ e'.locator = e.locator
      ∧ e'.checks.deliveries = e.checks.deliveries.drop n
      ∧ (handleUpTo n s).shown = s.shown
        ++ ((e.checks.deliveries.take n).filterMap (·.2.found?)).map (.of e.locator.status)
  | 0, s, e, he => ⟨e, he, rfl, rfl, by simp [handleUpTo]⟩
  | n + 1, s, e, he => by
    rw [handleUpTo, he]
    dsimp only
    rcases hqueue : e.checks.deliveries with _ | ⟨⟨i, delivery⟩, rest⟩
    · simp only [Checks.take?, hqueue]
      exact ⟨e, he, rfl, by simp [hqueue], by simp⟩
    · simp only [Checks.take?, hqueue, Checks.settle]
      let e' : Execution := { e with
        checks := { e.checks with
          deliveries := rest, desk := .idle, pending := e.checks.pending - 1 } }
      have hsaid : ((s.withDesk e').handle e' delivery).shown
          = s.shown ++ (delivery.found?.map (.of e.locator.status)).toList := by
        rw [handle_eq, shown_say, toolchainNotices_deliveryEvents]
        rfl
      obtain ⟨e'', hexecution, hlocator, hrest, hshown⟩ := handleUpTo_shown n
        (s := (s.withDesk e').handle e' delivery) (e := e') (by rw [handle_eq]; rfl)
      refine ⟨e'', hexecution, hlocator, hrest, hshown.trans ?_⟩
      rw [hsaid, List.append_assoc, List.take_succ_cons, List.filterMap_cons]
      rcases delivery.found? with _ | found <;> rfl

theorem processResults_shown (he : s.execution = some e) :
    ∃ e', s.processResults.execution = some e' ∧ e'.locator = e.locator
      ∧ e'.checks.deliveries = []
      ∧ s.processResults.shown = s.shown
        ++ (s.queue.filterMap Delivery.found?).map (.of e.locator.status) := by
  obtain ⟨e', hexecution, hlocator, hrest, hshown⟩ :=
    handleUpTo_shown e.checks.deliveries.length he
  simp only [processResults, he, queue]
  refine ⟨e', hexecution, hlocator, by simpa using hrest, ?_⟩
  rw [hshown, List.take_length, List.filterMap_map]
  rfl

end Session

end DhrWorkbench
