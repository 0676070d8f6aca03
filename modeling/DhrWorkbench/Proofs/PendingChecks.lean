import DhrWorkbench.Proofs.CheckLine
import DhrWorkbench.Proofs.RunStages

/-!
# Every check is handled once

The count of pending checks is changed at two moments, when a check is submitted and when its
delivery is handled, while the worker and cancellations go on in between. In any order of these
steps the count is the number of checks that were not handled, so it never falls below zero; a check
is handled at most once, those that ran in the order in which they were submitted; and the user
hears once of a check that ran, and not of one that was cancelled (`Accounted`). The acts of a
session on its checks are made of the same steps (`act_turns`).
-/

namespace DhrWorkbench

open Checks (Book Turn)

/-! ## What is said of a check -/

/-- The notifications among what was said. -/
def notifications (events : List Event) : List (Text × Text) :=
  events.filterMap fun
    | .notification level text => some (level, text)
    | _ => none

theorem Delivery.eq_cancelled {delivery : Delivery} (h : delivery.isCancelled) :
    delivery = .cancelled := by
  cases delivery <;> simp_all [isCancelled]

/-- The check found nothing to complain of. -/
def Delivery.isSuccess : Delivery → Bool
  | .ran (some (_, result)) => result.outcome = .success
  | _ => false

namespace Session

def resultEvents (s : Session) (e : Execution) (r : Invocation.Result) : List Event :=
  r.lines.map .status ++ .checked r :: match r.outcome with
    | .success => .notification "info" "✅ DhrLang file compiled successfully!" ::
      if Invocation.hasOutput r.stdout && s.deskSetting e "run.show_check_output" then
        [.output Desk.outputTitle r.stdout]
      else []
    | .toolError => reportOf (.compilation r.stderr)
    | .invocationFailure => reportOf (.checkFailed r.message)

/-- What is said when a delivery is handled. -/
def deliveryEvents (s : Session) (e : Execution) : Delivery → List Event
  | .cancelled => []
  | .broken reason => reportOf (.checkFailed reason)
  | .ran none => .toolchain (.of e.locator.status none) :: reportOf .unresolved
  | .ran (some (t, r)) => .toolchain (.of e.locator.status (some t)) :: s.resultEvents e r

theorem deskSetting_say (s : Session) (e : Execution) (key : Text) (said : List Event) :
    (s.say said).deskSetting e key = s.deskSetting e key := rfl

theorem showResult_eq (s : Session) (e : Execution) (r : Invocation.Result) :
    s.showResult e r = s.say (s.resultEvents e r) := by
  unfold showResult resultEvents
  rcases r.outcome
  · simp only [say_say, deskSetting_say]
    split_ifs <;> simp
  · simp [report_eq]
  · simp [report_eq]

theorem handle_eq (s : Session) (e : Execution) (delivery : Delivery) :
    s.handle e delivery = s.say (s.deliveryEvents e delivery) := by
  rcases delivery with (_ | ⟨t, r⟩) | reason | _
  · simp [handle, announce, report_eq, deliveryEvents]
  · simp only [handle, announce, showResult_eq, say_say, deliveryEvents]
    rfl
  · rfl
  · simp [handle, deliveryEvents]

theorem notifications_append (first second : List Event) :
    notifications (first ++ second) = notifications first ++ notifications second :=
  List.filterMap_append

theorem notifications_status (lines : List Text) : notifications (lines.map .status) = [] := by
  simp [notifications]

theorem notifications_resultEvents (s : Session) (e : Execution) (r : Invocation.Result) :
    ∃ level text, notifications (s.resultEvents e r) = [(level, text)]
      ∧ (level = "info" ↔ r.outcome = .success) := by
  have herror : ActionError.level ≠ "info" := by decide
  simp only [resultEvents, notifications_append, notifications_status, List.nil_append]
  rcases r.outcome
  · refine ⟨"info", "✅ DhrLang file compiled successfully!", ?_, by simp⟩
    dsimp only
    split_ifs <;> rfl
  · exact ⟨_, _, rfl, by simp [herror]⟩
  · exact ⟨_, _, rfl, by simp [herror]⟩

/-- Of a check that was not cancelled the user hears once, and whether it was a success. -/
theorem notifications_deliveryEvents (s : Session) (e : Execution) {delivery : Delivery}
    (h : delivery.isCancelled = false) :
    ∃ level text, notifications (s.deliveryEvents e delivery) = [(level, text)]
      ∧ (level = "info" ↔ delivery.isSuccess) := by
  have herror : ActionError.level ≠ "info" := by decide
  rcases delivery with (_ | ⟨t, r⟩) | reason | _
  · exact ⟨_, _, rfl, by simp [herror, Delivery.isSuccess]⟩
  · obtain ⟨level, text, hone, hlevel⟩ := s.notifications_resultEvents e r
    exact ⟨level, text, hone, by simpa [Delivery.isSuccess] using hlevel⟩
  · exact ⟨_, _, rfl, by simp [herror, Delivery.isSuccess]⟩
  · cases h

end Session

/-! ## Sessions -/

namespace Session

/-- The checks of the desk stand as in a book, and the desk is at nothing. -/
def IsAt (s : Session) (b : Book) : Prop :=
  (∃ e, s.execution = some e ∧ e.checks = b.checks) ∧ b.checks.desk = .idle

/-- Steps lead from a book to a session, and none of them handles a delivery. -/
def ComesFrom (s : Session) (b : Book) : Prop :=
  ∃ turns : List Turn, s.IsAt (b.after turns) ∧ (b.after turns).handled = b.handled

/-- What is done at the desk with checks. -/
inductive CheckAct
  | check
  /-- The worker goes on. -/
  | release
  | process
  | wait (noTime : Bool)
  | close

def CheckAct.on : CheckAct → Session → Session
  | .check, s => s.check.2
  | .release, s => s.release
  | .process, s => s.processResults
  | .wait noTime, s => (s.waitForChecks noTime).2
  | .close, s => s.closeDesk

end Session

namespace Checks

@[simp] theorem begin_desk (c : Checks) : c.begin.desk = c.desk := by
  rcases c.begin_cases with h | ⟨_, _, _, _, _, _, h⟩ <;> rw [h]

@[simp] theorem begin_deliveries (c : Checks) : c.begin.deliveries = c.deliveries := by
  rcases c.begin_cases with h | ⟨_, _, _, _, _, _, h⟩ <;> rw [h]

@[simp] theorem finish_desk (c : Checks) (delivery : Delivery) :
    (c.finish delivery).desk = c.desk := by
  rcases c.finish_cases delivery with h | ⟨_, _, _, _, _, h⟩ <;> rw [h]

@[simp] theorem tell_desk (c : Checks) (i : ℕ) : (c.tell i).desk = c.desk := by
  rcases c.tell_cases i with h | ⟨_, _, _, _, _, _, h⟩ <;> rw [h]

@[simp] theorem cancel_desk (c : Checks) (i : ℕ) : (c.cancel i).desk = c.desk := rfl

end Checks

/-- A delivery is taken and handled. -/
theorem Checks.Book.after_take_handle {b : Book} {i : ℕ} {delivery : Delivery}
    {rest : List (ℕ × Delivery)} (hidle : b.checks.desk = .idle)
    (hqueue : b.checks.deliveries = (i, delivery) :: rest) (s : Session) (e : Execution) :
    b.after [.take, .handle s e] =
      ⟨{ b.checks with deliveries := rest, desk := .idle, pending := b.checks.pending - 1 },
        b.handled ++ [⟨i, delivery, (s.quiet.handle e delivery).log⟩]⟩ := by
  simp [after, take, take?, hidle, hqueue, settle]

/-- A check is submitted, counted and asked for. -/
theorem Checks.Book.after_submit {b : Book} {target : Text} {checks : Checks}
    (hidle : b.checks.desk = .idle) (hsubmit : b.checks.submit? target = some checks) :
    b.after [.submit target, .count, .watch] = ⟨checks.count.watch, b.handled⟩
      ∧ checks.count.watch.desk = .idle
      ∧ checks.count.watch.deliveries = b.checks.deliveries := by
  refine ⟨by simp [after, take, hidle, hsubmit], ?_⟩
  unfold submit? at hsubmit
  split_ifs at hsubmit
  cases hsubmit
  simp [count, watch, Checks.delivery?, Check.submitted, Check.delivery?]

namespace Session

theorem deliver_checks (s : Session) (e : Execution) (target : Text) :
    (s.deliver e target).2.checks = e.checks := by
  have h := congrArg Execution.checks (resolve_snd (s := s) (e := e))
  unfold deliver
  split <;> simp_all

/-- The worker takes steps of its own only. -/
theorem work_turns (s : Session) : ∀ (n : ℕ) (e : Execution) (b : Book), e.checks = b.checks →
    ∃ turns : List Turn, (s.work n e).checks = (b.after turns).checks
      ∧ (b.after turns).handled = b.handled ∧ (b.after turns).checks.desk = b.checks.desk
  | 0, e, b, h => ⟨[], h, rfl, rfl⟩
  | n + 1, e, b, h => by
    rw [work]
    dsimp only
    split
    · exact ⟨[.begin], by simp [Book.after, Book.take, h], rfl,
        by simp [Book.after, Book.take]⟩
    · rename_i i target hrunning
      have hchecks := s.deliver_checks { e with checks := e.checks.begin } target
      rcases hdeliver : s.deliver { e with checks := e.checks.begin } target with ⟨delivery, e'⟩
      rw [hdeliver] at hchecks
      obtain ⟨turns, hwork, hhandled, hdesk⟩ := work_turns s n
        { e' with checks := (e'.checks.finish delivery).tell i }
        (b.after [.begin, .finish delivery, .tell i]) (by simp_all [Book.after, Book.take])
      refine ⟨[Turn.begin, .finish delivery, .tell i] ++ turns, ?_⟩
      rw [Book.after_append]
      exact ⟨hwork, hhandled, hdesk.trans (by simp [Book.after, Book.take])⟩

theorem handle_log (s : Session) (e : Execution) (delivery : Delivery) :
    (s.handle e delivery).log = s.log ++ (s.quiet.handle e delivery).log := by
  simp only [handle_eq]
  rfl

/-- Deliveries are handled one after the other, and nothing else is said. -/
theorem handleUpTo_turns : ∀ (n : ℕ) (s : Session) (b : Book), s.IsAt b →
    ∃ (turns : List Turn) (new : List Checks.Handled), (handleUpTo n s).IsAt (b.after turns)
      ∧ (b.after turns).handled = b.handled ++ new
      ∧ (handleUpTo n s).log = s.log ++ new.flatMap (·.said)
  | 0, s, b, h => ⟨[], [], h, by simp [Book.after], by simp [handleUpTo]⟩
  | n + 1, s, b, h => by
    obtain ⟨⟨e, he, hchecks⟩, hidle⟩ := id h
    rw [handleUpTo, he]
    dsimp only
    rcases hqueue : b.checks.deliveries with _ | ⟨⟨i, delivery⟩, rest⟩
    · simp only [Checks.take?, hchecks, hqueue]
      exact ⟨[], [], h, by simp [Book.after], by simp⟩
    · simp only [Checks.take?, hchecks, hqueue, Checks.settle]
      let e' : Execution := { e with
        checks := { b.checks with
          deliveries := rest, desk := .idle, pending := b.checks.pending - 1 } }
      have htake := Book.after_take_handle hidle hqueue (s.withDesk e') e'
      obtain ⟨turns, new, hat, hhandled, hlog⟩ := handleUpTo_turns n
        ((s.withDesk e').handle e' delivery) (b.after [.take, .handle (s.withDesk e') e'])
        ⟨⟨e', by rw [handle_eq]; rfl, by rw [htake]⟩, by rw [htake]⟩
      rw [← Book.after_append] at hat hhandled
      refine ⟨[Turn.take, .handle (s.withDesk e') e'] ++ turns,
        ⟨i, delivery, ((s.withDesk e').quiet.handle e' delivery).log⟩ :: new, hat, ?_, ?_⟩
      · rw [hhandled, htake, List.append_assoc]
        rfl
      · rw [hlog, handle_log, List.append_assoc]
        rfl

/-- The worker goes on unless it is held. -/
theorem workOff_turns {s : Session} {b : Book} (h : s.IsAt b) : s.workOff.ComesFrom b := by
  obtain ⟨⟨e, he, hchecks⟩, hidle⟩ := id h
  rw [workOff, he]
  dsimp only
  split_ifs
  · exact ⟨[], h, rfl⟩
  · obtain ⟨turns, hwork, hhandled, hdesk⟩ :=
      s.work_turns (e.checks.all.countP (·.isWaiting)) e b hchecks
    exact ⟨turns, ⟨⟨_, rfl, hwork⟩, hdesk.trans hidle⟩, hhandled⟩

theorem cancelAll_turns (numbers : List ℕ) : ∀ b : Book, ∃ turns : List Turn,
    numbers.foldl (fun c i => (c.cancel i).tell i) b.checks = (b.after turns).checks
      ∧ (b.after turns).handled = b.handled ∧ (b.after turns).checks.desk = b.checks.desk := by
  induction numbers with
  | nil => exact fun b => ⟨[], rfl, rfl, rfl⟩
  | cons i rest ih =>
    intro b
    obtain ⟨turns, hchecks, hhandled, hdesk⟩ := ih (b.after [.cancel i, .tell i])
    refine ⟨[Turn.cancel i, .tell i] ++ turns, ?_⟩
    rw [Book.after_append]
    exact ⟨hchecks, hhandled, hdesk.trans (by simp [Book.after, Book.take])⟩

theorem closeDesk_turns {s : Session} {b : Book} (h : s.IsAt b) : s.closeDesk.ComesFrom b := by
  obtain ⟨⟨e, he, hchecks⟩, hidle⟩ := h
  obtain ⟨turns, hcancel, hhandled, hdesk⟩ :=
    cancelAll_turns (List.range e.checks.all.length) b
  refine ⟨turns ++ [Turn.close], ?_⟩
  rw [Book.after_append, closeDesk, he]
  refine ⟨⟨⟨_, rfl, ?_⟩, hdesk.trans hidle⟩, hhandled⟩
  rw [Checks.cancelAll, hchecks] at *
  rw [hcancel]
  rfl

/-- To prepare a file, all that is said is to save it. -/
theorem prepare_eq_say (s : Session) (e : Execution) (action : Text) :
    ∃ answer said, s.prepare e action = (answer, s.say said)
      ∧ ∀ event ∈ said, ∃ path, event = .saving path := by
  obtain ⟨-, h⟩ | ⟨-, -, h⟩ | ⟨-, -, -, -, h⟩ | ⟨-, h⟩ := s.prepare_cases e action
  · exact ⟨_, [], by rw [h, say_nil], by simp⟩
  · exact ⟨_, [], by rw [h, say_nil], by simp⟩
  · exact ⟨_, _, h, by simp⟩
  · refine ⟨_, _, h, ?_⟩
    rw [saving]
    split_ifs <;> simp

theorem IsAt.say {s : Session} {b : Book} (h : s.IsAt b) (said : List Event) :
    (s.say said).IsAt b := h

theorem check_turns {s : Session} {b : Book} (h : s.IsAt b) : s.check.2.ComesFrom b := by
  obtain ⟨⟨e, he, hchecks⟩, hidle⟩ := id h
  obtain ⟨answer, said, hprepare, -⟩ := s.prepare_eq_say e "compile"
  rcases answer with error | target
  · simp only [check, he, hprepare, report_eq]
    exact ⟨[], (h.say said).say _, rfl⟩
  rcases hsubmit : b.checks.submit? target with _ | checks
  · simp only [check, he, hprepare, hchecks, hsubmit]
    exact ⟨[], h.say said, rfl⟩
  · simp only [check, he, hprepare, hchecks, hsubmit]
    obtain ⟨hbook, hdesk, -⟩ := Book.after_submit hidle hsubmit
    have hat : (((s.say said).withDesk { e with checks := checks.count.watch }).say
        [.status ("Checking " ++ Path.baseName target)]).IsAt
          (b.after [.submit target, .count, .watch]) :=
      ⟨⟨_, rfl, by rw [hbook]⟩, by rw [hbook, hdesk]⟩
    obtain ⟨turns, hwork, hhandled⟩ := workOff_turns hat
    refine ⟨[Turn.submit target, .count, .watch] ++ turns, ?_⟩
    rw [Book.after_append]
    exact ⟨hwork, hhandled.trans (by rw [hbook])⟩

theorem release_turns {s : Session} {b : Book} (h : s.IsAt b) : s.release.ComesFrom b := by
  obtain ⟨⟨e, he, hchecks⟩, hidle⟩ := h
  rw [release, he]
  exact workOff_turns ⟨⟨_, rfl, hchecks⟩, hidle⟩

theorem processResults_turns {s : Session} {b : Book} (h : s.IsAt b) :
    ∃ (turns : List Turn) (new : List Checks.Handled), s.processResults.IsAt (b.after turns)
      ∧ (b.after turns).handled = b.handled ++ new
      ∧ s.processResults.log = s.log ++ new.flatMap (·.said) := by
  obtain ⟨⟨e, he, -⟩, -⟩ := id h
  rw [processResults, he]
  exact handleUpTo_turns _ s b h

/-- What is done at the desk is made of steps, and what is handled is said in its order. -/
theorem act_turns (act : CheckAct) {s : Session} {b : Book} (h : s.IsAt b) :
    ∃ (turns : List Turn) (new : List Checks.Handled), (act.on s).IsAt (b.after turns)
      ∧ (b.after turns).handled = b.handled ++ new
      ∧ (new = [] ∨ (act.on s).log = s.log ++ new.flatMap (·.said)) := by
  have quietly {s' : Session} (h' : s'.ComesFrom b) :
      ∃ (turns : List Turn) (new : List Checks.Handled), s'.IsAt (b.after turns)
        ∧ (b.after turns).handled = b.handled ++ new
        ∧ (new = [] ∨ s'.log = s.log ++ new.flatMap (·.said)) := by
    obtain ⟨turns, hat, hhandled⟩ := h'
    exact ⟨turns, [], hat, by simpa using hhandled, .inl rfl⟩
  have handling : ∃ (turns : List Turn) (new : List Checks.Handled),
      s.processResults.IsAt (b.after turns) ∧ (b.after turns).handled = b.handled ++ new
        ∧ (new = [] ∨ s.processResults.log = s.log ++ new.flatMap (·.said)) := by
    obtain ⟨turns, new, hat, hhandled, hlog⟩ := processResults_turns h
    exact ⟨turns, new, hat, hhandled, .inr hlog⟩
  cases act with
  | check => exact quietly (check_turns h)
  | release => exact quietly (release_turns h)
  | process => exact handling
  | wait noTime =>
    rw [CheckAct.on, waitForChecks]
    split_ifs
    · exact quietly ⟨[], h, rfl⟩
    · exact quietly ⟨[], h, rfl⟩
    · exact handling
  | close => exact quietly (closeDesk_turns h)

end Session

namespace Checks

/-- What was said when it was handled is what a desk says of such a delivery. -/
def Handled.IsSaid (h : Handled) : Prop :=
  ∃ (s : Session) (e : Execution), h.said = (s.quiet.handle e h.delivery).log

theorem Handled.IsSaid.notifications {h : Handled} (hsaid : h.IsSaid) :
    if h.delivery.isCancelled then notifications h.said = []
    else ∃ level text, DhrWorkbench.notifications h.said = [(level, text)]
      ∧ (level = "info" ↔ h.delivery.isSuccess) := by
  obtain ⟨s, e, hsaid⟩ := hsaid
  have hlog : h.said = s.quiet.deliveryEvents e h.delivery := by
    rw [hsaid, Session.handle_eq]
    rfl
  rw [hlog]
  split_ifs with hcancelled
  · rw [Delivery.eq_cancelled hcancelled]
    rfl
  · exact Session.notifications_deliveryEvents _ _ (by simpa using hcancelled)

namespace Book

theorem handled_take (b : Book) (x : Turn) : (b.take x).handled = b.handled
    ∨ ∃ h : Handled, h.IsSaid ∧ (b.take x).handled = b.handled ++ [h] := by
  cases x with
  | submit target => exact .inl (by simp only [take]; split <;> rfl)
  | take => exact .inl (by simp only [take]; split <;> rfl)
  | handle s e =>
    simp only [take]
    split
    · exact .inr ⟨_, ⟨s, e, rfl⟩, rfl⟩
    · exact .inl rfl
  | _ => exact .inl rfl

theorem isSaid_run (turns : List Turn) : ∀ h ∈ (run turns).handled, h.IsSaid := by
  induction turns using List.reverseRecOn with
  | nil => simp [run, after, empty]
  | append_singleton turns x ih =>
    rw [run, after_append]
    rcases (run turns).handled_take x with hsame | ⟨h, hsaid, hmore⟩
    · exact fun h hh => ih h (hsame ▸ hh)
    · intro h' hh'
      have hmem : h' ∈ (run turns).handled ++ [h] := hmore ▸ hh'
      rcases List.mem_append.1 hmem with hold | hnew
      · exact ih h' hold
      · exact List.mem_singleton.1 hnew ▸ hsaid

/-- Every check is accounted for. -/
structure Accounted (b : Book) : Prop where
  /-- The count is that of the checks that were not handled, up to one that is not counted yet. -/
  count : b.checks.pending + b.checks.desk.uncounted + b.handled.length = b.checks.all.length
  /-- The desk was not told of them, or they are in the queue or in hand. -/
  pending : b.checks.pending + b.checks.desk.uncounted =
    b.checks.all.countP (!·.told) + b.checks.deliveries.length + b.checks.desk.inHand.length
  /-- So the count is above zero whenever one is taken from it. -/
  positive {i : ℕ} {delivery : Delivery} (h : b.checks.desk = .handling i delivery) :
    0 < b.checks.pending
  once : (b.line.map (·.1)).Nodup
  told {i : ℕ} : i ∈ b.line.map (·.1) ↔ ∃ k, b.checks.all[i]? = some k ∧ k.told
  ended {i : ℕ} {delivery : Delivery} (h : (i, delivery) ∈ b.line) :
    ∃ k, b.checks.all[i]? = some k ∧ k.phase = .ended delivery
  order : ((b.handled.filter (!·.delivery.isCancelled)).map (·.check)).Pairwise (· < ·)
  heard {h : Handled} (hmem : h ∈ b.handled) :
    if h.delivery.isCancelled then notifications h.said = []
    else ∃ level text, notifications h.said = [(level, text)]
      ∧ (level = "info" ↔ h.delivery.isSuccess)

theorem accounted_run (turns : List Turn) : (run turns).Accounted := by
  have hsound := sound_run turns
  have hcount : (run turns).checks.pending + (run turns).checks.desk.uncounted
      + (run turns).handled.length = (run turns).checks.all.length := isBalanced_run turns
  have htold : (run turns).checks.all.countP (·.told) = (run turns).line.length := hsound.count
  have hsplit := List.length_eq_countP_add_countP (·.told) (l := (run turns).checks.all)
  rw [length_line] at htold
  have hpending : (run turns).checks.pending + (run turns).checks.desk.uncounted =
      (run turns).checks.all.countP (!·.told) + (run turns).checks.deliveries.length
        + (run turns).checks.desk.inHand.length := by
    simp only [decide_not, Bool.decide_eq_true] at hsplit
    omega
  refine ⟨hcount, hpending, ?_, hsound.nodup, hsound.told, hsound.ended, ?_,
    fun hmem => (isSaid_run turns _ hmem).notifications⟩
  · intro i delivery hdesk
    simp only [hdesk, Desk.inHand, Desk.uncounted, List.length_singleton] at hpending
    omega
  · have hsorted := hsound.sorted
    simp only [outline, line, List.filter_append, List.map_append, List.append_assoc] at hsorted
    simpa [List.filter_map, Function.comp_def] using (List.pairwise_append.1 hsorted).1

theorem pendingChecks_run {s : Session} {turns : List Turn} (hs : s.IsAt (run turns)) :
    s.pendingChecks = (run turns).checks.all.countP (!·.told)
      + (run turns).checks.deliveries.length := by
  obtain ⟨⟨e, he, hchecks⟩, hidle⟩ := hs
  have hpending := (accounted_run turns).pending
  simp only [hidle, Desk.uncounted, Desk.inHand, List.length_nil, Nat.add_zero] at hpending
  rw [Session.pendingChecks, he, ← hpending]
  exact congrArg Checks.pending hchecks

/-- However the steps of the desk, of the worker and of cancellations go together, every check is
accounted for. The acts of a session are made of such steps: between them its count is that of the
checks the desk was not told of and of those in the queue, and all an act says of deliveries is what
handling them says. -/
theorem checks_accounted (turns : List Turn) : (run turns).Accounted
    ∧ ∀ s : Session, s.IsAt (run turns) →
      s.pendingChecks = (run turns).checks.all.countP (!·.told)
          + (run turns).checks.deliveries.length
        ∧ ∀ act : Session.CheckAct, ∃ (more : List Turn) (new : List Handled),
          (act.on s).IsAt (run (turns ++ more))
          ∧ (run (turns ++ more)).handled = (run turns).handled ++ new
          ∧ (new = [] ∨ (act.on s).log = s.log ++ new.flatMap (·.said)) := by
  refine ⟨accounted_run turns, fun s hs => ⟨pendingChecks_run hs, fun act => ?_⟩⟩
  obtain ⟨more, new, h⟩ := Session.act_turns act hs
  exact ⟨more, new, by rw [run, after_append]; exact h⟩

/-- The second of two checks is cancelled while the first runs, and the desk is told of it first. -/
def crossing : List Turn :=
  [.submit "/w/a.dhr", .count, .watch, .begin, .submit "/w/b.dhr", .count, .watch,
    .cancel 1, .tell 1, .finish (.broken "no disk"), .tell 0]

/-- A session whose desk has come so far. -/
def crossingSession : Session :=
  (Session.onHost ⟨⟨[]⟩, [], "/", [], [], Option.none⟩).withDesk
    { Desk.opened "settings" (.str "/i") "/w/a.dhr" with checks := (run crossing).checks }

theorem crossing_accounted : (run crossing).line.map (·.1) = [1, 0] ∧ (run crossing).Accounted
    ∧ crossingSession.IsAt (run crossing) ∧ crossingSession.pendingChecks = 2
    ∧ ∃ (more : List Turn) (new : List Handled),
      crossingSession.processResults.IsAt (run (crossing ++ more))
      ∧ (run (crossing ++ more)).handled = new
      ∧ (new = [] ∨ crossingSession.processResults.log = new.flatMap (·.said)) := by
  have hat : crossingSession.IsAt (run crossing) := ⟨⟨_, rfl, rfl⟩, rfl⟩
  obtain ⟨haccounted, hsession⟩ := checks_accounted crossing
  obtain ⟨hpending, hacts⟩ := hsession crossingSession hat
  exact ⟨rfl, haccounted, hat, hpending, hacts .process⟩

end Book

end Checks

end DhrWorkbench
