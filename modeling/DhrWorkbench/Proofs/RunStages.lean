import DhrWorkbench.Proofs.DeskSearch
import DhrWorkbench.Proofs.Files
import DhrWorkbench.Proofs.SettingsRuns

/-!
# The stages of a run

A run of the open file goes through stages: there is a document, it is a file of the language, it is
saved where that is asked for, the toolchain is found, and the file is launched. What is said on the
way tells how far a run has come, in one order for all of it: the call to save, the state of the
toolchain, the launch, the start.

Either all stages succeed, or one is the first to fail (`FailsAt`); then the user is told of that
one and of nothing else, what was launched last stays, and nothing is done of the later stages
(`run_all_or_nothing`). A process that cannot be started is always a problem of the user
(`launchProcess_ne_trouble`), so only a terminal can break off a run otherwise.
-/

namespace DhrWorkbench

open Invocation (Launch LaunchFailure)

/-! ## Processes -/

theorem Host.locate_ne_noHome (h : Host) (t : Text) : h.locate t ≠ .error .noHome := by
  rw [locate_eq]
  split
  · rename_i hcheck
    rintro ⟨⟩
    exact PathFault.check_ne_noHome t hcheck
  · split_ifs
    · simp
    · simp
    · split <;> simp

namespace Process

theorem checkAll_ne_noHome : ∀ texts : List Text, checkAll texts ≠ .error .noHome
  | [] => by simp [checkAll]
  | t :: rest => by
    rw [checkAll]
    split
    · rename_i hcheck
      rintro ⟨⟩
      exact PathFault.check_ne_noHome t hcheck
    · exact checkAll_ne_noHome rest

theorem enter_ne_noHome (h : Host) (folder : Text) : enter h folder ≠ .error .noHome := by
  unfold enter
  split
  · rename_i hlocate
    rintro ⟨⟩
    exact h.locate_ne_noHome folder hlocate
  · simp
  · split_ifs <;> simp

theorem execute_ne_noHome (h : Host) (program : Text) (arguments : List Text) (folder : Text) :
    execute h program arguments folder ≠ .error .noHome := by
  unfold execute
  split
  · rename_i hcheck
    rintro ⟨⟩
    exact checkAll_ne_noHome _ hcheck
  · split
    · rename_i henter
      rintro ⟨⟩
      exact enter_ne_noHome h folder henter
    · split <;> simp

end Process

namespace Invocation

theorem start_ne_runtime (h : Host) (t : Toolchain) (mode : Mode) (target message : Text) :
    start h t mode target ≠ .error ⟨.runtime, message⟩ := by
  unfold start
  rcases hrun : Process.execute h (program t) (arguments t mode target) (runFolder h target)
    with fault | ran
  · rcases fault with _ | _ | _ | _ | _
    case noHome => exact absurd hrun (Process.execute_ne_noHome _ _ _ _)
    all_goals simp [Except.mapError, Trouble.ofPathFault]
  · simp [Except.mapError]

theorem launchProcess_ne_trouble (h : Host) (t : Toolchain) (target : Text) (trouble : Trouble) :
    launchProcess h t target ≠ .error (.trouble trouble) := by
  unfold launchProcess processAnswer
  split
  · simp
  · rename_i hstart
    exact absurd hstart (start_ne_runtime _ _ _ _ _)
  · simp

theorem terminalAnswer_ne_trouble {α : Type} {answer : Except Trouble α}
    (h : ∀ message, answer ≠ .error ⟨.value, message⟩) (trouble : Trouble) :
    terminalAnswer answer ≠ .error (.trouble trouble) := by
  unfold terminalAnswer
  split
  · simp
  · exact absurd rfl (h _)
  · simp

end Invocation

namespace Session

@[simp] theorem say_nil (s : Session) : s.say [] = s := by
  simp [say]

@[simp] theorem say_say (s : Session) (first second : List Event) :
    (s.say first).say second = s.say (first ++ second) := by
  simp [say]

@[simp] theorem withDesk_say (s : Session) (e : Execution) (said : List Event) :
    (s.say said).withDesk e = (s.withDesk e).say said := rfl

theorem withDesk_self {s : Session} {e : Execution} (h : s.execution = some e) :
    s.withDesk e = s := by
  rw [withDesk, ← h]

/-! ## What the stages need and say -/

/-- How a problem is told to the user. -/
def reportOf (error : ActionError) : List Event :=
  [.notification ActionError.level error.userMessage, .status ("[DhrLang] " ++ error.userMessage)]

theorem report_eq (s : Session) (error : ActionError) : s.report error = s.say (reportOf error) :=
  rfl

/-- The path of the open file, empty when there is none. -/
def openPath (e : Execution) : Text := Text.strip e.document

/-- Whether the file is saved before it is run. -/
def mustSave (s : Session) (e : Execution) : Bool :=
  e.saves.isSome && s.deskSetting e "run.save_before_run"

def saving (s : Session) (e : Execution) : List Event :=
  if s.mustSave e then [.saving (openPath e)] else []

/-- The file that is run. -/
def target (s : Session) (e : Execution) : Text := s.host.absoluteText (openPath e)

/-- What is asked for to run the file. -/
def launchOf (s : Session) (e : Execution) (t : Toolchain) : Launch :=
  match e.terminal with
  | some _ => .terminal (Invocation.terminalRequest s.host t (s.target e))
  | none => .process (Invocation.command t .run (s.target e))
      (Invocation.runFolder s.host (s.target e))

def launchAnswer (s : Session) (e : Execution) (t : Toolchain) :
    Except LaunchFailure (Value ⊕ Ran) :=
  match e.terminal with
  | some answer => (Invocation.terminalAnswer answer).map .inl
  | none => (Invocation.launchProcess s.host t (s.target e)).map .inr

/-- The stages before the search succeed. -/
structure IsReady (s : Session) (e : Execution) : Prop where
  document : openPath e ≠ []
  extension : Language.isDhrPath (openPath e)
  saved : s.mustSave e → e.saves = some true

inductive Stage
  | document
  | extension
  | save
  | search
  | launch

/-- A stage is the first to fail. With it go the problem, what was said until then, and the desk as
it is afterwards. -/
inductive FailsAt (s : Session) (e : Execution) :
    Stage → ActionError → List Event → Execution → Prop
  | document (h : openPath e = []) : FailsAt s e .document .noDocument [] e
  | extension (document : openPath e ≠ []) (h : Language.isDhrPath (openPath e) = false) :
    FailsAt s e .extension (.wrongExtension "run") [] e
  | save (document : openPath e ≠ []) (extension : Language.isDhrPath (openPath e))
      (asked : s.mustSave e) (h : e.saves = some false) :
    FailsAt s e .save (.notSaved (Path.baseName (openPath e))) [.saving (openPath e)] e
  | search (ready : s.IsReady e) (h : (s.resolve e).1 = .ok none) :
    FailsAt s e .search .unresolved
      (s.saving e ++ [.toolchain (.ofStatus (s.resolve e).2.locator.status)]) (s.resolve e).2
  | launch {t : Toolchain} {error : ActionError} (ready : s.IsReady e)
      (found : (s.resolve e).1 = .ok (some t))
      (h : s.launchAnswer e t = .error (.action error)) :
    FailsAt s e .launch error
      (s.saving e ++ [.toolchain (.ofFound t), .launching (s.launchOf e t)]) (s.resolve e).2

/-- A notification, or that a run was started. -/
def isAnswer : Event → Bool
  | .notification _ _ => true
  | .runStarted _ _ => true
  | _ => false

theorem FailsAt.lastLaunch {s : Session} {e e' : Execution} {stage : Stage} {error : ActionError}
    {said : List Event} (h : s.FailsAt e stage error said e') : e'.lastLaunch = e.lastLaunch := by
  cases h with
  | search => rw [resolve_snd]
  | launch => rw [resolve_snd]
  | _ => rfl

theorem FailsAt.not_isAnswer {s : Session} {e e' : Execution} {stage : Stage} {error : ActionError}
    {said : List Event} (h : s.FailsAt e stage error said e') : said.any isAnswer = false := by
  have hsaving : (s.saving e).any isAnswer = false := by
    unfold saving
    split_ifs <;> rfl
  cases h with
  | search => simp [hsaving, isAnswer]
  | launch => simp [hsaving, isAnswer]
  | _ => rfl

theorem prepare_cases (s : Session) (e : Execution) (action : Text) :
    (openPath e = [] ∧ s.prepare e action = (.error .noDocument, s))
    ∨ (openPath e ≠ [] ∧ Language.isDhrPath (openPath e) = false
      ∧ s.prepare e action = (.error (.wrongExtension action), s))
    ∨ (openPath e ≠ [] ∧ Language.isDhrPath (openPath e) ∧ s.mustSave e ∧ e.saves = some false
      ∧ s.prepare e action
        = (.error (.notSaved (Path.baseName (openPath e))), s.say [.saving (openPath e)]))
    ∨ (s.IsReady e ∧ s.prepare e action = (.ok (s.target e), s.say (s.saving e))) := by
  by_cases hpath : openPath e = []
  · refine .inl ⟨hpath, ?_⟩
    rw [openPath] at hpath
    simp [prepare, hpath]
  by_cases hextension : Language.isDhrPath (openPath e)
  · rcases hsaves : e.saves with _ | saved
    · refine .inr (.inr (.inr ⟨⟨hpath, hextension, by simp [mustSave, hsaves]⟩, ?_⟩))
      rw [openPath] at hpath hextension
      simp [prepare, hpath, hextension, hsaves, saving, mustSave, target, openPath]
    · by_cases hasked : s.deskSetting e "run.save_before_run"
      · have hmust : s.mustSave e := by simp [mustSave, hsaves, hasked]
        rcases saved with _ | _
        · refine .inr (.inr (.inl ⟨hpath, hextension, hmust, rfl, ?_⟩))
          rw [openPath] at hpath hextension
          simp [prepare, hpath, hextension, hsaves, hasked, openPath]
        · refine .inr (.inr (.inr ⟨⟨hpath, hextension, fun _ => hsaves⟩, ?_⟩))
          rw [openPath] at hpath hextension
          simp [prepare, hpath, hextension, hsaves, hasked, saving, hmust, target, openPath]
          rfl
      · have hmust : s.mustSave e = false := by simp [mustSave, hasked]
        refine .inr (.inr (.inr ⟨⟨hpath, hextension, by simp [hmust]⟩, ?_⟩))
        rw [openPath] at hpath hextension
        simp [prepare, hpath, hextension, hsaves, hasked, saving, hmust, target, openPath]
  · refine .inr (.inl ⟨hpath, by simpa using hextension, ?_⟩)
    rw [openPath] at hpath hextension
    simp [prepare, hpath, hextension]

theorem launch_eq (s : Session) (e : Execution) (t : Toolchain) :
    s.launch e t (s.target e) = (s.launchAnswer e t, s.say [.launching (s.launchOf e t)]) := by
  unfold launch launchAnswer launchOf
  rcases e.terminal with _ | answer <;> rfl

theorem launchAnswer_ne_trouble {s : Session} {e : Execution} {t : Toolchain}
    (h : ∀ message, e.terminal ≠ some (.error ⟨.value, message⟩)) (trouble : Invocation.Trouble) :
    s.launchAnswer e t ≠ .error (.trouble trouble) := by
  have hmap : ∀ {α β : Type} {f : α → β} {r : Except LaunchFailure α},
      r ≠ .error (.trouble trouble) → r.map f ≠ .error (.trouble trouble) := by
    intro α β f r hr
    rcases r with failure | a
    · simpa [Except.map] using hr
    · simp [Except.map]
  unfold launchAnswer
  rcases hterminal : e.terminal with _ | answer
  · exact hmap (Invocation.launchProcess_ne_trouble _ _ _ _)
  · refine hmap (Invocation.terminalAnswer_ne_trouble (fun message hanswer => ?_) _)
    exact h message (by rw [hterminal, hanswer])

/-! ## A run -/

/-- The stages after the document is ready, one after the other. -/
theorem runTarget_cases {s : Session} {e : Execution}
    (hterminal : ∀ message, e.terminal ≠ some (.error ⟨.value, message⟩)) (said : List Event)
    {found : Option Toolchain} (hsearch : (s.resolve e).1 = .ok found) :
    (found = none ∧ (s.say said).runTarget e (s.target e)
      = (.ok false, (s.withDesk (s.resolve e).2).say (said
        ++ [.toolchain (.ofStatus (s.resolve e).2.locator.status)] ++ reportOf .unresolved)))
    ∨ (∃ t error, found = some t ∧ s.launchAnswer e t = .error (.action error)
      ∧ (s.say said).runTarget e (s.target e)
        = (.ok false, (s.withDesk (s.resolve e).2).say (said
          ++ [.toolchain (.ofFound t), .launching (s.launchOf e t)] ++ reportOf error)))
    ∨ ∃ t launched, found = some t ∧ s.launchAnswer e t = .ok launched
      ∧ (s.say said).runTarget e (s.target e)
        = (.ok true, (s.withDesk { (s.resolve e).2 with lastLaunch := some launched }).say (said
          ++ [.toolchain (.ofFound t), .launching (s.launchOf e t),
            .runStarted (s.target e) (s.deskSetting e "run.focus_output_on_run"),
            .status ("Running " ++ Path.baseName (s.target e))])) := by
  have hresolve : (s.say said).resolve e = (.ok found, (s.resolve e).2) := by
    rw [← hsearch]
    rfl
  have hdesk := resolve_snd (s := s) (e := e)
  generalize (s.resolve e).2 = e' at hresolve hdesk ⊢
  generalize e'.locator = l at hdesk
  subst hdesk
  rcases found with _ | t
  · refine .inl ⟨rfl, ?_⟩
    simp only [runTarget, hresolve, announce, ToolchainNotice.of, report_eq, withDesk_say, say_say,
      List.append_assoc]
  · have hlaunch : ∀ more, ((s.withDesk { e with locator := l }).say more).launch
        { e with locator := l } t (s.target e)
        = (s.launchAnswer e t, (s.withDesk { e with locator := l }).say
          (more ++ [Event.launching (s.launchOf e t)])) := by
      intro more
      rw [← say_say]
      exact launch_eq ((s.withDesk { e with locator := l }).say more) { e with locator := l } t
    rcases hanswer : s.launchAnswer e t with failure | launched
    · rcases failure with error | trouble
      · refine .inr (.inl ⟨t, error, rfl, hanswer, ?_⟩)
        simp only [runTarget, hresolve, announce, ToolchainNotice.of, report_eq, withDesk_say,
          say_say, hlaunch, hanswer, List.append_assoc]
        rfl
      · exact absurd hanswer (launchAnswer_ne_trouble hterminal trouble)
    · refine .inr (.inr ⟨t, launched, rfl, hanswer, ?_⟩)
      simp only [runTarget, hresolve, announce, ToolchainNotice.of, withDesk_say,
        say_say, hlaunch, hanswer, List.append_assoc]
      rfl

/-- A run either goes through all stages and says so in their order, or it says what the stages up
to the first that fails say, and then tells the user of that one. It never breaks off where the
search comes to an end and the terminal gives no trouble but such as the user is told of. -/
theorem run_all_or_nothing {s : Session} {e : Execution} (hdesk : s.execution = some e)
    (hsearch : s.IsReady e → ∀ failure, (s.resolve e).1 ≠ .error failure)
    (hterminal : ∀ message, e.terminal ≠ some (.error ⟨.value, message⟩)) :
    (∃ t launched, s.IsReady e ∧ (s.resolve e).1 = .ok (some t)
      ∧ s.launchAnswer e t = .ok launched
      ∧ s.run = (.ok true, (s.withDesk { (s.resolve e).2 with lastLaunch := some launched }).say
        (s.saving e ++ [.toolchain (.ofFound t), .launching (s.launchOf e t),
          .runStarted (s.target e) (s.deskSetting e "run.focus_output_on_run"),
          .status ("Running " ++ Path.baseName (s.target e))])))
    ∨ ∃ stage error said e', s.FailsAt e stage error said e' ∧ e'.lastLaunch = e.lastLaunch
      ∧ said.any isAnswer = false
      ∧ s.run = (.ok false, (s.withDesk e').say (said ++ reportOf error)) := by
  -- what is left to show of a failure is how the run comes to it
  have fails : ∀ {stage error said e'}, s.FailsAt e stage error said e' →
      s.run = (.ok false, (s.withDesk e').say (said ++ reportOf error)) →
      ∃ stage error said e', s.FailsAt e stage error said e' ∧ e'.lastLaunch = e.lastLaunch
        ∧ said.any isAnswer = false
        ∧ s.run = (.ok false, (s.withDesk e').say (said ++ reportOf error)) :=
    fun h hrun => ⟨_, _, _, _, h, h.lastLaunch, h.not_isAnswer, hrun⟩
  have hself := withDesk_self hdesk
  obtain ⟨hpath, hprepare⟩ | ⟨hpath, hother, hprepare⟩
    | ⟨hpath, hextension, hmust, hsaves, hprepare⟩ | ⟨hready, hprepare⟩ := s.prepare_cases e "run"
  · refine .inr (fails (.document hpath) ?_)
    simp only [run, hdesk, hprepare, report_eq, hself, List.nil_append]
  · refine .inr (fails (.extension hpath hother) ?_)
    simp only [run, hdesk, hprepare, report_eq, hself, List.nil_append]
  · refine .inr (fails (.save hpath hextension hmust hsaves) ?_)
    simp only [run, hdesk, hprepare, report_eq, hself, say_say]
  · have hrun : s.run = (s.say (s.saving e)).runTarget e (s.target e) := by
      simp only [run, hdesk, hprepare]
    rcases hfound : (s.resolve e).1 with failure | found
    · exact absurd hfound (hsearch hready failure)
    obtain ⟨rfl, htarget⟩ | ⟨t, error, rfl, hanswer, htarget⟩
      | ⟨t, launched, rfl, hanswer, htarget⟩ :=
      runTarget_cases hterminal (s.saving e) hfound
    · exact .inr (fails (.search hready hfound) (hrun.trans htarget))
    · exact .inr (fails (.launch hready hfound hanswer) (hrun.trans htarget))
    · exact .inl ⟨t, launched, hready, rfl, hanswer, hrun.trans htarget⟩

/-- A desk with a terminal and an open file, which is saved before it is run. -/
def terminalDesk : Execution :=
  { Desk.opened "settings" (.str "/i") " /w/a.dhr" with
    saves := some true
    terminal := some (.ok (.int 7)) }

/-- A session with that desk in a project that has a jar. -/
def terminalSession : Session :=
  { onHost ⟨⟨[(["w"], .folder), (["w", "DhrLang.jar"], .file [] false)]⟩, [], "/root", [], [], none⟩
    with
    managers := [("settings", Settings.plainManager)]
    execution := some terminalDesk }

theorem terminal_run_launched : terminalSession.run.1 = .ok true
    ∧ (terminalSession.run.2.execution.bind (·.lastLaunch)) = some (.inl (.int 7))
    ∧ terminalSession.run.2.log = [.saving "/w/a.dhr",
      .toolchain ⟨.resolved, "/w/DhrLang.jar", "workspace-root", "DhrLang: DhrLang.jar"⟩,
      .launching (.terminal ⟨"cd /w\njava -jar /w/DhrLang.jar /w/a.dhr", "/w", "a.dhr"⟩),
      .runStarted "/w/a.dhr" true, .status "Running a.dhr"] := by
  have hfound : (terminalSession.resolve terminalDesk).1
      = .ok (some ⟨"/w/DhrLang.jar", .workspaceRoot, "java"⟩) := rfl
  have hasked : ∀ t, terminalSession.launchAnswer terminalDesk t = .ok (.inl (.int 7)) :=
    fun _ => rfl
  obtain ⟨t, launched, -, hfound', hanswer, hrun⟩ | ⟨stage, error, said, e', hfails, -⟩ :=
    run_all_or_nothing (s := terminalSession) rfl (by simp [hfound]) (by simp [terminalDesk])
  · obtain rfl : _ = t := by simpa using hfound.symm.trans hfound'
    obtain rfl : _ = launched := by simpa using (hasked _).symm.trans hanswer
    rw [hrun]
    exact ⟨rfl, rfl, rfl⟩
  · cases hfails with
    | document h => exact absurd h (by decide)
    | extension _ h => exact absurd h (by decide)
    | save _ _ _ h => exact absurd h (by decide)
    | search _ h => cases hfound.symm.trans h
    | launch _ _ h => cases (hasked _).symm.trans h

end Session

end DhrWorkbench
