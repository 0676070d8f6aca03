import DhrWorkbench.Proofs.CurrentToolchain
import DhrWorkbench.Proofs.Overrides
import DhrWorkbench.Proofs.PendingChecks

/-!
# The status of a check

A command that checks a file ends with the status 0 or 1. A desk that waits for its one check says
what submits it and then what comes of the worker's delivery (`check_waited`). An error is among
that unless the delivery is a success (`any_isError_deliveryEvents`), which it is when the toolchain
was found, could be started and printed no byte as an error (`isSuccess_deliver`). A worker that
breaks off leaves a delivery as well, and a file that is not one of the language is an error before
any check is submitted.
-/

namespace DhrWorkbench

open Settings (Manager)

/-! ## What the toolchain printed -/

theorem Utf8.pieces_eq_nil {bytes : List Byte} : pieces bytes = [] ↔ bytes = [] := by
  fun_cases pieces bytes
  all_goals simp

theorem Text.unifyNewlines_eq_nil {t : Text} : t.unifyNewlines = [] ↔ t = [] := by
  have hbreak : Text.ofString "\n" ≠ [] := by decide
  fun_cases unifyNewlines t
  all_goals simp [hbreak]

namespace Invocation

/-- A text was printed if a byte was. -/
theorem outputText_eq_nil {bytes : List Byte} : outputText bytes = [] ↔ bytes = [] := by
  rw [outputText, Text.unifyNewlines_eq_nil, Utf8.decodeLossy, List.map_eq_nil_iff,
    Utf8.pieces_eq_nil]

/-- A check succeeds if its process could be started and complained of nothing. -/
theorem outcome_check {h : Host} {t : Toolchain} {target : Text} :
    (check h t target).outcome = .success
      ↔ ∃ ran, start h t .check target = .ok ran ∧ ran.stderr = [] := by
  unfold check checkProcess
  rcases start h t .check target with trouble | ran
  · simp [resultOf, Except.map]
  · have hempty : (outputText ran.stderr).isEmpty ↔ ran.stderr = [] := by
      rw [List.isEmpty_iff, outputText_eq_nil]
    simp only [resultOf, Except.map, Reply.ofRan, hempty, Except.ok.injEq, exists_eq_left']
    split_ifs with hstderr <;> simp [hstderr]

end Invocation

namespace Session

variable {s : Session} {e : Execution}

/-! ## The worker -/

theorem isCancelled_deliver (s : Session) (e : Execution) (target : Text) :
    (s.deliver e target).1.isCancelled = false := by
  unfold deliver
  split <;> rfl

/-- The worker succeeds where the toolchain is found, can be started and complains of nothing. -/
theorem isSuccess_deliver {target : Text} : (s.deliver e target).1.isSuccess
    ↔ ∃ t ran, (s.resolve e).1 = .ok (some t)
      ∧ Invocation.start s.host t .check target = .ok ran ∧ ran.stderr = [] := by
  unfold deliver
  rcases hresolve : s.resolve e with ⟨failure | _ | t, e'⟩
  · simp [Delivery.isSuccess]
  · simp [Delivery.isSuccess]
  · simp [Delivery.isSuccess, Invocation.outcome_check]

/-- What a desk finds that has not asked before. -/
theorem resolve_fresh (hfresh : e.locator = .fresh) {t : Toolchain} :
    (s.resolve e).1 = .ok (some t) ↔ ∃ config roots, (Desk.around s e).config = .ok config
      ∧ (Desk.around s e).roots = .ok roots
      ∧ (Toolchain.search s.host e.install config roots
        fun path => .ok (Toolchain.fileAt s.host path)).outcome = .ok (some t) := by
  obtain ⟨l, hl, -⟩ := Toolchain.Solo.resolve_eq (Desk.around s e) [] .fresh
  have hanswer : (s.resolve e).1 = (Toolchain.Memo.blank.search (Desk.around s e)).answer := by
    rw [resolve_alone, caller, hfresh, hl]
    rfl
  rw [hanswer, Toolchain.Memo.search]
  rcases (Desk.around s e).config with failure | config
  · simp
  rcases (Desk.around s e).roots with failure | roots
  · simp
  rcases hfound : (Toolchain.search s.host e.install config roots
      fun path => .ok (Toolchain.fileAt s.host path)).outcome with failure | found
  · simp [Desk.around, hfound]
  · simp [Desk.around, hfound]

/-! ## One check -/

/-- A check that the desk has asked about, and none before it. -/
def firstCheck (target : Text) : Checks :=
  ⟨[⟨target, .waiting, true, false⟩], none, .idle, [], 1, false⟩

/-- The check after the worker has told of it. -/
def toldCheck (target : Text) (delivery : Delivery) : Checks :=
  ⟨[⟨target, .ended delivery, true, true⟩], none, .idle, [(0, delivery)], 1, false⟩

/-- What the worker makes of a check does not depend on the checks. -/
theorem deliver_withChecks (s : Session) (e : Execution) (checks : Checks) (file : Text) :
    s.deliver { e with checks } file
      = ((s.deliver e file).1, { (s.deliver e file).2 with checks }) := by
  have hresolve : s.resolve { e with checks }
      = ((s.resolve e).1, { (s.resolve e).2 with checks }) := by
    rw [resolve_alone, resolve_alone]
    rfl
  unfold deliver
  rw [hresolve]
  rcases s.resolve e with ⟨failure | _ | t, e'⟩
  all_goals rfl

theorem work_firstCheck (s : Session) (e : Execution) (file : Text) :
    s.work 1 { e with checks := firstCheck file }
      = { (s.deliver e file).2 with checks := toldCheck file (s.deliver e file).1 } := by
  have hbegin : (firstCheck file).begin.running? = some (0, file) := rfl
  simp only [work, hbegin, deliver_withChecks]
  rfl

theorem wait_toldCheck (s : Session) (e : Execution) (file : Text) (delivery : Delivery) :
    ∃ e', ((s.withDesk { e with checks := toldCheck file delivery }).waitForChecks false).2
      = (s.withDesk e').say (s.deliveryEvents e' delivery) := by
  refine ⟨{ e with checks := ⟨(toldCheck file delivery).all, none, .idle, [], 0, false⟩ }, ?_⟩
  have hpending : (s.withDesk { e with checks := toldCheck file delivery }).pendingChecks ≠ 0 :=
    Nat.one_ne_zero
  rw [waitForChecks, if_neg hpending, if_neg Bool.false_ne_true]
  exact handle_eq _ _ delivery

/-- A desk with no check before that waits for one says what submits it and what comes of it. -/
theorem check_waited (he : s.execution = some e) (hnone : e.checks = .none)
    (hfree : e.held = false) (hready : s.IsReady e) :
    ∃ s₁ e', s.check = (.ok true, s₁) ∧ (s₁.waitForChecks false).2 = (s.withDesk e').say
      (s.saving e ++ .status ("Checking " ++ Path.baseName (s.target e))
        :: s.deliveryEvents e' (s.deliver e (s.target e)).1) := by
  have hprepare : s.prepare e "compile" = (.ok (s.target e), s.say (s.saving e)) := by
    obtain ⟨hempty, -⟩ | ⟨-, hother, -⟩ | ⟨-, -, hmust, hsaves, -⟩ | ⟨-, hprepare⟩ :=
      s.prepare_cases e "compile"
    · exact absurd hempty hready.document
    · simp [hready.extension] at hother
    · simp [hready.saved hmust] at hsaves
    · exact hprepare
  let asked : Session := (s.say (s.saving e)).say
    [.status ("Checking " ++ Path.baseName (s.target e))]
  have hcheck : s.check = (.ok true, asked.withDesk (asked.work 1
      { e with checks := firstCheck (s.target e) })) := by
    simp only [check, he, hprepare, hnone]
    change (_, workOff (asked.withDesk { e with checks := firstCheck (s.target e) })) = _
    simp only [workOff, withDesk, hfree]
    rfl
  have hdeliver : asked.deliver e (s.target e) = s.deliver e (s.target e) := rfl
  rw [work_firstCheck, hdeliver] at hcheck
  obtain ⟨e', hwait⟩ := asked.wait_toldCheck (s.deliver e (s.target e)).2 (s.target e)
    (s.deliver e (s.target e)).1
  refine ⟨_, e', hcheck, ?_⟩
  have hevents : asked.deliveryEvents e' (s.deliver e (s.target e)).1
      = s.deliveryEvents e' (s.deliver e (s.target e)).1 := rfl
  rw [hwait, hevents]
  simp only [asked, say_say, withDesk_say, List.append_assoc, List.singleton_append]

theorem closeDesk_host (s : Session) : s.closeDesk.host = s.host := by
  unfold closeDesk
  rcases s.execution with _ | e
  · rfl
  · dsimp only
    split <;> rfl

end Session

namespace CommandLine

/-! ## What a check says -/

theorem any_isError_resultEvents (s : Session) (e : Execution) (r : Invocation.Result) :
    (s.resultEvents e r).any isError = !decide (r.outcome = .success) := by
  have hlines : (r.lines.map Event.status).any isError = false := by
    simp [isError]
  rw [Session.resultEvents, List.any_append, hlines, Bool.false_or]
  rcases r.outcome
  · dsimp only
    split_ifs <;> rfl
  · rfl
  · rfl

/-- An error is told of unless the check is a success. -/
theorem any_isError_deliveryEvents (s : Session) (e : Execution) {delivery : Delivery}
    (h : delivery.isCancelled = false) :
    (s.deliveryEvents e delivery).any isError = !delivery.isSuccess := by
  rcases delivery with (_ | ⟨t, r⟩) | reason | _
  · rfl
  · exact any_isError_resultEvents s e r
  · rfl
  · cases h

theorem any_isError_saving (s : Session) (e : Execution) : (s.saving e).any isError = false := by
  unfold Session.saving
  split_ifs <;> rfl

/-! ## The session of a command -/

variable {h h' : Host} {install file : Text} {a : Arguments} {m m₀ : Manager} {argv : List Text}

/-- The desk of a command. -/
def deskFor (install file : Text) : Execution := Desk.opened managerName (.str install) file

theorem execution_sessionFor (h : Host) (install : Text) (m : Manager) (file : Text) :
    (sessionFor h install m file).execution = some (deskFor install file) := rfl

theorem manager?_sessionFor (h : Host) (install : Text) (m : Manager) (file : Text) :
    Desk.manager? (sessionFor h install m file) (deskFor install file)
      = some (m.addListener .execution) := rfl

theorem resolve_sessionFor {t : Toolchain} :
    ((sessionFor h install m file).resolve (deskFor install file)).1 = .ok (some t)
      ↔ ∃ settings roots, m.toolchainSettings = .ok settings ∧ m.workspaceRoots h = .ok roots
        ∧ (Toolchain.search h (.str install) (.ofSettings settings) (.list (roots.map .str))
          fun path => .ok (Toolchain.fileAt h path)).outcome = .ok (some t) := by
  have hsame := Manager.sameToolchain_addListener m .execution
  have hsettings := hsame.toolchainSettings_eq
  have hroots : (m.addListener .execution).workspaceRoots h = m.workspaceRoots h :=
    hsame.workspaceRoots_eq h h.files
  have hhost : (sessionFor h install m file).host = h := rfl
  have hinstall : (deskFor install file).install = .str install := rfl
  rw [Session.resolve_fresh rfl]
  simp only [Desk.around, manager?_sessionFor, hsettings, hhost, hinstall, hroots]
  rcases m.toolchainSettings with failure | settings
  · simp
  rcases m.workspaceRoots h with fault | roots
  · simp
  · simp

/-- A file of the language for which a toolchain is found that can be started on it and prints
nothing as an error. -/
def Passes (h : Host) (install : Text) (m : Manager) (file : Text) : Prop :=
  Language.isDhrPath (Text.strip file) ∧ ∃ settings roots t ran,
    m.toolchainSettings = .ok settings ∧ m.workspaceRoots h = .ok roots
    ∧ (Toolchain.search h (.str install) (.ofSettings settings) (.list (roots.map .str))
      fun path => .ok (Toolchain.fileAt h path)).outcome = .ok (some t)
    ∧ Invocation.start h t .check (h.absoluteText (Text.strip file)) = .ok ran
    ∧ ran.stderr = []

theorem passes_iff : Passes h install m file ↔ Language.isDhrPath (Text.strip file)
    ∧ ((sessionFor h install m file).deliver (deskFor install file)
      (h.absoluteText (Text.strip file))).1.isSuccess := by
  have hhost : (sessionFor h install m file).host = h := rfl
  rw [Session.isSuccess_deliver, hhost]
  simp only [resolve_sessionFor]
  refine and_congr_right fun _ => ⟨?_, ?_⟩
  · rintro ⟨settings, roots, t, ran, hsettings, hroots, hfound, hstart⟩
    exact ⟨t, ran, ⟨settings, roots, hsettings, hroots, hfound⟩, hstart⟩
  · rintro ⟨t, ran, ⟨settings, roots, hsettings, hroots, hfound⟩, hstart⟩
    exact ⟨settings, roots, t, ran, hsettings, hroots, hfound, hstart⟩

theorem isReady_sessionFor (hfile : Language.isDhrPath (Text.strip file)) :
    (sessionFor h install m file).IsReady (deskFor install file) where
  document hempty := by
    change Text.strip file = [] at hempty
    rw [hempty] at hfile
    exact absurd hfile (by decide)
  extension := hfile
  saved hmust := by cases hmust

/-- That the file is not one of the language is told of as an error, and nothing is checked. -/
theorem exists_of_not_isDhrPath (h : Host) (install : Text) (m : Manager)
    (hfile : Language.isDhrPath (Text.strip file) = false) :
    ∃ error, (sessionFor h install m file).check
      = (.ok false, (sessionFor h install m file).say (Session.reportOf error)) := by
  simp only [Session.check, execution_sessionFor]
  obtain ⟨-, hprepare⟩ | ⟨-, -, hprepare⟩ | ⟨-, -, hmust, -⟩ | ⟨hready, -⟩ :=
    (sessionFor h install m file).prepare_cases (deskFor install file) "compile"
  · exact ⟨_, by rw [hprepare]; rfl⟩
  · exact ⟨_, by rw [hprepare]; rfl⟩
  · cases hmust
  · have hextension : Language.isDhrPath (Text.strip file) := hready.extension
    simp [hfile] at hextension

/-- A command that checks a file tells of an error unless the file passes, and leaves the host as it
is. -/
theorem act_check (hcheck : a.check) (h : Host) (install : Text) (m : Manager) (file : Text) :
    ∃ s, s.host = h
      ∧ act a (sessionFor h install m file)
        = (s, .returned (if s.log.any isError then 1 else 0), [], none)
      ∧ (s.log.any isError = false ↔ Passes h install m file) := by
  by_cases hfile : Language.isDhrPath (Text.strip file)
  · obtain ⟨s, e, hchecked, hwaited⟩ := Session.check_waited (execution_sessionFor h install m file)
      rfl rfl (isReady_sessionFor hfile)
    have hact : act a (sessionFor h install m file) = ((s.waitForChecks false).2,
        .returned (if (s.waitForChecks false).2.log.any isError then 1 else 0), [], none) := by
      simp only [act, hcheck, hchecked, if_true]
    refine ⟨_, ?_, hact, ?_⟩
    · rw [hwaited]
      rfl
    · have hlog : ∀ said : List Event,
          (((sessionFor h install m file).withDesk e).say said).log = said := fun _ => rfl
      have hstatus : ∀ t : Text, isError (.status t) = false := fun _ => rfl
      rw [hwaited, hlog, List.any_append, List.any_cons, any_isError_saving, hstatus,
        any_isError_deliveryEvents _ _ (Session.isCancelled_deliver _ _ _), passes_iff]
      simp only [Bool.false_or, Bool.not_eq_false', hfile, true_and]
      rfl
  · obtain ⟨error, hchecked⟩ := exists_of_not_isDhrPath h install m (by simpa using hfile)
    have hact : act a (sessionFor h install m file)
        = ((sessionFor h install m file).say (Session.reportOf error), .returned 1, [], none) := by
      simp only [act, hcheck, hchecked, if_true, Bool.false_eq_true, if_false]
      rfl
    refine ⟨_, rfl, hact, ?_⟩
    have herror : ((sessionFor h install m file).say (Session.reportOf error)).log.any isError
        = true := rfl
    rw [herror]
    exact iff_of_false Bool.false_ne_true.symm fun hpasses => hfile hpasses.1

/-- Where the settings can be read, checking a file ends with 0 if the file passes and with 1 in
every other case, and the host stays as it is. -/
theorem check_status_faithful (hparse : Arguments.parse argv = .ok a) (hcheck : a.check)
    (hdoc : a.helpDoc = false) (hfile : given? a.file = some file)
    (hload : loadFiles h a = (.ok m₀, h')) (hover : applyOverrides h' a m₀ = .ok m) :
    ((run h install argv).ending = .returned 0 ↔ Passes h install m file)
      ∧ (¬ Passes h install m file → (run h install argv).ending = .returned 1)
      ∧ (run h install argv).host = h := by
  obtain ⟨rfl, -⟩ := says_of_loadFiles hload
  obtain ⟨s, hhost, hact, hpasses⟩ := act_check hcheck h' install m file
  have hrun : run h' install argv = workOn h' install a file (loadComplaints m₀) m := by
    simp [run, hparse, hdoc, hfile, hload, hover]
  have hending : (run h' install argv).ending
      = .returned (if s.log.any isError then 1 else 0) := by
    rw [hrun, workOn, hact]
  have hleft : (run h' install argv).host = h' := by
    rw [hrun, workOn, hact]
    exact (Session.closeDesk_host s).trans hhost
  rw [hending, ← hpasses]
  rcases s.log.any isError
  · exact ⟨by simp, by simp, hleft⟩
  · exact ⟨by simp, by simp, hleft⟩

/-- A project with a jar and a program that prints a line and ends with the status 3. -/
def toolHost : Host :=
  ⟨⟨[(["w"], .folder), (["w", "DhrLang.jar"], .file [] false), (["bin"], .folder),
    (["bin", "java"], .tool ⟨false, Utf8.encode "done", [], 3⟩)]⟩,
    [], "/root", [], ["/bin"], some "/i"⟩

def toolArguments : Arguments :=
  { check := true, project := some "/w", file := some " /w/a.dhr " }

theorem toolHost_loadFiles : loadFiles toolHost toolArguments
    = (.ok (Settings.plainManager.ordered toolHost), toolHost) := by
  have hloads : ∀ scope, ((Settings.plainManager.store scope).load toolHost).1 = .ok () := by
    intro scope
    cases scope <;> rfl
  have hfolder : toolHost.existingFolder "/w" = .ok (some (Path.ofText "/w")) := rfl
  have hide : toolHost.ideFolder = .ok "/i" := rfl
  have hroot : (Path.ofText "/w").text = "/w" := rfl
  simp only [loadFiles, toolArguments, Option.getD_some, hfolder, hide, hroot,
    Settings.make_plainManager toolHost, Manager.loadAll, Manager.loadStores_of_loads rfl hloads]
  rfl

/-- The program's status and what it prints do not matter, nor do the blanks around the file. -/
theorem toolHost_passes :
    (run toolHost "/x" ["--check", "--project", "/w", " /w/a.dhr "]).ending = .returned 0 := by
  have hparse : Arguments.parse ["--check", "--project", "/w", " /w/a.dhr "]
      = .ok toolArguments := rfl
  have hpasses : Passes toolHost "/x" (Settings.plainManager.ordered toolHost) " /w/a.dhr " := by
    refine ⟨by decide, _, _, ⟨"/w/DhrLang.jar", .workspaceRoot, "java"⟩,
      ⟨Utf8.encode "done", [], 3⟩, rfl, rfl, rfl, rfl, rfl⟩
  exact (check_status_faithful hparse rfl rfl rfl toolHost_loadFiles rfl).1.2 hpasses

end CommandLine

end DhrWorkbench
