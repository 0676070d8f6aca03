import DhrWorkbench.Proofs.Answers

/-!
# Files that could not be read

A load that leaves its file unread remembers a reason that says something
(`isBarred_of_unread`), and a store with such a reason is never saved. No change lifts that but the
next load of the store. Until then the file stays as it is whatever the manager does, and listeners
may do anything in answer, as long as the other store has another file (`unread_file_kept`).
-/

namespace DhrWorkbench

/-! ## Reasons -/

namespace Json

/-- A reading that fails says why: of the faults of an integer only `kind` has no text. -/
def Tells {α : Type} (r : Except Fault α) : Prop :=
  ∀ fault, r = .error fault → fault ≠ .integer .kind

section Tells

variable {α β : Type}

theorem tells_ok (a : α) : Tells (.ok a : Except Fault α) := fun _ h => by cases h

theorem tells_malformed (complaint : Complaint) (position : ℕ) :
    Tells (.error (.malformed complaint position) : Except Fault α) := by
  rintro fault ⟨⟩
  simp

theorem tells_tooDeep : Tells (.error .tooDeep : Except Fault α) := by
  rintro fault ⟨⟩
  simp

theorem tells_fail (c : Cursor) (complaint : Complaint) :
    Tells (c.fail complaint : Except Fault α) :=
  tells_malformed complaint c.position

theorem Tells.error {r : Except Fault α} {fault : Fault} (h : Tells r) (hr : r = .error fault) :
    Tells (.error fault : Except Fault β) := by
  rintro other ⟨⟩
  exact h fault hr

theorem Tells.map {r : Except Fault α} (h : Tells r) (f : α → β) : Tells (r.map f) := by
  cases r with
  | error fault => exact h.error rfl
  | ok a => exact tells_ok (f a)

end Tells

theorem tells_readEscape (start position : ℕ) : ∀ t : Text, Tells (readEscape start position t)
  | [] => tells_malformed _ _
  | e :: rest => by
    unfold readEscape
    dsimp only
    split
    · split
      · split
        · exact tells_malformed _ _
        · split
          · refine Tells.map ?_ _
            unfold lowAfter?
            repeat' split
            all_goals first | exact tells_ok _ | exact tells_malformed _ _
          · exact tells_ok _
      · exact tells_malformed _ _
    · split
      · exact tells_ok _
      · exact tells_malformed _ _

theorem tells_readString (start : ℕ) : ∀ (t : Text) (position skip : ℕ),
    Tells (readString start position skip t)
  | [], _, _ => by
    unfold readString
    exact tells_malformed _ _
  | _ :: rest, position, skip + 1 => by
    unfold readString
    exact tells_readString start rest _ skip
  | c :: rest, position, 0 => by
    rw [readString_cons]
    split
    · exact tells_ok _
    · split
      · split
        · rename_i fault hescape
          exact (tells_readEscape start position rest).error hescape
        · exact (tells_readString start rest _ _).map _
      · split
        · exact tells_malformed _ _
        · exact (tells_readString start rest _ 0).map _

theorem tells_readNumber (c : Cursor) : Tells (readNumber c) := by
  unfold readNumber
  extract_lets negative signed whole afterWhole fraction afterFraction exponent done digits power d
  clear_value d power digits done exponent afterFraction fraction
  split
  · exact tells_fail c _
  · split
    · split
      · exact tells_ok _
      · rename_i fault hdigits
        unfold Text.natOfDigits at hdigits
        split at hdigits
        · cases hdigits
          rintro other ⟨⟩
          simp
        · cases hdigits
    · exact tells_ok _

/-- Reading fails with a reason, by induction on the fuel of the three readers. -/
theorem tells_reads : ∀ fuel : ℕ, (∀ depth c, Tells (readValue fuel depth c))
    ∧ (∀ depth c, Tells (readItems fuel depth c))
    ∧ ∀ depth done c, Tells (readFields fuel depth done c)
  | 0 => by
    refine ⟨fun depth c => ?_, fun depth c => ?_, fun depth done c => ?_⟩
    · unfold readValue
      exact tells_fail c _
    · unfold readItems
      exact tells_fail c _
    · unfold readFields
      exact tells_fail c _
  | fuel + 1 => by
    obtain ⟨ihvalue, ihitems, ihfields⟩ := tells_reads fuel
    refine ⟨fun depth c => ?_, fun depth c => ?_, fun depth done c => ?_⟩
    · unfold readValue
      split
      · exact (tells_readString _ _ _ _).map _
      · split
        · split
          · exact tells_tooDeep
          · dsimp only
            split
            · exact tells_ok _
            · exact (ihfields _ _ _).map _
        · split
          · split
            · exact tells_tooDeep
            · dsimp only
              split
              · exact tells_ok _
              · exact (ihitems _ _).map _
          · split
            · exact tells_ok _
            · exact tells_readNumber c
    · unfold readItems
      split
      · rename_i fault hvalue
        exact (ihvalue depth c).error hvalue
      · dsimp only
        split
        · exact tells_ok _
        · split
          · exact (ihitems _ _).map _
          · exact tells_fail _ _
    · unfold readFields
      split
      · exact tells_fail c _
      · split
        · rename_i fault hname
          exact (tells_readString _ _ _ _).error hname
        · dsimp only
          split
          · exact tells_fail _ _
          · split
            · rename_i fault hvalue
              exact (ihvalue _ _).error hvalue
            · split
              · exact tells_ok _
              · split
                · exact ihfields _ _ _
                · exact tells_fail _ _

theorem tells_read (document : Text) : Tells (read document) := by
  unfold read
  split
  · exact tells_malformed _ _
  · split
    · rename_i fault hvalue
      exact ((tells_reads _).1 _ _).error hvalue
    · dsimp only
      split
      · exact tells_ok _
      · exact tells_fail _ _

theorem message_ne_nil {document : Text} {fault : Fault} (hkind : fault ≠ .integer .kind)
    (hdeep : fault ≠ .tooDeep) : fault.message document ≠ [] := by
  cases fault with
  | malformed complaint position =>
    simp [Fault.message, Text.ofString]
  | integer fault =>
    cases fault with
    | kind => exact absurd rfl hkind
    | nan => simp [Fault.message, IntegerFault.message, Text.ofString]
    | infinite => simp [Fault.message, IntegerFault.message, Text.ofString]
    | malformed t => simp [Fault.message, IntegerFault.message, Text.ofString]
    | tooLong digits => simp [Fault.message, IntegerFault.message, Text.ofString]
  | tooDeep => exact absurd rfl hdeep

/-- A file that is refused is refused with a reason, unless it nests too deep. -/
theorem message_ne_nil_of_readBytes {bytes : List Byte} {fault : FileFault}
    (h : readBytes bytes = .error fault) (hdeep : ∀ document, fault ≠ .text document .tooDeep) :
    fault.message ≠ [] := by
  unfold readBytes at h
  dsimp only at h
  split at h
  · cases h
    simp [FileFault.message, Utf8.Undecodable.message, Text.ofString]
  · split at h
    · rename_i fault hread
      cases h
      exact message_ne_nil (tells_read _ fault hread) fun hf => hdeep _ (by rw [hf])
    · cases h

end Json

theorem PathFault.message_ne_nil (fault : PathFault) : fault.message ≠ [] := by
  cases fault with
  | os error => simp [PathFault.message, OsError.message, Text.ofString]
  | kind name => simp [PathFault.message, Text.ofString]
  | nullByte => decide
  | unencodable fault => simp [PathFault.message, Utf8.Unencodable.message, Text.ofString]
  | noHome => decide

namespace Settings

open Host (KeepsAt)

namespace Store

theorem reason_ne_nil {s : Store} {h : Host} {reason : Text}
    (hr : s.readFile h = .ok (.error reason)) : reason ≠ [] := by
  unfold readFile at hr
  split at hr
  · cases hr
    exact PathFault.message_ne_nil _
  · split at hr
    · cases hr
    · rename_i fault hdeep hread
      cases hr
      exact Json.message_ne_nil_of_readBytes hread hdeep
    · split at hr
      · cases hr
      · cases hr
    · cases hr
      simp [Text.ofString]

/-- A load that remembers a reason bars the store from saving. -/
theorem isBarred_of_unread {s : Store} {h : Host} (hl : (s.load h).2.lastError ≠ none) :
    (s.load h).2.isBarred := by
  cases hload : s.load h with
  | mk r s' =>
    rw [hload] at hl
    obtain ⟨-, rfl, -⟩ | ⟨-, -, rfl, -⟩ | ⟨-, -, -, reason, hread, rfl⟩
      | ⟨-, -, -, fields, -, rfl⟩ := load_cases hload
    · exact absurd rfl hl
    · exact absurd rfl hl
    · simpa [isBarred] using reason_ne_nil hread
    · exact absurd rfl hl

end Store

/-! ## Stores that are not saved -/

/-- A store is barred until its next load. -/
theorem isBarred_of_step {a b : Scene} {c : Change} {scope : Scope} (h : Step c a b)
    (hc : c ≠ .load scope) (hb : (a.store scope).isBarred) : (b.store scope).isBarred := by
  have helim := @Manager.store_withStore_elim fun s => s.isBarred
  cases h with
  | load =>
    refine helim ?_ fun _ => hb
    rintro rfl
    exact absurd rfl hc
  | normalise => cases scope <;> exact hb
  | save barred hsave =>
    refine helim ?_ fun _ => hb
    rintro rfl
    exact absurd hb (by simpa using barred)
  | write hset =>
    obtain ⟨data, -, rfl⟩ := Store.exists_of_written hset
    refine helim ?_ fun _ => hb
    rintro rfl
    exact hb
  | listeners ls => cases scope <;> exact hb
  | edit files => exact hb

/-- The changes that leave the file of a scope alone while its store is barred. -/
def Change.Spares (scope : Scope) (c : Change) : Prop := c ≠ .load scope ∧ ∀ files, c ≠ .edit files

/-- Of these changes only a save changes files, and it is one of the other store. -/
theorem keepsAt_of_step {a b : Scene} {c : Change} {scope : Scope} (h : Step c a b)
    (hc : c.Spares scope) (hapart : a.Apart) (hb : (a.store scope).isBarred) :
    KeepsAt (a.fileAt scope) a.host b.host := by
  cases h with
  | @save _ saved r s h barred hsave =>
    refine keepsAt_of_save hapart ?_ hsave
    rintro rfl
    exact absurd hb (by simpa using barred)
  | edit => exact absurd rfl (hc.2 _)
  | _ => exact .refl _ _

theorem kept_of_steps {a b : Scene} {scope : Scope} (h : Steps (Change.Spares scope) a b)
    (hapart : a.Apart) (hb : (a.store scope).isBarred) :
    KeepsAt (a.fileAt scope) a.host b.host ∧ (b.store scope).isBarred := by
  -- Only stores apart leave each other's file, so that the files stay apart is carried along.
  have hkeeps := h.keeps
    (P := fun b => a.Continues b ∧ KeepsAt (a.fileAt scope) a.host b.host
      ∧ (b.store scope).isBarred)
    (fun hc hstep ⟨hcontinues, hkept, hbarred⟩ => by
      have hnext := keepsAt_of_step hstep hc (hcontinues.apart hapart) hbarred
      rw [hcontinues.fileAt_eq] at hnext
      exact ⟨hcontinues.trans hstep.continues, hkept.trans hnext,
        isBarred_of_step hstep hc.1 hbarred⟩)
    ⟨.refl a, .refl _ _, hb⟩
  exact hkeeps.2

theorem notMem_saveScopes {scope : Scope} {onlyDirty : Bool} : ∀ {scopes saved : List Scope}
    {m m' : Manager} {h h' : Host}, (m.store scope).isBarred →
    Manager.saveScopes onlyDirty scopes m h = (.ok saved, m', h') → scope ∉ saved
  | [], saved, m, m', h, h', hb, hs => by
    cases hs
    simp
  | first :: rest, saved, m, m', h, h', hb, hs => by
    rw [Manager.saveScopes] at hs
    split at hs
    · rename_i hwants
      have hne : scope ≠ first := by
        rintro rfl
        simp [Manager.wantsSave, hb] at hwants
      split at hs
      · cases hs
      · split at hs
        · rename_i hsaved
          cases hs
          refine List.not_mem_cons_of_ne_of_not_mem hne (notMem_saveScopes ?_ hsaved)
          rw [Manager.store_withStore_of_ne _ hne]
          exact hb
        · cases hs
    · exact notMem_saveScopes hb hs

/-! ## Runs -/

/-- An operation of the manager does not change the file of a scope and does not report it as
saved. -/
def Scene.LeavesFile (scope : Scope) (sc : Scene) (op : Operation) : Prop :=
  op.isOwn → KeepsAt (sc.fileAt scope) sc.host (sc.after op).host
    ∧ ∀ onlyDirty saved, op = .saveAll onlyDirty →
      (sc.manager.saveAll sc.host onlyDirty).1 = .ok saved → scope ∉ saved

/-- Until the next load, each operation leaves the file of a barred store, and the store barred. -/
theorem leavesFile_of_isBarred {sc : Scene} {scope : Scope} {op : Operation} (hapart : sc.Apart)
    (hb : (sc.store scope).isBarred) (hop : ¬ sc.Loads scope op) :
    sc.LeavesFile scope op ∧ ((sc.after op).store scope).isBarred := by
  by_cases hown : op.isOwn
  · have hmade : op.MadeOf sc (Change.Spares scope) := by
      refine ⟨by simp [Change.Spares], by simp [Change.Spares], by simp [Change.Spares], ?_,
        by simp [Change.Spares], ?_⟩
      · intro other hloads
        refine ⟨?_, by simp⟩
        rintro ⟨⟩
        exact hop hloads
      · rintro files rfl
        cases hown
    obtain ⟨hkept, hbarred⟩ := kept_of_steps (steps_after hmade) hapart hb
    refine ⟨fun _ => ⟨hkept, ?_⟩, hbarred⟩
    rintro onlyDirty saved rfl hsaved
    exact notMem_saveScopes hb (Prod.ext hsaved rfl : sc.manager.saveAll sc.host onlyDirty
      = (.ok saved, (sc.manager.saveAll sc.host onlyDirty).2))
  · cases op with
    | edit files => exact ⟨fun h => absurd h hown, hb⟩
    | _ => exact absurd rfl hown

theorem always_leavesFile {scope : Scope} : ∀ {ops : List Operation} {sc : Scene}, sc.Apart →
    (sc.store scope).isBarred → sc.Always (fun sc op => ¬ sc.Loads scope op) ops →
    sc.Always (Scene.LeavesFile scope) ops
  | [], _, _, _, _ => trivial
  | op :: rest, sc, hapart, hb, ⟨hop, hrest⟩ => by
    obtain ⟨hleaves, hbarred⟩ := leavesFile_of_isBarred hapart hb hop
    exact ⟨hleaves, always_leavesFile ((sc.continues_after op).apart hapart) hbarred hrest⟩

/-- A load that leaves the file unread leaves it as it is, and the store barred, also when what is
dirty is written back. -/
theorem leavesFile_of_unread {sc : Scene} {scope : Scope} (hapart : sc.Apart)
    (hreaches : sc.Reaches scope) (hunread : ((sc.store scope).load sc.host).2.lastError ≠ none)
    (writeBack : Bool) : sc.LeavesFile scope (.loadAll writeBack)
      ∧ ((sc.after (.loadAll writeBack)).store scope).isBarred := by
  obtain ⟨loaded, hcontinues, hhost, hstore, hsteps⟩ :=
    @exists_steps_of_load (Change.Spares scope) sc scope hreaches writeBack
      (by simp [Change.Spares]) (by simp [Change.Spares])
      (fun other hne => ⟨by simpa using hne, by simp⟩)
  have hbarred : (loaded.store scope).isBarred := by
    rw [hstore]
    exact Store.isBarred_of_unread hunread
  obtain ⟨hkept, hafter⟩ := kept_of_steps hsteps (hcontinues.apart hapart) hbarred
  rw [hcontinues.fileAt_eq, hhost] at hkept
  exact ⟨fun _ => ⟨hkept, by simp⟩, hafter⟩

theorem keepsAt_run {scope : Scope} : ∀ {ops : List Operation} {sc : Scene},
    (∀ op ∈ ops, op.isOwn) → sc.Always (Scene.LeavesFile scope) ops →
    KeepsAt (sc.fileAt scope) sc.host (sc.run ops).host
  | [], sc, _, _ => .refl _ sc.host
  | op :: rest, sc, hown, ⟨hop, hrest⟩ => by
    obtain ⟨hop', hrest'⟩ := List.forall_mem_cons.1 hown
    have hkept := keepsAt_run hrest' hrest
    rw [(sc.continues_after op).fileAt_eq] at hkept
    exact (hop hop').1.trans hkept

/-- From a load that leaves the file of a scope unread until the next load of that scope, no
operation of the manager changes the file or reports it as saved, whatever happened before and
whatever others do to the files. An action on the manager together with all that listeners do in
answer is a run of operations too, of which the same holds. -/
theorem unread_file_kept {h : Host} {projectRoot ideFolder projectName ideName : Text}
    {persistent : Bool} {m : Manager}
    (hmake : Manager.make h projectRoot ideFolder projectName ideName persistent = .ok m)
    (hfiles : h.locationOf m.project.path.text ≠ h.locationOf m.ide.path.text)
    (before : List Operation) {sc : Scene} (hsc : sc = (Scene.mk m h).run before) (scope : Scope)
    (hreaches : sc.Reaches scope) (hunread : ((sc.store scope).load sc.host).2.lastError ≠ none)
    (writeBack : Bool) (rest : List Operation)
    (huntil : (sc.after (.loadAll writeBack)).Always (fun sc op => ¬ sc.Loads scope op) rest) :
    sc.Always (Scene.LeavesFile scope) (.loadAll writeBack :: rest)
      ∧ ∀ (name : Text) (s : Session) (a : Action),
        s.HasScene name (sc.run (.loadAll writeBack :: rest)) →
        ∃ ops : List Operation, ops ⊆ a.operations name ++ s.answerOperations name
          ∧ (Session.perform a s).2.HasScene name (sc.run (.loadAll writeBack :: (rest ++ ops)))
          ∧ ((sc.run (.loadAll writeBack :: rest)).Always (fun sc op => ¬ sc.Loads scope op) ops →
            (sc.run (.loadAll writeBack :: rest)).Always (Scene.LeavesFile scope) ops) := by
  have hapart : sc.Apart := by
    rw [hsc]
    exact (Scene.continues_run before _).apart (apart_of_make hmake hfiles)
  obtain ⟨hleaves, hbarred⟩ := leavesFile_of_unread hapart hreaches hunread writeBack
  have hafter := (sc.continues_after (.loadAll writeBack)).apart hapart
  refine ⟨⟨hleaves, always_leavesFile hafter hbarred huntil⟩, fun name s a hscene => ?_⟩
  obtain ⟨ops, hops, hperformed⟩ := Session.perform_isRun hscene a
  refine ⟨ops, hops, ?_, fun huntil' => ?_⟩
  · rw [← Scene.run_append] at hperformed
    exact hperformed
  · exact (always_leavesFile hafter hbarred (huntil.append huntil')).of_append

/-- A host on which the settings of a project are cut off after their first byte. -/
def cutOffHost : Host :=
  ⟨⟨[(["w"], .folder), (["w", ".pydhr"], .folder),
    (["w", ".pydhr", "project.json"], .file [.ofNat 0x7b] false)]⟩, [], "/root", [], [], none⟩

/-- The file that was cut off is the same after a setting of the project was changed and all was
saved. -/
theorem cutOff_file_kept :
    Manager.make cutOffHost "/w" "/i" Paths.projectName Paths.ideName true = .ok plainManager
      ∧ ((plainManager.store .project).load cutOffHost).2.lastError ≠ none
      ∧ ((Scene.mk plainManager cutOffHost).run [.loadAll true,
        .set "project_name" (.str "x") none, .saveAll false]).host.files.get?
          ["w", ".pydhr", "project.json"] = some (.file [.ofNat 0x7b] false) := by
  have hunread : ((plainManager.store .project).load cutOffHost).2.lastError ≠ none := by decide
  have hkept := unread_file_kept (make_plainManager cutOffHost) (by decide) [] rfl .project trivial
    hunread true [.set "project_name" (.str "x") none, .saveAll false] ⟨id, id, trivial⟩
  have hfile := (keepsAt_run (by simp [Operation.isOwn]) hkept.1).some rfl
  exact ⟨make_plainManager cutOffHost, hunread, hfile⟩

end Settings

end DhrWorkbench
