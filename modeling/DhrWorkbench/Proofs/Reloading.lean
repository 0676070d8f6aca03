import DhrWorkbench.Proofs.Recoverable
import DhrWorkbench.Proofs.ToolchainSection

/-!
# Loading the settings twice

A project's document in normal form stays as it is when it is put in normal form again
(`normalise_eq_self`), also when it was written to a file and read with its fields in another order.
So loading both stores and saving what is dirty leaves each store as loading finds it again
(`reloads_of_savesTo`): its file was not written and is read as before, or it holds the document. A
second load then finds the same settings and has nothing to save (`loadAll_twice`).
-/

namespace DhrWorkbench

namespace Settings

open Host (Touches)

/-! ## Documents in normal form -/

theorem isOn_bool (b : Bool) : isOn (.bool b) = b := rfl

theorem complete_of_isNormal {fields : Fields} {config : Toolchain.Config}
    (h : IsNormal fields config) : Fields.complete fields defaultToolchain = fields := by
  refine Fields.complete_eq_self ?_
  simp only [defaultToolchain, List.forall_mem_cons]
  refine ⟨⟨_, h.java, ?_⟩, ⟨_, h.jar, ?_⟩, ⟨_, h.autoDetect, ?_⟩, nofun⟩
  all_goals exact Fields.completeValue_default _ nofun

/-- The normal form of a section in normal form is the section. -/
theorem normalSection_eq_self {fields : Fields} {config : Toolchain.Config}
    (h : IsNormal fields config) : normalSection (some (.object fields)) = fields := by
  have hjar : (Value.str config.jar).textOr "" = config.jar := by
    cases hcase : config.jar <;> rfl
  unfold normalSection
  simp only [Fields.ofSection, complete_of_isNormal h, h.java, h.jar, h.autoDetect,
    Option.getD_some, javaProgram_str h.named h.trim, hjar, isOn_bool]
  rw [Fields.insert_eq_self h.java, Fields.insert_eq_self h.jar, Fields.insert_eq_self h.autoDetect]

/-- A project's document that is in normal form. -/
structure IsNormalDocument (data : Fields) : Prop where
  proper : (Value.object data).isProper
  toolchain : ∃ fields config, Fields.get? "dhrlang" data = some (.object fields)
    ∧ IsNormal fields config
  roots : ∃ items, Fields.get? "workspace_roots" data = some (.list items)

theorem normalise_eq_self {s : Store} (h : IsNormalDocument s.data) : s.normalise = s := by
  obtain ⟨fields, config, hget, hnormal⟩ := h.toolchain
  obtain ⟨items, hroots⟩ := h.roots
  have hfields : (Value.object fields).isProper := Value.isFormed_get? h.proper hget
  have hsame : (Value.object fields).same true (.object fields) :=
    (Value.same_iff _ hfields hfields).2 rfl
  simp only [Store.normalise, hget, normalSection_eq_self hnormal, Fields.insert_eq_self hget,
    hroots]
  simp [isList, hsame]

theorem normalRoots_cases (current : Option Value) : (∃ items, current = some (.list items))
    ∨ (isList current = false ∧ normalRoots current = .list []) := by
  cases current with
  | none => exact .inr ⟨rfl, rfl⟩
  | some v =>
    cases v with
    | list items => exact .inl ⟨items, rfl⟩
    | _ => exact .inr ⟨rfl, rfl⟩

/-- The document of a store in normal form: the section on the toolchain is the normal one, and the
roots of the workspace are those that were there, if there was a list. -/
theorem data_normalise (s : Store) : ∃ roots,
    (Fields.get? "workspace_roots" s.data = some (.list roots) ∨ roots = [])
    ∧ s.normalise.data = Fields.insert "workspace_roots" (.list roots) (Fields.insert "dhrlang"
      (.object (normalSection (Fields.get? "dhrlang" s.data))) s.data) := by
  have hget : ∀ v : Value, Fields.get? "workspace_roots" (Fields.insert "dhrlang" v s.data)
      = Fields.get? "workspace_roots" s.data := by
    intro v
    rw [Fields.get?_insert, if_neg (by decide)]
  unfold Store.normalise
  dsimp only
  rw [hget]
  obtain ⟨items, hitems⟩ | ⟨hnot, hempty⟩ :=
    normalRoots_cases (Fields.get? "workspace_roots" s.data)
  · refine ⟨items, .inl hitems, ?_⟩
    rw [Fields.insert_eq_self ((hget _).trans hitems), hitems]
    rfl
  · refine ⟨[], .inr rfl, ?_⟩
    rw [hnot, hempty]
    rfl

theorem isProper_normalSection {current : Option Value} (h : ∀ v ∈ current, v.isProper) :
    (Value.object (normalSection current)).isProper := by
  have hfields := Value.isFormed_complete (by decide : (Value.object defaultToolchain).isProper)
    (Value.isFormed_ofSection h)
  unfold normalSection
  exact Value.isFormed_insert
    (Value.isFormed_insert (Value.isFormed_insert hfields rfl rfl) rfl rfl) rfl rfl

theorem isNormalDocument_normalise {s : Store} (h : (Value.object s.data).isProper) :
    IsNormalDocument s.normalise.data := by
  obtain ⟨config, hnormal⟩ := isNormal_normalSection (Fields.get? "dhrlang" s.data)
  obtain ⟨roots, hroots, hdata⟩ := data_normalise s
  refine ⟨?_, ⟨_, config, get?_normalise s, hnormal⟩, roots, ?_⟩
  · rw [hdata]
    refine Value.isFormed_insert (Value.isFormed_insert h rfl ?_) rfl ?_
    · exact isProper_normalSection fun v hv => Value.isFormed_get? h hv
    · rcases hroots with hroots | rfl
      · exact Value.isFormed_get? h hroots
      · rfl
  · rw [hdata, Fields.get?_insert, if_pos rfl]

theorem height_normalise_le {s : Store} {n : ℕ} (hn : 1 ≤ n)
    (h : (Value.object s.data).height ≤ n + 2) :
    (Value.object s.normalise.data).height ≤ n + 2 := by
  have hget : ∀ {name v}, Fields.get? name s.data = some v → v.height ≤ n + 1 := fun hv =>
    Value.height_object_le_iff.1 h _ (Fields.mem_of_get? hv)
  obtain ⟨roots, hroots, hdata⟩ := data_normalise s
  rw [hdata]
  refine Value.height_insert_le (Value.height_insert_le h ?_) ?_
  · exact height_normalSection_le hn fun v hv => hget hv
  · rcases hroots with hroots | rfl
    · exact hget hroots
    · simp [Value.height, Value.heightOfItems]

/-- A document in normal form that was completed from the defaults has nothing to be completed. -/
theorem complete_normalise {s : Store} {fields : Fields}
    (h : s.data = Fields.complete fields defaultProject) :
    Fields.complete s.normalise.data defaultProject = s.normalise.data := by
  obtain ⟨config, hnormal⟩ := isNormal_normalSection (Fields.get? "dhrlang" s.data)
  obtain ⟨roots, -, hdata⟩ := data_normalise s
  have hname : ∃ v, Fields.get? "project_name" s.normalise.data = some v := by
    rw [hdata, Fields.get?_insert, if_neg (by decide), Fields.get?_insert, if_neg (by decide), h,
      Fields.get?_complete _ _ (by decide)]
    exact ⟨_, rfl⟩
  obtain ⟨name, hname⟩ := hname
  refine Fields.complete_eq_self ?_
  simp only [defaultProject, List.forall_mem_cons]
  refine ⟨⟨name, hname, ?_⟩, ⟨.list roots, ?_, ?_⟩, ⟨_, get?_normalise s, ?_⟩, nofun⟩
  · exact Fields.completeValue_default _ nofun
  · rw [hdata, Fields.get?_insert, if_pos rfl]
  · exact Fields.completeValue_default _ nofun
  · rw [Fields.completeValue_object, complete_of_isNormal hnormal]

/-- What is found in a document is found in one with another order of fields. -/
theorem get?_of_arranged {fs gs : Fields} (hfs : (Value.object fs).isProper)
    (hgs : (Value.object gs).isProper)
    (h : (Value.object gs).arranged = (Value.object fs).arranged) {name : Text} {v : Value}
    (hv : Fields.get? name fs = some v) :
    ∃ w, Fields.get? name gs = some w ∧ w.arranged = v.arranged := by
  have hfield := (Value.form_object_iff (Fields.nodup_of_isProper hgs)
    (Fields.nodup_of_isProper hfs)).1 h name
  rw [hv] at hfield
  exact Option.map_eq_some_iff.1 hfield

theorem eq_of_arranged {v w : Value} (hv : v.isName) (h : w.arranged = v.arranged) : w = v := by
  have hw : w.arranged.isName = w.isName := Value.isName_form (fun _ hu => hu) w
  rw [h, Value.arranged_name hv, hv] at hw
  rwa [Value.arranged_name hv, Value.arranged_name hw.symm] at h

theorem IsNormal.of_arranged {fs gs : Fields} {config : Toolchain.Config} (h : IsNormal fs config)
    (hfs : (Value.object fs).isProper) (hgs : (Value.object gs).isProper)
    (harranged : (Value.object gs).arranged = (Value.object fs).arranged) : IsNormal gs config := by
  have hget : ∀ {name v}, v.isName → Fields.get? name fs = some v →
      Fields.get? name gs = some v := by
    intro name v hname hv
    obtain ⟨w, hw, hform⟩ := get?_of_arranged hfs hgs harranged hv
    rwa [eq_of_arranged hname hform] at hw
  exact ⟨hget rfl h.java, hget rfl h.jar, hget rfl h.autoDetect, h.named, h.trim⟩

/-- A document is in normal form in any order of its fields. -/
theorem IsNormalDocument.of_arranged {fs gs : Fields} (h : IsNormalDocument fs)
    (hgs : (Value.object gs).isProper)
    (harranged : (Value.object gs).arranged = (Value.object fs).arranged) :
    IsNormalDocument gs := by
  have hid : ∀ v : Value, v.isName → (id v).isName := fun _ hv => hv
  refine ⟨hgs, ?_, ?_⟩
  · obtain ⟨fields, config, hget, hnormal⟩ := h.toolchain
    obtain ⟨w, hw, hform⟩ := get?_of_arranged h.proper hgs harranged hget
    obtain ⟨others, rfl⟩ := Value.object_of_form_eq hid hform.symm
    exact ⟨others, config, hw, hnormal.of_arranged (Value.isFormed_get? h.proper hget)
      (Value.isFormed_get? hgs hw) hform⟩
  · obtain ⟨items, hget⟩ := h.roots
    obtain ⟨w, hw, hform⟩ := get?_of_arranged h.proper hgs harranged hget
    obtain ⟨others, rfl⟩ := Value.list_of_form_eq hid hform.symm
    exact ⟨others, hw⟩

/-! ## Documents in order -/

def Scope.defaults : Scope → Fields
  | .project => defaultProject
  | .ide => defaultIde

/-- A loaded store as loading all leaves it: that of the project in normal form. -/
def Store.ordered (s : Store) : Scope → Store
  | .project => s.normalise
  | .ide => s

/-- A document that loading all leaves as it is. -/
structure IsInOrder (scope : Scope) (data : Fields) : Prop where
  proper : (Value.object data).isProper
  complete : Fields.complete data scope.defaults = data
  normal : scope = .project → IsNormalDocument data

theorem Scope.isProper_defaults (scope : Scope) : (Value.object scope.defaults).isProper := by
  cases scope <;> decide

theorem Scope.height_defaults (scope : Scope) :
    (Value.object scope.defaults).height ≤ Value.heightLimit := by
  cases scope <;> decide

theorem isInOrder_defaults (scope : Scope) :
    IsInOrder scope (Fields.complete [] scope.defaults) := by
  refine ⟨Value.isFormed_complete scope.isProper_defaults Value.isFormed_nil,
    Fields.complete_complete scope.isProper_defaults, ?_⟩
  rintro rfl
  have htrim : Text.IsTrim "java" := isTrim_javaProgram .null
  exact ⟨by decide, ⟨defaultToolchain, ⟨"java", "", true⟩, rfl, rfl, rfl, rfl, by decide, htrim⟩,
    [], rfl⟩

theorem ordered_eq_self {scope : Scope} {s : Store} (h : IsInOrder scope s.data) :
    s.ordered scope = s := by
  cases scope with
  | project => exact normalise_eq_self (h.normal rfl)
  | ide => rfl

theorem isInOrder_ordered {scope : Scope} {s : Store} {fields : Fields}
    (hfields : (Value.object fields).isProper)
    (hdata : s.data = Fields.complete fields scope.defaults) :
    IsInOrder scope (s.ordered scope).data := by
  have hproper : (Value.object s.data).isProper := by
    rw [hdata]
    exact Value.isFormed_complete scope.isProper_defaults hfields
  cases scope with
  | project =>
    have hnormal := isNormalDocument_normalise hproper
    exact ⟨hnormal.proper, complete_normalise hdata, fun _ => hnormal⟩
  | ide =>
    refine ⟨hproper, ?_, nofun⟩
    change Fields.complete s.data _ = s.data
    rw [hdata, Fields.complete_complete (Scope.isProper_defaults .ide)]

namespace Store

theorem SameFile.symm {s t : Store} (h : s.SameFile t) : t.SameFile s :=
  ⟨h.path.symm, h.defaults.symm, h.persistent.symm⟩

theorem sameFile_ordered (s : Store) (scope : Scope) : s.SameFile (s.ordered scope) := by
  cases scope <;> exact ⟨rfl, rfl, rfl⟩

theorem lastError_ordered (s : Store) (scope : Scope) :
    (s.ordered scope).lastError = s.lastError := by
  cases scope <;> rfl

theorem dirty_ordered {s : Store} (h : s.dirty) (scope : Scope) : (s.ordered scope).dirty := by
  cases scope with
  | project => simp [ordered, normalise, h]
  | ide => exact h

theorem height_ordered_le {s : Store} (scope : Scope)
    (h : (Value.object s.data).height ≤ Value.heightLimit) :
    (Value.object (s.ordered scope).data).height ≤ Value.heightLimit := by
  cases scope with
  | project => exact height_normalise_le (by decide : 1 ≤ 492) h
  | ide => exact h

/-! ## Loading again -/

theorem reset_of_sameFile {s t : Store} (h : s.SameFile t) : t.reset = s.reset := by
  simp only [reset, h.path, h.defaults, h.persistent]

theorem sameFile_of_load {s t : Store} {h : Host} {r : Except Failure Unit}
    (hl : s.load h = (r, t)) : s.SameFile t := by
  have hsame := sameFile_load s h
  rwa [hl] at hsame

/-- A load that returns completes a document that does not nest too deep. -/
theorem exists_of_load {s t : Store} {h : Host} (hl : s.load h = (.ok (), t)) :
    ∃ fields, t.data = Fields.complete fields s.defaults ∧ (Value.object fields).isProper
      ∧ (Value.object fields).height ≤ Value.heightLimit := by
  obtain ⟨-, rfl, -⟩ | ⟨-, ⟨failure, hfailure⟩, -⟩ | ⟨-, -, -, reason, -, rfl⟩
    | ⟨-, -, -, fields, hread, rfl⟩ := load_cases hl
  · exact ⟨[], rfl, Value.isFormed_nil, by decide⟩
  · cases hfailure
  · exact ⟨[], rfl, Value.isFormed_nil, by decide⟩
  · obtain ⟨bytes, -, hdocument, hheight⟩ := readFile_ok hread
    exact ⟨fields, rfl, Json.isProper_of_readBytes hdocument, hheight⟩

/-- Loading a store of the same file again comes to the same, as long as the path of the file leads
to the same thing. -/
theorem load_again {s t u : Store} {h h' : Host} (hst : s.SameFile t) (hl : s.load h = (.ok (), u))
    (hthere : s.persistent → ∃ node, h.stat s.path.text = .ok node)
    (hstat : ∀ node, h.stat s.path.text = .ok node → h'.stat s.path.text = .ok node) :
    t.load h' = (.ok (), u) := by
  by_cases hp : s.persistent
  · obtain ⟨node, hnode⟩ := hthere hp
    have hexists : h'.exists t.path.text = .ok true := by
      rw [hst.path]
      exact exists_of_stat (hstat node hnode)
    have hread : t.readFile h' = s.readFile h := by
      rw [← readFile_congr ((hstat node hnode).trans hnode.symm)]
      simp only [readFile, hst.path]
    obtain ⟨-, -, hnot | hnot⟩ | ⟨-, ⟨failure, hfailure⟩, -⟩ | ⟨-, -, -, reason, hreason, rfl⟩
      | ⟨-, -, -, fields, hfields, rfl⟩ := load_cases hl
    · rw [hp] at hnot
      cases hnot
    · rw [exists_of_stat hnode] at hnot
      cases hnot
    · cases hfailure
    · unfold load
      rw [if_neg (by simp [hst.persistent, hp]), hexists]
      simp only [hread, hreason, reset_of_sameFile hst]
    · unfold load
      rw [if_neg (by simp [hst.persistent, hp]), hexists]
      simp only [hread, hfields, hst.path, hst.defaults, hst.persistent]
  · unfold load at hl ⊢
    rw [if_pos (by simpa using hp)] at hl
    rw [if_pos (by simpa [hst.persistent] using hp), reset_of_sameFile hst]
    exact hl

/-- Loading all again finds the store as it is, up to the order of fields, and not dirty. -/
structure Reloads (scope : Scope) (s : Store) (h : Host) : Prop where
  there : s.persistent → ∃ node, h.stat s.path.text = .ok node
  again : ∃ t, s.load h = (.ok (), t) ∧ (t.ordered scope).dirty = false
    ∧ (t.ordered scope).lastError = s.lastError
    ∧ (Value.object (t.ordered scope).data).arranged = (Value.object s.data).arranged

theorem Reloads.of_stat {scope : Scope} {s : Store} {h h' : Host} (hs : s.Reloads scope h)
    (hstat : ∀ node, h.stat s.path.text = .ok node → h'.stat s.path.text = .ok node) :
    s.Reloads scope h' := by
  obtain ⟨t, hload, hrest⟩ := hs.again
  refine ⟨fun hp => ?_, t, load_again (.refl s) hload hs.there hstat, hrest⟩
  obtain ⟨node, hnode⟩ := hs.there hp
  exact ⟨node, hstat node hnode⟩

/-- A store that was loaded and is not dirty is found again in the same file. -/
theorem reloads_of_load {scope : Scope} {s t : Store} {h h' : Host} (hload : s.load h = (.ok (), t))
    (hthere : s.persistent → ∃ node, h.stat s.path.text = .ok node)
    (hstat : ∀ node, h.stat s.path.text = .ok node → h'.stat s.path.text = .ok node)
    (hclean : (t.ordered scope).dirty = false) : (t.ordered scope).Reloads scope h' := by
  have hsame := (sameFile_of_load hload).trans (t.sameFile_ordered scope)
  refine ⟨fun hp => ?_, t, load_again hsame hload hthere hstat, hclean, rfl, rfl⟩
  rw [hsame.persistent] at hp
  obtain ⟨node, hnode⟩ := hthere hp
  rw [hsame.path]
  exact ⟨node, hstat node hnode⟩

/-- A store whose document was written is found again in its file. -/
theorem reloads_of_isWritten {scope : Scope} {s : Store} {h : Host}
    (hdefaults : s.defaults = scope.defaults) (hp : s.persistent) (horder : IsInOrder scope s.data)
    (hheight : (Value.object s.data).height ≤ Value.heightLimit) (hw : s.IsWritten h) :
    { s with dirty := false, lastError := none : Store }.Reloads scope h := by
  obtain ⟨executable, hnode⟩ := hw.stat
  obtain ⟨fields, hfields, hload⟩ :=
    load_of_isWritten (t := { s with dirty := false, lastError := none }) hw horder.proper rfl hp
  rw [if_neg (Nat.not_lt.2 hheight)] at hload
  have hproper : (Value.object fields).isProper := by
    rw [hfields]
    exact Value.isFormed_arranged _ horder.proper
  have harranged : (Value.object (Fields.complete fields scope.defaults)).arranged
      = (Value.object s.data).arranged := by
    have hform : Value.form id (.object fields) = Value.form id (.object s.data) := by
      rw [hfields]
      exact Value.form_arranged _ horder.proper
    have hcomplete := Value.form_complete (fun _ hv => hv) scope.isProper_defaults hproper
      horder.proper hform
    rwa [horder.complete] at hcomplete
  have hread : IsInOrder scope (Fields.complete fields scope.defaults) := by
    have hformed := Value.isFormed_complete scope.isProper_defaults hproper
    refine ⟨hformed, Fields.complete_complete scope.isProper_defaults, fun hproject => ?_⟩
    exact (horder.normal hproject).of_arranged hformed harranged
  rw [← hdefaults] at harranged hread
  refine ⟨fun _ => ⟨_, hnode⟩, _, hload, ?_⟩
  rw [ordered_eq_self hread]
  exact ⟨rfl, rfl, harranged⟩

/-- A store is saved if it is dirty and its file was not left unread; otherwise nothing happens. -/
def SavesTo (s : Store) (h : Host) (s' : Store) (h' : Host) : Prop :=
  (Manager.wantsSave true s ∧ s.save h = (.ok (), s', h'))
  ∨ (Manager.wantsSave true s = false ∧ s' = s ∧ h' = h)

theorem SavesTo.sameFile {s s' : Store} {h h' : Host} (hs : s.SavesTo h s' h') : s.SameFile s' := by
  obtain ⟨-, hsave⟩ | ⟨-, rfl, rfl⟩ := hs
  · exact sameFile_save hsave
  · exact .refl s'

theorem SavesTo.touches {s s' : Store} {h h' : Host} (hs : s.SavesTo h s' h') :
    Touches s.path.text h h' := by
  obtain ⟨-, hsave⟩ | ⟨-, rfl, rfl⟩ := hs
  · exact touches_save hsave
  · exact .refl _ _

/-- What loading leaves: a store that is not dirty, whose file is there if it has one, or a dirty
store whose file may be written. -/
theorem clean_or_dirty (scope : Scope) {s t : Store} {h : Host}
    (hdefaults : s.defaults = scope.defaults) (hload : s.load h = (.ok (), t)) :
    ((t.ordered scope).dirty = false ∧ (s.persistent → ∃ node, h.stat s.path.text = .ok node))
    ∨ ((t.ordered scope).dirty ∧ s.persistent ∧ (t.ordered scope).lastError = none) := by
  have hreset : ∀ u : Store, u.data = s.reset.data → (u.ordered scope).dirty = u.dirty := by
    intro u hu
    rw [ordered_eq_self]
    rw [hu, reset, hdefaults]
    exact isInOrder_defaults scope
  rw [lastError_ordered]
  obtain ⟨-, rfl, -⟩ | ⟨-, ⟨failure, hfailure⟩, -⟩ | ⟨hp, -, hexists, reason, -, rfl⟩
    | ⟨hp, -, hexists, fields, -, rfl⟩ := load_cases hload
  · by_cases hp : s.persistent
    · exact .inr ⟨dirty_ordered hp scope, hp, rfl⟩
    · refine .inl ⟨(hreset _ rfl).trans ?_, fun h => absurd h hp⟩
      simpa [reset] using hp
  · cases hfailure
  -- The defaults are in order, so a file that is left unread does not make the store dirty.
  · exact .inl ⟨hreset _ rfl, fun _ => exists_stat_of_exists hexists⟩
  · cases hdirty : (ordered _ scope).dirty with
    | false => exact .inl ⟨rfl, fun _ => exists_stat_of_exists hexists⟩
    | true => exact .inr ⟨rfl, hp, rfl⟩

theorem reloads_of_save (scope : Scope) {s t s' : Store} {h₀ h h' : Host}
    (hdefaults : s.defaults = scope.defaults) (hload : s.load h₀ = (.ok (), t)) (hp : s.persistent)
    (hsave : (t.ordered scope).save h = (.ok (), s', h')) : s'.Reloads scope h' := by
  have hsame := (sameFile_of_load hload).trans (t.sameFile_ordered scope)
  rw [← hsame.persistent] at hp
  obtain ⟨fields, hdata, hproper, hheight⟩ := exists_of_load hload
  rw [hdefaults] at hdata
  have hdeep := Value.height_complete_le hheight scope.height_defaults
  rw [← hdata] at hdeep
  obtain ⟨hnot, -⟩ | ⟨-, -, rfl, hw⟩ | ⟨-, ⟨failure, hfailure⟩, -⟩ := save_cases hsave
  · rw [hp] at hnot
    cases hnot
  · exact reloads_of_isWritten (hsame.defaults.trans hdefaults) hp
      (isInOrder_ordered hproper hdata) (height_ordered_le scope hdeep) hw
  · cases hfailure

/-- A store that was loaded and then saved if it is dirty is found again. Its file was loaded on a
host on which the path led to the same thing. -/
theorem reloads_of_savesTo (scope : Scope) {s t s' : Store} {h₀ h h' : Host}
    (hdefaults : s.defaults = scope.defaults) (hload : s.load h₀ = (.ok (), t))
    (hstat : ∀ node, h₀.stat s.path.text = .ok node → h.stat s.path.text = .ok node)
    (hs : (t.ordered scope).SavesTo h s' h') : s'.Reloads scope h' := by
  obtain ⟨hclean, hthere⟩ | ⟨hdirty, hp, hlast⟩ := clean_or_dirty scope hdefaults hload
  · obtain ⟨hwants, -⟩ | ⟨-, rfl, rfl⟩ := hs
    · simp [Manager.wantsSave, hclean] at hwants
    · exact reloads_of_load hload hthere hstat hclean
  · obtain ⟨-, hsave⟩ | ⟨hnot, -⟩ := hs
    · exact reloads_of_save scope hdefaults hload hp hsave
    · simp [Manager.wantsSave, isBarred, hlast, hdirty] at hnot

end Store

/-! ## Both stores -/

namespace Manager

/-- The manager with both stores loaded and in order. -/
def ordered (m : Manager) (h : Host) : Manager :=
  { m.loaded h with project := (m.loaded h).project.normalise }

theorem store_ordered (m : Manager) (h : Host) (scope : Scope) :
    (m.ordered h).store scope = ((m.store scope).load h).2.ordered scope := by
  cases scope <;> rfl

theorem withStore_store (m : Manager) (scope : Scope) : m.withStore scope (m.store scope) = m := by
  cases scope <;> rfl

theorem saveScopes_cons_ok {m m' : Manager} {h h' : Host} {scope : Scope} {rest saved : List Scope}
    (hs : saveScopes true (scope :: rest) m h = (.ok saved, m', h')) :
    ∃ s made saved', (m.store scope).SavesTo h s made
      ∧ saveScopes true rest (m.withStore scope s) made = (.ok saved', m', h') := by
  rw [saveScopes] at hs
  by_cases hwants : wantsSave true (m.store scope)
  · rw [if_pos hwants] at hs
    split at hs
    · cases hs
    · rename_i s made hsave
      split at hs
      · rename_i saved' _ _ hrest
        cases hs
        exact ⟨s, made, saved', .inl ⟨hwants, hsave⟩, hrest⟩
      · cases hs
  · rw [if_neg hwants] at hs
    refine ⟨m.store scope, h, saved, .inr ⟨by simpa using hwants, rfl, rfl⟩, ?_⟩
    rwa [withStore_store]

/-- Saving all is saving the project and then the workbench. -/
theorem saveAll_ok {m m' : Manager} {h h' : Host} {saved : List Scope}
    (hs : m.saveAll h true = (.ok saved, m', h')) :
    ∃ made, m.project.SavesTo h m'.project made ∧ m.ide.SavesTo made m'.ide h' := by
  obtain ⟨project, made, _, hproject, hs⟩ := saveScopes_cons_ok hs
  obtain ⟨ide, made', _, hide, hs⟩ := saveScopes_cons_ok hs
  rw [saveScopes] at hs
  cases hs
  exact ⟨made, hproject, hide⟩

/-- What loading all does when it completes: both stores are loaded, and what is then dirty is
saved. -/
theorem loadAll_ok {m m' : Manager} {h h' : Host} (hl : m.loadAll h true = (.ok (), m', h')) :
    (∀ scope, ((m.store scope).load h).1 = .ok ())
    ∧ ∃ saved, (m.ordered h).saveAll h true = (.ok saved, m', h') := by
  unfold loadAll at hl
  obtain ⟨failure, -, hload⟩ | ⟨-, failure, hload⟩ | ⟨hproject, hide, m₁, hnormal, hload⟩ :=
    m.loadStores_cases h
  · simp [hload] at hl
  · simp [hload] at hl
  · obtain ⟨-, rfl⟩ := normalise_eq hnormal
    rw [hload] at hl
    dsimp only at hl
    rw [if_pos rfl] at hl
    split at hl
    · rename_i saved _ _ hsave
      cases hl
      exact ⟨fun scope => by cases scope <;> assumption, saved, hsave⟩
    · cases hl

end Manager

/-- What happens to the file of one store leaves what the path of the other leads to. -/
theorem stat_of_touches {sc : Scene} (hapart : sc.Apart) {scope other : Scope} (hne : other ≠ scope)
    {h h' : Host} (hcwd : h.cwd = sc.host.cwd) (ht : Touches (sc.store other).path.text h h')
    (node : Node) (hnode : h.stat (sc.store scope).path.text = .ok node) :
    h'.stat (sc.store scope).path.text = .ok node := by
  refine Host.stat_of_keepsAt ht.cwd ht.extended (hapart.absolute scope) ?_ hnode
  refine ht.keeps (hapart.absolute other) _ ?_
  rw [Host.locationOf_congr hcwd, Host.locationOf_congr hcwd]
  exact (hapart.ne_of_ne hne).symm

/-- Once loading all has completed, each store is found again. -/
theorem reloads_of_loadAll {sc : Scene} (hapart : sc.Apart)
    (hdefaults : ∀ scope, (sc.store scope).defaults = scope.defaults) {m : Manager} {h : Host}
    (hl : sc.manager.loadAll sc.host true = (.ok (), m, h)) (scope : Scope) :
    (sc.store scope).SameFile (m.store scope) ∧ (m.store scope).Reloads scope h := by
  obtain ⟨hloads, saved, hsave⟩ := Manager.loadAll_ok hl
  obtain ⟨made, hproject, hide⟩ := Manager.saveAll_ok hsave
  have hload : ∀ scope, (sc.store scope).load sc.host
      = (.ok (), ((sc.store scope).load sc.host).2) := fun scope => Prod.ext (hloads scope) rfl
  have hordered : ∀ scope,
      (sc.store scope).SameFile (((sc.store scope).load sc.host).2.ordered scope) :=
    fun scope => (Store.sameFile_load _ _).trans (Store.sameFile_ordered _ scope)
  have hfirst : Touches (sc.store .project).path.text sc.host made :=
    (hordered .project).path ▸ hproject.touches
  have hsecond : Touches (sc.store .ide).path.text made h := (hordered .ide).path ▸ hide.touches
  cases scope with
  | project =>
    have hsame := (hordered .project).trans hproject.sameFile
    have hreloads := Store.reloads_of_savesTo .project (hdefaults .project) (hload .project)
      (fun _ hnode => hnode) hproject
    refine ⟨hsame, hreloads.of_stat fun node => ?_⟩
    rw [hsame.path]
    exact stat_of_touches hapart (by decide) hfirst.cwd hsecond node
  | ide =>
    refine ⟨(hordered .ide).trans hide.sameFile, ?_⟩
    exact Store.reloads_of_savesTo .ide (hdefaults .ide) (hload .ide)
      (stat_of_touches hapart (by decide) rfl hfirst) hide

namespace Manager

theorem isTooDeep_of_load {m : Manager} {h : Host}
    (hdefaults : m.project.defaults = Scope.project.defaults)
    (hl : (m.project.load h).1 = .ok ()) : (m.loaded h).currentToolchain.isTooDeep = false := by
  obtain ⟨fields, hdata, -, hheight⟩ := Store.exists_of_load (Prod.ext hl rfl)
  have hdeep := Value.height_complete_le hheight (Scope.height_defaults .project)
  rw [← hdefaults, ← hdata] at hdeep
  have htoolchain : (m.loaded h).currentToolchain.height ≤ Value.heightLimit := by
    change ((Fields.get? "dhrlang" (m.project.load h).2.data).getD .null).height ≤ _
    cases hget : Fields.get? "dhrlang" (m.project.load h).2.data with
    | none => decide
    | some v =>
      have hv := Value.height_object_le_iff.1 hdeep _ (Fields.mem_of_get? hget)
      exact Nat.le_succ_of_le hv
  simpa [Value.isTooDeep] using htoolchain

theorem loadStores_of_loads {m : Manager} {h : Host}
    (hdefaults : m.project.defaults = Scope.project.defaults)
    (hloads : ∀ scope, ((m.store scope).load h).1 = .ok ()) :
    m.loadStores h = (.ok (), m.ordered h) := by
  obtain ⟨project, hproject⟩ : ∃ project, m.project.load h = (.ok (), project) :=
    ⟨_, Prod.ext (hloads .project) rfl⟩
  obtain ⟨ide, hide⟩ : ∃ ide, m.ide.load h = (.ok (), ide) := ⟨_, Prod.ext (hloads .ide) rfl⟩
  have hloaded : m.loaded h = { m with project, ide } := by
    rw [loaded, hproject, hide]
  have hnormal : normalise { m with project, ide } = .ok (m.ordered h) := by
    rw [← hloaded, normalise, isTooDeep_of_load hdefaults (hloads .project)]
    rfl
  simp only [loadStores, hproject, hide, hnormal]

/-- Where both stores load and neither is dirty then, loading all saves nothing. -/
theorem loadAll_clean {m : Manager} {h : Host}
    (hdefaults : m.project.defaults = Scope.project.defaults)
    (hloads : ∀ scope, ((m.store scope).load h).1 = .ok ())
    (hclean : ∀ scope, ((m.ordered h).store scope).dirty = false) :
    m.loadStores h = (.ok (), m.ordered h)
    ∧ (m.ordered h).saveAll h true = (.ok [], m.ordered h, h)
    ∧ m.loadAll h true = (.ok (), m.ordered h, h) := by
  have hstores := loadStores_of_loads hdefaults hloads
  have hsave : (m.ordered h).saveAll h true = (.ok [], m.ordered h, h) := by
    simp [saveAll, saveScopes, wantsSave, hclean]
  refine ⟨hstores, hsave, ?_⟩
  rw [loadAll, hstores]
  simp [hsave]

theorem loadErrors_congr {m m' : Manager}
    (h : ∀ scope, (m'.store scope).lastError = (m.store scope).lastError) :
    m'.loadErrors = m.loadErrors := by
  unfold loadErrors Store.isBarred
  simp only [h]

end Manager

theorem Manager.sameFile_of_make {h h' : Host} {projectRoot ideFolder projectName ideName : Text}
    {persistent : Bool} {m m' : Manager}
    (hm : Manager.make h projectRoot ideFolder projectName ideName persistent = .ok m)
    (hm' : Manager.make h' projectRoot ideFolder projectName ideName persistent = .ok m')
    (hpaths : m'.paths = m.paths) (scope : Scope) : (m.store scope).SameFile (m'.store scope) := by
  obtain ⟨paths, -, rfl⟩ := Manager.exists_of_make hm
  obtain ⟨paths', -, rfl⟩ := Manager.exists_of_make hm'
  obtain rfl : paths' = paths := hpaths
  exact .refl _

/-- Once loading all has completed, loading all again, by the same manager or by a new one of the
same paths, finds the same settings and the same errors and saves nothing. -/
theorem loadAll_twice {h : Host} {projectRoot ideFolder projectName ideName : Text}
    {persistent : Bool} {m : Manager}
    (hmake : Manager.make h projectRoot ideFolder projectName ideName persistent = .ok m)
    (hfiles : h.locationOf m.project.path.text ≠ h.locationOf m.ide.path.text)
    (before : List Operation) {sc : Scene} (hsc : sc = (Scene.mk m h).run before)
    {first : Manager} {host : Host}
    (hfirst : sc.manager.loadAll sc.host true = (.ok (), first, host)) {again : Manager}
    (hagain : again = first ∨ (again.paths = m.paths
      ∧ Manager.make host projectRoot ideFolder projectName ideName persistent = .ok again)) :
    ∃ second, again.loadStores host = (.ok (), second)
      ∧ second.saveAll host true = (.ok [], second, host)
      ∧ again.loadAll host true = (.ok (), second, host)
      ∧ second.loadErrors = first.loadErrors
      ∧ ∀ scope, (second.store scope).dirty = false
        ∧ (Value.object (second.store scope).data).arranged
          = (Value.object (first.store scope).data).arranged := by
  have hrun := Scene.continues_run before ⟨m, h⟩
  rw [← hsc] at hrun
  have hdefaults : ∀ scope, (sc.store scope).defaults = scope.defaults := by
    intro scope
    rw [(hrun.sameFile scope).defaults]
    obtain ⟨paths, -, rfl⟩ := Manager.exists_of_make hmake
    cases scope <;> rfl
  have hreloads := reloads_of_loadAll (hrun.apart (apart_of_make hmake hfiles)) hdefaults hfirst
  have hsame : ∀ scope, (first.store scope).SameFile (again.store scope) := by
    intro scope
    obtain rfl | ⟨hpaths, hmade⟩ := hagain
    · exact .refl _
    · have hold := (hrun.sameFile scope).trans (hreloads scope).1
      exact hold.symm.trans (Manager.sameFile_of_make hmake hmade hpaths scope)
  choose loaded hloaded hdirty hlast harranged using fun scope => (hreloads scope).2.again
  have hload : ∀ scope, (again.store scope).load host = (.ok (), loaded scope) := fun scope =>
    Store.load_again (hsame scope) (hloaded scope) (hreloads scope).2.there fun _ hnode => hnode
  have hstore : ∀ scope, (again.ordered host).store scope = (loaded scope).ordered scope := by
    intro scope
    rw [Manager.store_ordered, hload]
  have hproject : again.project.defaults = Scope.project.defaults :=
    ((hreloads .project).1.trans (hsame .project)).defaults.trans (hdefaults .project)
  obtain ⟨hstores, hsave, hall⟩ := Manager.loadAll_clean hproject
    (fun scope => by rw [hload]) (fun scope => by rw [hstore, hdirty])
  refine ⟨again.ordered host, hstores, hsave, hall, ?_, fun scope => ?_⟩
  · exact Manager.loadErrors_congr fun scope => by rw [hstore, hlast]
  · rw [hstore]
    exact ⟨hdirty scope, harranged scope⟩

/-- A host on which the project's section on the toolchain is a number, and the settings of the
workbench are cut off. -/
def roughHost : Host :=
  ⟨⟨[(["w"], .folder), (["w", ".pydhr"], .folder), (["w", ".pydhr", "project.json"],
    .file ([0x7b, 0x22, 0x64, 0x68, 0x72, 0x6c, 0x61, 0x6e, 0x67, 0x22, 0x3a, 0x31, 0x7d].map
      .ofNat) false), (["i"], .folder), (["i", "ide-settings.json"], .file [.ofNat 0x7b] false)]⟩,
    [], "/root", [], [], none⟩

theorem exists_loadAll_roughHost :
    ∃ first host, plainManager.loadAll roughHost true = (.ok (), first, host) := by
  have hloads : ∀ scope, ((plainManager.store scope).load roughHost).1 = .ok () := by
    intro scope
    cases scope <;> rfl
  have hwants : Manager.wantsSave true ((plainManager.ordered roughHost).store .project) := by
    decide
  have hleaves : Manager.wantsSave true (plainManager.ordered roughHost).ide = false := by
    decide
  have hfolders : roughHost.ensureFolders .root [Text.ofString ".pydhr", Text.ofString "w"]
      = (.ok (), roughHost) := rfl
  obtain ⟨s, host, hsave⟩ : ∃ s host,
      ((plainManager.ordered roughHost).store .project).save roughHost = (.ok (), s, host) :=
    Store.exists_save rfl hfolders rfl (by decide) (by decide) (by decide)
  refine ⟨(plainManager.ordered roughHost).withStore .project s, host, ?_⟩
  have hide : ((plainManager.ordered roughHost).withStore .project s).store .ide
      = (plainManager.ordered roughHost).ide := rfl
  rw [Manager.loadAll, Manager.loadStores_of_loads rfl hloads]
  simp only [Manager.saveAll, Manager.saveScopes, hwants, hsave, hide, hleaves]
  rfl

/-- The project is saved in normal form by the first load and found so by the second; the settings
of the workbench are left unread by both. -/
theorem loadAll_twice_rough : ∃ first second host,
    plainManager.loadAll roughHost true = (.ok (), first, host)
    ∧ plainManager.loadAll host true = (.ok (), second, host)
    ∧ second.loadErrors = first.loadErrors ∧ ∀ scope, (second.store scope).dirty = false
      ∧ (Value.object (second.store scope).data).arranged
        = (Value.object (first.store scope).data).arranged := by
  obtain ⟨first, host, hfirst⟩ := exists_loadAll_roughHost
  obtain ⟨second, -, -, hsecond, herrors, hrest⟩ := loadAll_twice (make_plainManager roughHost)
    (by decide) [] rfl hfirst (.inr ⟨rfl, make_plainManager host⟩)
  exact ⟨first, second, host, hfirst, hsecond, herrors, hrest⟩

end Settings

end DhrWorkbench
