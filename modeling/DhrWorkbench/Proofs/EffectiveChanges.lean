import DhrWorkbench.Proofs.Notification
import DhrWorkbench.Proofs.SameDocuments

/-!
# Sets that change something

Setting a key compares the value with the one that is there before the section on the toolchain is
put in normal form. So a set can tell listeners of a change and leave both documents as they were:
in that section, where the normal form of what is written is what stood there
(`Manager.SettlesBack`), and nowhere else, as long as no not-a-number is written over one
(`set_effective_iff`).
-/

namespace DhrWorkbench

namespace Settings

/-! ## Properly formed documents -/

/-- The document of a store and its defaults have distinct names in each object. -/
structure Store.IsProper (s : Store) : Prop where
  data : (Value.object s.data).isProper
  defaults : (Value.object s.defaults).isProper

def Manager.IsProper (m : Manager) : Prop := ∀ scope, (m.store scope).IsProper

theorem Manager.IsProper.withStore {m : Manager} (h : m.IsProper) {scope : Scope} {s : Store}
    (hs : s.IsProper) : (m.withStore scope s).IsProper := fun other =>
  store_withStore_elim (fun _ => hs) fun _ => h other

theorem Store.IsProper.load {s : Store} (hs : s.IsProper) (h : Host) : (s.load h).2.IsProper := by
  have hreset : (Value.object (Fields.complete [] s.defaults)).isProper :=
    Value.isFormed_complete hs.defaults Value.isFormed_nil
  cases hload : s.load h with
  | mk r s' =>
    obtain ⟨-, rfl, -⟩ | ⟨-, -, rfl, -⟩ | ⟨-, -, -, reason, -, rfl⟩
      | ⟨-, -, -, fields, hread, rfl⟩ := Store.load_cases hload
    · exact ⟨hreset, hs.defaults⟩
    · exact ⟨hs.data, hs.defaults⟩
    · exact ⟨hreset, hs.defaults⟩
    · obtain ⟨bytes, -, hdocument, -⟩ := Store.readFile_ok hread
      exact ⟨Value.isFormed_complete hs.defaults (Json.isProper_of_readBytes hdocument),
        hs.defaults⟩

theorem Store.IsProper.save {s s' : Store} {h h' : Host} {r : Except Failure Unit}
    (hs : s.IsProper) (hsave : s.save h = (r, s', h')) : s'.IsProper := by
  obtain ⟨-, -, rfl, -⟩ | ⟨-, -, rfl, -⟩ | ⟨-, -, rfl⟩ := Store.save_cases hsave
  all_goals exact ⟨hs.data, hs.defaults⟩

/-- A change that writes what is properly formed leaves the documents so. -/
theorem Step.isProper {a b : Scene} {c : Change} (h : Step c a b)
    (hwrite : ∀ scope key v, c = .write scope key v → v.isProper) (ha : a.manager.IsProper) :
    b.manager.IsProper := by
  cases h with
  | load => exact ha.withStore ((ha _).load _)
  | normalise =>
    exact ha.withStore ⟨(isNormalDocument_normalise (ha .project).data).proper,
      (ha .project).defaults⟩
  | save barred saved => exact ha.withStore ((ha _).save saved)
  | write written =>
    obtain ⟨data, hassign, rfl⟩ := Store.exists_of_written written
    obtain ⟨-, rfl⟩ := Fields.eq_of_assign hassign
    exact ha.withStore ⟨Value.isFormed_setPath (hwrite _ _ _ rfl) (fun _ _ => rfl) (ha _).data,
      (ha _).defaults⟩
  | listeners =>
    rintro (_ | _)
    exacts [ha .project, ha .ide]
  | edit files => exact ha

/-- So do operations one after the other. -/
theorem isProper_run : ∀ {ops : List Operation} {sc : Scene}, sc.manager.IsProper →
    (∀ key v asked, Operation.set key v asked ∈ ops → v.isProper) →
    (sc.run ops).manager.IsProper
  | [], _, hsc, _ => hsc
  | op :: rest, sc, hsc, hops => by
    have hmade : op.MadeOf sc fun c => ∀ scope key v, c = .write scope key v → v.isProper := by
      refine ⟨nofun, nofun, nofun, nofun, ?_, nofun⟩
      rintro key v asked rfl scope _ _ ⟨⟩
      exact hops key v asked List.mem_cons_self
    have hafter : (sc.after op).manager.IsProper :=
      (steps_after hmade).keeps (P := fun sc => sc.manager.IsProper)
        (fun hallowed hstep ha => hstep.isProper hallowed ha) hsc
    exact @isProper_run rest (sc.after op) hafter
      fun key v asked hmem => hops key v asked (List.mem_cons_of_mem _ hmem)

theorem isProper_of_make {h : Host} {projectRoot ideFolder projectName ideName : Text}
    {persistent : Bool} {m : Manager}
    (hmake : Manager.make h projectRoot ideFolder projectName ideName persistent = .ok m) :
    m.IsProper := by
  obtain ⟨paths, -, rfl⟩ := Manager.exists_of_make hmake
  rintro (_ | _)
  · exact ⟨(isInOrder_defaults .project).proper, Scope.project.isProper_defaults⟩
  · exact ⟨(isInOrder_defaults .ide).proper, Scope.ide.isProper_defaults⟩

/-! ## What a set comes to -/

namespace Manager

variable {m m' : Manager} {key : Text} {v : Value}

/-- Both managers have the same documents. What stands in the documents is the same as itself, also
if it is not-a-number. -/
def SameData (m m' : Manager) : Prop :=
  ∀ scope, (Value.object (m.store scope).data).same true (.object (m'.store scope).data)

/-- The value that a set compares with the new one. -/
def present (m : Manager) (key : Text) : Value :=
  (m.store (targetScope key none)).get key .null

/-- A key of the section on the toolchain is set to a value for which the normal form puts back what
stood in the section; the roots of the workspace have their form already. -/
def SettlesBack (m : Manager) (key : Text) (v : Value) : Prop :=
  isUnder "dhrlang" key ∧ isList (Fields.get? "workspace_roots" m.project.data)
  ∧ ∃ u, Fields.get? "dhrlang" m.project.data = some u ∧ u.same true
    (.object (normalSection (some (Fields.placed v (Fields.parts key).tail (some u)))))

/-- A key of another section is set to a value that has a not-a-number where the one that is there
has one, and is the same else. -/
def DiffersInNan (m : Manager) (key : Text) (v : Value) : Prop :=
  isUnder "dhrlang" key = false ∧ (m.present key).same true v
    ∧ (m.present key).same false v = false

theorem sameData_withStore_iff (hm : m.IsProper) {scope : Scope} {s : Store} :
    m.SameData (m.withStore scope s)
      ↔ (Value.object (m.store scope).data).same true (.object s.data) := by
  constructor
  · intro h
    have hscope := h scope
    rwa [store_withStore] at hscope
  · intro h other
    refine @store_withStore_elim (fun t => (Value.object (m.store other).data).same true
      (.object t.data)) _ _ _ _ ?_ fun _ => Value.same_self (hm other).data
    rintro rfl
    exact h

theorem eq_of_set_false (h : m.set key v none = (.ok false, m')) :
    m.write key v none = .ok none ∧ m' = m := by
  unfold set at h
  split at h
  · cases h
  · rename_i hwrite
    cases h
    exact ⟨hwrite, rfl⟩
  · split at h <;> cases h

theorem exists_of_set_true (h : m.set key v none = (.ok true, m')) : ∃ s,
    (m.store (targetScope key none)).set key v = .ok (true, s)
    ∧ m.write key v none = .ok (some (m.withStore (targetScope key none) s))
    ∧ (m.withStore (targetScope key none) s).settle key = .ok m' := by
  unfold set at h
  split at h
  · cases h
  · cases h
  · rename_i written hwrite
    obtain ⟨s, hset, rfl⟩ := exists_of_write hwrite
    split at h
    · cases h
    · rename_i settled hsettle
      cases h
      exact ⟨s, hset, hwrite, hsettle⟩

end Manager

/-- A value that was written leaves the document the same just if the value that was there differs
from it in not-a-number alone. -/
theorem Store.same_of_written_iff {s s' : Store} {key : Text} {v : Value}
    (hs : (Value.object s.data).isProper) (hv : v.isProper) (h : s.set key v = .ok (true, s')) :
    (Value.object s.data).same true (.object s'.data) ↔ (s.get key .null).same true v := by
  have hfalse : ¬ (s.get key .null).same false v := fun hsame => by simp [set, hsame] at h
  obtain ⟨data, hassign, rfl⟩ := exists_of_written h
  obtain ⟨hkey, rfl⟩ := Fields.eq_of_assign hassign
  rw [Fields.same_setPath_iff hv (Fields.parts_ne_nil key) hs]
  unfold get at hfalse ⊢
  rw [Fields.lookup_of_ne_nil hkey] at hfalse ⊢
  cases hfollow : Fields.follow (Fields.parts key) (.object s.data) with
  | some u => simp
  | none =>
    -- nothing was there, and null would have been taken for the same
    refine iff_of_false (by simp) fun hsame => hfalse ?_
    rw [hfollow]
    obtain rfl := Value.same_null hsame
    rfl

/-- A document is the same after a section on the toolchain was written into it and put in normal
form just if the normal form of the section was there and the roots were a list. -/
theorem Store.same_normalise_iff {data : Fields} {s : Store} {w : Value}
    (hdata : (Value.object data).isProper) (hw : w.isProper)
    (hs : s.data = Fields.insert "dhrlang" w data) :
    (Value.object data).same true (.object s.normalise.data)
      ↔ isList (Fields.get? "workspace_roots" data) ∧ ∃ u, Fields.get? "dhrlang" data = some u
        ∧ u.same true (.object (normalSection (some w))) := by
  have hnormal : (Value.object (normalSection (some w))).isProper :=
    isProper_normalSection (by simpa using hw)
  have hroots : ∀ u : Value, Fields.get? "workspace_roots" (Fields.insert "dhrlang" u data)
      = Fields.get? "workspace_roots" data := fun u => by
    rw [Fields.get?_insert, if_neg (by decide)]
  unfold normalise
  simp only [hs, Fields.insert_insert, Fields.get?_insert, if_true, hroots]
  split_ifs with hlist
  · simp [Fields.same_insert_iff hdata hnormal, hlist]
  · refine iff_of_false (fun hsame => hlist ?_) fun h => hlist h.1
    obtain ⟨items, hitems⟩ | ⟨-, hempty⟩ :=
      normalRoots_cases (Fields.get? "workspace_roots" data)
    · rw [hitems]
      rfl
    rw [hempty] at hsame
    have hwritten := Value.isFormed_insert (v := .list []) (k := "workspace_roots")
      (Value.isFormed_insert (k := "dhrlang") hdata rfl hnormal) rfl rfl
    have hform := (Value.form_object_iff (Fields.nodup_of_isProper hdata)
      (Fields.nodup_of_isProper hwritten)).1 ((Value.same_iff _ hdata hwritten).1 hsame)
      "workspace_roots"
    rw [Fields.get?_insert, if_pos rfl, Option.map_some, Option.map_eq_some_iff] at hform
    obtain ⟨u, hu, hlistForm⟩ := hform
    obtain ⟨items, rfl⟩ := Value.list_of_form_eq Value.isName_number hlistForm.symm
    rw [hu]
    rfl

namespace Manager

variable {m m' : Manager} {key : Text} {v : Value}

/-- A set in the section on the toolchain that tells of a change writes the section and puts the
project in normal form. -/
theorem exists_of_set_under (hunder : isUnder "dhrlang" key)
    (h : m.set key v none = (.ok true, m')) : ∃ s : Store,
    s.data = Fields.insert "dhrlang" (Fields.placed v (Fields.parts key).tail
      (Fields.get? "dhrlang" m.project.data)) m.project.data
    ∧ m' = m.withStore .project s.normalise := by
  obtain ⟨s, hset, -, hsettle⟩ := exists_of_set_true h
  rw [targetScope_of_isUnder hunder] at hset hsettle
  rw [settle, if_pos hunder] at hsettle
  refine ⟨s, ?_, (normalise_eq hsettle).2⟩
  obtain ⟨data, hassign, rfl⟩ := Store.exists_of_written hset
  obtain ⟨-, rfl⟩ := Fields.eq_of_assign hassign
  obtain ⟨tail, hparts⟩ := List.head?_eq_some_iff.1 ((isUnder_iff (by decide)).1 hunder)
  rw [hparts]
  exact Fields.setPath_cons v _ tail m.project.data

/-- A set that tells of a change leaves both documents the same just if the section on the toolchain
settles back, or if a not-a-number was written over one. -/
theorem sameData_set_iff (hm : m.IsProper) (hv : v.isProper)
    (h : m.set key v none = (.ok true, m')) :
    m.SameData m' ↔ m.SettlesBack key v ∨ m.DiffersInNan key v := by
  by_cases hunder : isUnder "dhrlang" key
  · obtain ⟨s, hs, rfl⟩ := exists_of_set_under hunder h
    have hcurrent : ∀ u ∈ Fields.get? "dhrlang" m.project.data, u.isProper :=
      fun u hu => Value.isFormed_get? (hm .project).data hu
    have hplaced := Fields.isProper_placed hv hcurrent (Fields.parts key).tail
    rw [sameData_withStore_iff hm]
    refine (Store.same_normalise_iff (hm .project).data hplaced hs).trans ?_
    simp only [SettlesBack, DiffersInNan, hunder, store, true_and, Bool.true_eq_false, false_and,
      or_false]
    refine and_congr_right fun _ => exists_congr fun u => and_congr_right fun hu => ?_
    rw [hu]
  · obtain ⟨s, hset, -, hsettle⟩ := exists_of_set_true h
    rw [settle, if_neg hunder] at hsettle
    obtain rfl := Except.ok.inj hsettle
    have hfalse : ((m.store (targetScope key none)).get key .null).same false v = false := by
      rw [← Bool.not_eq_true]
      intro hsame
      simp [Store.set, hsame] at hset
    rw [sameData_withStore_iff hm, Store.same_of_written_iff (hm _).data hv hset]
    simp [SettlesBack, DiffersInNan, hunder, hfalse, present]

end Manager

/-! ## A section in normal form -/

/-- The form that a value gets in a field of the section on the toolchain. -/
def normalField (name : Text) (v : Value) : Value :=
  if name = "java_path" then .str (javaProgram v)
  else if name = "jar_path" then .str (v.textOr "")
  else if name = "auto_detect_jar" then .bool (isOn v)
  else v

theorem isProper_normalField (name : Text) {v : Value} (hv : v.isProper) :
    (normalField name v).isProper := by
  unfold normalField
  split_ifs
  exacts [rfl, rfl, rfl, hv]

/-- A section with one field put in its form. -/
def settleField (name : Text) (fields : Fields) : Fields :=
  Fields.insert name (normalField name ((Fields.get? name fields).getD .null)) fields

/-- The normal form of a section puts one field after the other in its form. -/
theorem normalSection_eq (current : Option Value) : normalSection current
    = settleField "auto_detect_jar" (settleField "jar_path" (settleField "java_path"
      (Fields.complete (Fields.ofSection current) defaultToolchain))) := by
  have hjar : Text.ofString "java_path" ≠ Text.ofString "jar_path" := by decide
  have hjava : Text.ofString "java_path" ≠ Text.ofString "auto_detect_jar" := by decide
  have hauto : Text.ofString "jar_path" ≠ Text.ofString "auto_detect_jar" := by decide
  unfold normalSection settleField normalField
  simp [Fields.get?_insert, hjar, hjar.symm, hjava, hjava.symm, hauto, hauto.symm]

theorem settleField_insert {fields : Fields} {k : Text} {u : Value}
    (hu : Fields.get? k fields = some u) (hnormal : normalField k u = u) (name : Text) (w : Value) :
    settleField k (Fields.insert name w fields)
      = Fields.insert name (if name = k then normalField k w else w) fields := by
  rw [settleField, Fields.get?_insert]
  by_cases hname : name = k
  · subst hname
    rw [if_pos rfl, if_pos rfl, Option.getD_some, Fields.insert_insert]
  · rw [if_neg hname, if_neg hname, hu, Option.getD_some, hnormal, Fields.insert_eq_self]
    rw [Fields.get?_insert, if_neg hname, hu]

/-- The defaults have nothing for a section in normal form, whatever one of its fields is set to. -/
theorem complete_insert_of_isNormal {fields : Fields} {config : Toolchain.Config}
    (h : IsNormal fields config) (name : Text) (w : Value) :
    Fields.complete (Fields.insert name w fields) defaultToolchain
      = Fields.insert name w fields := by
  have hthere : ∀ f ∈ defaultToolchain, ∃ u, Fields.get? f.1 fields = some u := by
    simp [defaultToolchain, h.java, h.jar, h.autoDetect]
  have hplain : ∀ f ∈ defaultToolchain, ∀ inner, f.2 ≠ .object inner := by
    simp [defaultToolchain]
  refine Fields.complete_eq_self fun f hf => ?_
  by_cases hname : name = f.1
  · exact ⟨w, by rw [Fields.get?_insert, if_pos hname],
      Fields.completeValue_default w (hplain f hf)⟩
  · obtain ⟨u, hu⟩ := hthere f hf
    exact ⟨u, by rw [Fields.get?_insert, if_neg hname, hu],
      Fields.completeValue_default u (hplain f hf)⟩

/-- When one field of a section in normal form is set, the normal form changes no other. -/
theorem normalSection_insert {fields : Fields} {config : Toolchain.Config}
    (h : IsNormal fields config) (name : Text) (w : Value) :
    normalSection (some (.object (Fields.insert name w fields)))
      = Fields.insert name (normalField name w) fields := by
  have hjava : normalField "java_path" (.str config.java) = .str config.java :=
    congrArg Value.str (javaProgram_str h.named h.trim)
  have hjar : normalField "jar_path" (.str config.jar) = .str config.jar :=
    congrArg Value.str (Value.textOr_str_nil config.jar)
  have hauto : normalField "auto_detect_jar" (.bool config.autoDetect) = .bool config.autoDetect :=
    congrArg Value.bool (isOn_bool config.autoDetect)
  rw [normalSection_eq, Fields.ofSection, complete_insert_of_isNormal h,
    settleField_insert h.java hjava, settleField_insert h.jar hjar,
    settleField_insert h.autoDetect hauto]
  congr 1
  by_cases hjava : name = "java_path"
  · subst hjava
    rfl
  by_cases hjar : name = "jar_path"
  · subst hjar
    rfl
  by_cases hauto : name = "auto_detect_jar"
  · subst hauto
    rfl
  simp [normalField, hjava, hjar, hauto]

/-- A value for the whole section has the normal form that the section has already, or one for a
field, or for something in a field, gets the form that the field has already. -/
def IsRestored (fields : Fields) (key : Text) (v : Value) : Prop :=
  (Fields.parts key = [Text.ofString "dhrlang"]
    ∧ (Value.object fields).same true (.object (normalSection (some v))))
  ∨ ∃ name rest u, Fields.parts key = Text.ofString "dhrlang" :: name :: rest
    ∧ Fields.get? name fields = some u
    ∧ u.same true (normalField name (Fields.placed v rest (some u)))

namespace Manager

variable {m : Manager} {key : Text} {v : Value}

theorem settlesBack_iff (hm : m.IsProper) (hv : v.isProper) {fields : Fields}
    {config : Toolchain.Config}
    (hfields : Fields.get? "dhrlang" m.project.data = some (.object fields))
    (hnormal : IsNormal fields config) :
    m.SettlesBack key v ↔ isList (Fields.get? "workspace_roots" m.project.data)
      ∧ IsRestored fields key v := by
  have hproper : (Value.object fields).isProper := Value.isFormed_get? (hm .project).data hfields
  rw [SettlesBack, and_left_comm, isUnder_iff (by decide), hfields, IsRestored]
  refine and_congr_right fun _ => ?_
  rcases hparts : Fields.parts key with _ | ⟨first, _ | ⟨name, rest⟩⟩
  · simp
  · simp [Fields.placed]
  · have hcurrent : ∀ u ∈ Fields.get? name fields, u.isProper := fun u hu =>
      Value.isFormed_get? hproper hu
    have hfield := isProper_normalField name (Fields.isProper_placed hv hcurrent rest)
    have hplaced : Fields.placed v (name :: rest) (some (.object fields))
        = .object (Fields.insert name (Fields.placed v rest (Fields.get? name fields)) fields) := by
      rw [Fields.placed, Fields.ofSection, Fields.setPath_cons]
    simp only [List.head?_cons, List.tail_cons, Option.some_inj, exists_eq_left', hplaced,
      normalSection_insert hnormal, Fields.same_insert_iff hproper hfield]
    constructor
    · rintro ⟨rfl, u, hu, hsame⟩
      rw [hu] at hsame
      exact .inr ⟨name, rest, u, rfl, hu, hsame⟩
    · rintro (⟨hnil, -⟩ | ⟨_, _, u, hcons, hu, hsame⟩)
      · simp at hnil
      · obtain ⟨rfl, rfl, rfl⟩ := by simpa using hcons
        refine ⟨rfl, u, hu, ?_⟩
        rwa [hu]

end Manager

end Settings

namespace Session

/-- Setting a key tells those who listen to the manager, in a session in which it has settled and
nothing else has been said. -/
def TellsOf (s : Session) (name key : Text) (v : Value) (m settled : Settings.Manager) : Prop :=
  ∃ (began s' : Session) (r : Except Settings.Failure Unit), began.manager? name = some settled
    ∧ began.log = s.log ∧ tellAllBy perform key s.handed.length m.listeners began = (r, s')
    ∧ s.perform (.set name (.str key) v none) = (r.map fun () => .changed true, s')

/-- Setting a key tells the listeners just if the manager says that the value changed. -/
theorem perform_set_tells {s : Session} (hs : s.IsOrderly) {m m' : Settings.Manager}
    {name key : Text} {v : Value} {changed : Bool} (hm : s.manager? name = some m)
    (hset : m.set key v none = (.ok changed, m')) :
    (changed = false → s.perform (.set name (.str key) v none) = (.ok (.changed false), s))
    ∧ (changed = true → s.TellsOf name key v m m') := by
  have hmanager : s.manager? (managerOf (.set name (.str key) v none)) = some m := hm
  have hperform : s.perform (.set name (.str key) v none) = setBy perform s m name key v none :=
    perform_eq hs hmanager
  rw [setBy_eq] at hperform
  refine ⟨?_, ?_⟩
  · rintro rfl
    rw [hperform, (Settings.Manager.eq_of_set_false hset).1]
  · rintro rfl
    obtain ⟨stored, -, hwrite, hsettle⟩ := Settings.Manager.exists_of_set_true hset
    rw [hwrite] at hperform
    simp only [hsettle] at hperform
    exact ⟨_, _, _, manager?_announced hm, rfl, rfl, hperform⟩

end Session

namespace Settings

/-- In every state that operations lead to from a made manager, a set that tells of no change
changes nothing, and one that tells the listeners of a change leaves documents that differ, unless
the section on the toolchain settles back or a not-a-number was written over one. When all
operations completed, that section settles back just where the value gets the form that the section,
or its field, has already. -/
theorem set_effective_iff {h : Host} {projectRoot ideFolder projectName ideName : Text}
    {persistent : Bool} {m₀ : Manager}
    (hmake : Manager.make h projectRoot ideFolder projectName ideName persistent = .ok m₀)
    {ops : List Operation} (hops : ∀ key v asked, Operation.set key v asked ∈ ops → v.isProper)
    {m m' : Manager} (hm : m = ((Scene.mk m₀ h).run ops).manager) {key : Text} {v : Value}
    (hv : v.isProper) {changed : Bool} (hset : m.set key v none = (.ok changed, m')) :
    (changed = false → m' = m)
    ∧ (changed = true → (m.SameData m' ↔ m.SettlesBack key v ∨ m.DiffersInNan key v))
    ∧ (v.lacksNan → ¬ m.DiffersInNan key v)
    ∧ ((Scene.mk m₀ h).Always (fun sc op => (sc.act op).1 = .ok ()) ops →
      ∃ fields config, Fields.get? "dhrlang" m.project.data = some (.object fields)
        ∧ IsNormal fields config
        ∧ (m.SettlesBack key v ↔ isList (Fields.get? "workspace_roots" m.project.data)
          ∧ IsRestored fields key v))
    ∧ ∀ (s : Session) (name : Text), s.Reached → s.manager? name = some m →
      (changed = false → s.perform (.set name (.str key) v none) = (.ok (.changed false), s))
      ∧ (changed = true → s.TellsOf name key v m m') := by
  have hproper : m.IsProper := hm ▸ isProper_run (isProper_of_make hmake) hops
  refine ⟨?_, ?_, ?_, fun hdone => ?_, fun s name hs hname =>
    Session.perform_set_tells hs.isOrderly hname hset⟩
  · rintro rfl
    exact (Manager.eq_of_set_false hset).2
  · rintro rfl
    exact Manager.sameData_set_iff hproper hv hset
  · rintro hlacks ⟨-, hsame, hdiffers⟩
    simp [Value.same_false_of_true _ hlacks hsame] at hdiffers
  · obtain ⟨fields, config, hfields, hnormal, -⟩ := isSettled_run (isSettled_of_make hmake).1 hdone
    rw [Scene.toolchain?, ← hm] at hfields
    exact ⟨fields, config, hfields, hnormal, Manager.settlesBack_iff hproper hv hfields hnormal⟩

/-- A word that means yes settles back where the setting is on, and the set tells of a change. -/
theorem yes_settles_back : ∃ m m' : Manager,
    m = ((Scene.mk plainManager Store.bareHost).run [.loadAll false]).manager
    ∧ m.set "dhrlang.auto_detect_jar" (.str "yes") none = (.ok true, m')
    ∧ m.SettlesBack "dhrlang.auto_detect_jar" (.str "yes") ∧ m.SameData m' := by
  obtain ⟨-, hsame, -, hback, -⟩ := @set_effective_iff _ _ _ _ _ _ _
    (make_plainManager Store.bareHost) [.loadAll false] (by simp) _ _ rfl
    "dhrlang.auto_detect_jar" (.str "yes") rfl true rfl
  obtain ⟨fields, config, hfields, -, hiff⟩ := hback ⟨rfl, trivial⟩
  have hsettles := hiff.2 ⟨rfl, .inr ⟨"auto_detect_jar", [], .bool true, rfl, ?_, rfl⟩⟩
  · exact ⟨_, _, rfl, rfl, hsettles, (hsame rfl).2 (.inl hsettles)⟩
  · have hdefault : some (Value.object defaultToolchain) = some (.object fields) := hfields
    cases hdefault
    rfl

end Settings

namespace Session

/-- A session with a manager that has loaded its settings and an observer who listens to it. -/
def attended : Session :=
  let s := (onHost Settings.Store.bareHost).addManager "m" Settings.plainManager
  let s := (s.perform (.loadAll "m" false)).2
  (s.perform (.listen "m" "a" [])).2

theorem reached_attended : attended.Reached :=
  .act _ (.act _ (.add "m" rfl (@Reached.start Settings.Store.bareHost [] (by simp))))

/-- An observer is told of a change, and both documents are as they were. -/
theorem attended_told_of_nothing : attended.Reached ∧ ∃ (s' : Session) (m m' : Settings.Manager),
    attended.perform (.set "m" (.str "dhrlang.auto_detect_jar") (.str "yes") none)
      = (.ok (.changed true), s')
    ∧ s'.heard = [⟨"a", "dhrlang.auto_detect_jar", 0⟩]
    ∧ attended.manager? "m" = some m ∧ s'.manager? "m" = some m'
    ∧ m'.project.data = m.project.data ∧ m'.ide.data = m.ide.data :=
  ⟨reached_attended, _, _, _, rfl, rfl, rfl, rfl, rfl, rfl⟩

end Session

end DhrWorkbench
