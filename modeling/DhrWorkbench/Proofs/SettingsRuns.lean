import DhrWorkbench.Proofs.SavedSettings
import DhrWorkbench.Settings.Manager

/-!
# Runs of a settings manager

A scene is a manager on its host. Operations on the manager and edits of the files from outside
take it from scene to scene. Each operation is a sequence of single changes: a store is loaded,
saved or written to, or the project is put in normal form (`steps_after`). What every change keeps
is kept by a run.
-/

namespace DhrWorkbench

namespace Settings

namespace Manager

@[simp] theorem store_withStore (m : Manager) (scope : Scope) (s : Store) :
    (m.withStore scope s).store scope = s := by
  cases scope <;> rfl

theorem store_withStore_of_ne (m : Manager) {scope other : Scope} (h : other ≠ scope) (s : Store) :
    (m.withStore scope s).store other = m.store other := by
  cases scope <;> cases other <;> first | rfl | exact absurd rfl h

/-- What is said of a store after one was put in: of the new one in its place, else of the old. -/
theorem store_withStore_elim {P : Store → Prop} {m : Manager} {scope other : Scope} {s : Store}
    (hnew : other = scope → P s) (hold : other ≠ scope → P (m.store other)) :
    P ((m.withStore scope s).store other) := by
  by_cases h : other = scope
  · subst h
    rw [store_withStore]
    exact hnew rfl
  · rw [store_withStore_of_ne m h]
    exact hold h

end Manager

/-- A manager on its host. -/
structure Scene where
  manager : Manager
  host : Host

/-- Something done to a manager, or to the files from outside. -/
inductive Operation
  | loadAll (writeBack : Bool)
  | saveAll (onlyDirty : Bool)
  | set (key : Text) (value : Value) (asked : Option Scope)
  | get (key : Text) (default : Value)
  | listen (l : Listener)
  | unlisten (l : Listener)
  /-- Others change the files. -/
  | edit (files : FileSystem)

def Operation.isOwn : Operation → Bool
  | .edit _ => false
  | _ => true

namespace Scene

def store (sc : Scene) (scope : Scope) : Store := sc.manager.store scope

def withStore (sc : Scene) (scope : Scope) (s : Store) : Scene :=
  { sc with manager := sc.manager.withStore scope s }

/-- Whether an operation completes, and the scene after it. -/
def act (sc : Scene) : Operation → Except Failure Unit × Scene
  | .loadAll writeBack =>
    let (r, m, h) := sc.manager.loadAll sc.host writeBack
    (r, ⟨m, h⟩)
  | .saveAll onlyDirty =>
    let (r, m, h) := sc.manager.saveAll sc.host onlyDirty
    (r.map fun _ => (), ⟨m, h⟩)
  | .set key value asked =>
    let (r, m) := sc.manager.set key value asked
    (r.map fun _ => (), ⟨m, sc.host⟩)
  | .get _ _ => (.ok (), sc)
  | .listen l => (.ok (), { sc with manager := sc.manager.addListener l })
  | .unlisten l => (.ok (), { sc with manager := sc.manager.removeListener l })
  | .edit files => (.ok (), { sc with host := sc.host.withFiles files })

def after (sc : Scene) (op : Operation) : Scene := (sc.act op).2

def run (sc : Scene) (ops : List Operation) : Scene := ops.foldl after sc

/-- Each of the operations has a property in the scene in which it happens. -/
def Always (P : Scene → Operation → Prop) : Scene → List Operation → Prop
  | _, [] => True
  | sc, op :: rest => P sc op ∧ Always P (sc.after op) rest

/-- Whether loading all gets to load the store of a scope: the project is loaded first, and the
workbench only if that does not fail. -/
def Reaches (sc : Scene) : Scope → Prop
  | .project => True
  | .ide => (sc.manager.project.load sc.host).1 = .ok ()

/-- An operation loads the store of a scope. -/
def Loads (scope : Scope) (sc : Scene) : Operation → Prop
  | .loadAll _ => sc.Reaches scope
  | _ => False

theorem Always.append {P : Scene → Operation → Prop} : ∀ {ops rest : List Operation} {sc : Scene},
    Always P sc ops → Always P (sc.run ops) rest → Always P sc (ops ++ rest)
  | [], _, _, _, hrest => hrest
  | _ :: _, _, _, ⟨hop, hops⟩, hrest => ⟨hop, hops.append hrest⟩

theorem Always.of_append {P : Scene → Operation → Prop} :
    ∀ {ops rest : List Operation} {sc : Scene},
      Always P sc (ops ++ rest) → Always P (sc.run ops) rest
  | [], _, _, h => h
  | _ :: _, _, _, ⟨_, h⟩ => h.of_append

theorem run_append (sc : Scene) (before rest : List Operation) :
    sc.run (before ++ rest) = (sc.run before).run rest := List.foldl_append

end Scene

/-! ## Single changes -/

inductive Change
  | load (scope : Scope)
  | normalise
  | save (scope : Scope)
  | write (scope : Scope) (key : Text) (value : Value)
  | listeners (listeners : List Listener)
  | edit (files : FileSystem)

/-- A single change of a scene. -/
inductive Step : Change → Scene → Scene → Prop
  | load (sc : Scene) (scope : Scope) :
    Step (.load scope) sc (sc.withStore scope ((sc.store scope).load sc.host).2)
  | normalise (sc : Scene) :
    Step .normalise sc (sc.withStore .project sc.manager.project.normalise)
  | save {sc : Scene} {scope : Scope} {r : Except Failure Unit} {s : Store} {h : Host}
    (barred : (sc.store scope).isBarred = false)
    (saved : (sc.store scope).save sc.host = (r, s, h)) :
    Step (.save scope) sc ⟨sc.manager.withStore scope s, h⟩
  | write {sc : Scene} {scope : Scope} {key : Text} {value : Value} {s : Store}
    (written : (sc.store scope).set key value = .ok (true, s)) :
    Step (.write scope key value) sc (sc.withStore scope s)
  | listeners (sc : Scene) (listeners : List Listener) :
    Step (.listeners listeners) sc { sc with manager := { sc.manager with listeners } }
  | edit (sc : Scene) (files : FileSystem) :
    Step (.edit files) sc { sc with host := sc.host.withFiles files }

/-- Changes one after the other, all of them allowed. -/
abbrev Steps (Allowed : Change → Prop) : Scene → Scene → Prop :=
  Relation.ReflTransGen fun a b => ∃ c, Allowed c ∧ Step c a b

namespace Steps

variable {Allowed : Change → Prop}

theorem step {a b : Scene} {c : Change} (hallowed : Allowed c) (hstep : Step c a b) :
    Steps Allowed a b := .single ⟨c, hallowed, hstep⟩

/-- What each allowed change keeps is kept by all of them. -/
theorem keeps {P : Scene → Prop}
    (hstep : ∀ {a b : Scene} {c : Change}, Allowed c → Step c a b → P a → P b) {a b : Scene}
    (h : Steps Allowed a b) (ha : P a) : P b := by
  induction h with
  | refl => exact ha
  | tail _ hs ih =>
    obtain ⟨c, hallowed, hs⟩ := hs
    exact hstep hallowed hs ih

end Steps

/-! ## What stays -/

namespace Store

/-- The stores are of one file and have the same defaults. -/
structure SameFile (s s' : Store) : Prop where
  path : s'.path = s.path
  defaults : s'.defaults = s.defaults
  persistent : s'.persistent = s.persistent

theorem SameFile.refl (s : Store) : s.SameFile s := ⟨rfl, rfl, rfl⟩

theorem SameFile.trans {a b c : Store} (hab : a.SameFile b) (hbc : b.SameFile c) : a.SameFile c :=
  ⟨hbc.path.trans hab.path, hbc.defaults.trans hab.defaults, hbc.persistent.trans hab.persistent⟩

theorem sameFile_load (s : Store) (h : Host) : s.SameFile (s.load h).2 := by
  cases hl : s.load h with
  | mk r s' =>
    obtain ⟨-, rfl, -⟩ | ⟨-, -, rfl, -⟩ | ⟨-, -, -, reason, -, rfl⟩ | ⟨-, -, -, fields, -, rfl⟩ :=
      load_cases hl
    all_goals exact ⟨rfl, rfl, rfl⟩

theorem sameFile_save {s s' : Store} {h h' : Host} {r : Except Failure Unit}
    (hs : s.save h = (r, s', h')) : s.SameFile s' := by
  obtain ⟨-, -, rfl, -⟩ | ⟨-, -, rfl, -⟩ | ⟨-, -, rfl⟩ := save_cases hs
  all_goals exact ⟨rfl, rfl, rfl⟩

theorem exists_of_written {s s' : Store} {key : Text} {value : Value}
    (hs : s.set key value = .ok (true, s')) :
    ∃ data, Fields.assign s.data key value = some data ∧ s' = { s with data, dirty := true } := by
  unfold set at hs
  split at hs
  · cases hs
  · split at hs
    · cases hs
    · rename_i data hassign
      cases hs
      exact ⟨data, hassign, rfl⟩

end Store

/-- Neither the files of the stores nor the working directory are others. -/
structure Scene.Continues (sc sc' : Scene) : Prop where
  sameFile : ∀ scope, (sc.store scope).SameFile (sc'.store scope)
  cwd : sc'.host.cwd = sc.host.cwd

namespace Scene

theorem Continues.refl (sc : Scene) : sc.Continues sc := ⟨fun _ => .refl _, rfl⟩

theorem Continues.trans {a b c : Scene} (hab : a.Continues b) (hbc : b.Continues c) :
    a.Continues c :=
  ⟨fun scope => (hab.sameFile scope).trans (hbc.sameFile scope), hbc.cwd.trans hab.cwd⟩

theorem continues_withStore (sc : Scene) {scope : Scope} {s : Store} {h : Host}
    (hs : (sc.store scope).SameFile s) (hcwd : h.cwd = sc.host.cwd) :
    sc.Continues ⟨sc.manager.withStore scope s, h⟩ := by
  refine ⟨fun other => ?_, hcwd⟩
  refine Manager.store_withStore_elim ?_ fun _ => .refl _
  rintro rfl
  exact hs

end Scene

theorem Step.continues {a b : Scene} {c : Change} (h : Step c a b) : a.Continues b := by
  cases h with
  | load scope => exact a.continues_withStore (Store.sameFile_load _ _) rfl
  | normalise => exact @Scene.continues_withStore a .project _ _ ⟨rfl, rfl, rfl⟩ rfl
  | save barred saved =>
    exact a.continues_withStore (Store.sameFile_save saved) (Store.touches_save saved).cwd
  | write written =>
    obtain ⟨data, -, rfl⟩ := Store.exists_of_written written
    exact a.continues_withStore ⟨rfl, rfl, rfl⟩ rfl
  | listeners listeners => exact ⟨fun scope => by cases scope <;> exact .refl _, rfl⟩
  | edit files => exact ⟨fun _ => .refl _, rfl⟩

theorem Steps.continues {Allowed : Change → Prop} {a b : Scene} (h : Steps Allowed a b) :
    a.Continues b :=
  h.keeps (P := a.Continues) (fun _ hstep hab => hab.trans hstep.continues) (.refl a)

/-! ## Two files apart -/

namespace Scene

def fileAt (sc : Scene) (scope : Scope) : Location :=
  sc.host.locationOf (sc.store scope).path.text

/-- The two stores have absolute paths that lead to different places. -/
structure Apart (sc : Scene) : Prop where
  absolute : ∀ scope, (Path.ofText (sc.store scope).path.text).isAbsolute
  ne : sc.fileAt .project ≠ sc.fileAt .ide

theorem Apart.ne_of_ne {sc : Scene} (h : sc.Apart) {scope other : Scope} (hne : other ≠ scope) :
    sc.fileAt other ≠ sc.fileAt scope := by
  cases scope <;> cases other <;> first | exact absurd rfl hne | exact h.ne | exact h.ne.symm

theorem Continues.fileAt_eq {a b : Scene} (h : a.Continues b) (scope : Scope) :
    b.fileAt scope = a.fileAt scope := by
  unfold fileAt
  rw [(h.sameFile scope).path, Host.locationOf_congr h.cwd]

theorem Continues.apart {a b : Scene} (h : a.Continues b) (ha : a.Apart) : b.Apart := by
  refine ⟨fun scope => ?_, ?_⟩
  · rw [(h.sameFile scope).path]
    exact ha.absolute scope
  · rw [h.fileAt_eq, h.fileAt_eq]
    exact ha.ne

end Scene

/-- A path in a folder that is at the root is absolute, also when it is read again. -/
theorem isAbsolute_ofText_append {p q : Path} (hp : p.anchor = .root) :
    (Path.ofText (p / q).text).isAbsolute := by
  have hanchor : (p / q).anchor ≠ .here := by
    change (Path.append p q).anchor ≠ .here
    unfold Path.append
    split
    · rename_i hq
      simpa [Path.isAbsolute] using hq
    · simp [hp]
  simpa [Path.isAbsolute] using Path.anchor_ofText_text hanchor

namespace Paths

theorem anchor_of_folder {h : Host} {t : Text} {p : Path} (hp : folder h t = .ok p) :
    p.anchor = .root := by
  unfold folder Host.resolve at hp
  split at hp
  · cases hp
  · rename_i path hpath
    cases hcheck : Host.checkStarts path.isAbsolute [] path.parts with
    | error fault =>
      rw [hcheck] at hp
      cases hp
    | ok _ =>
      rw [hcheck] at hp
      cases hp
      rfl

theorem isAbsolute_of_make {h : Host} {projectRoot ideFolder projectName ideName : Text}
    {paths : Paths} (hmake : Paths.make h projectRoot ideFolder projectName ideName = .ok paths) :
    (Path.ofText paths.projectFile.text).isAbsolute
      ∧ (Path.ofText paths.ideFile.text).isAbsolute := by
  unfold make at hmake
  split at hmake
  · cases hmake
  · rename_i root hroot
    split at hmake
    · cases hmake
    · rename_i ide hide
      cases hmake
      exact ⟨isAbsolute_ofText_append (anchor_of_folder hroot),
        isAbsolute_ofText_append (anchor_of_folder hide)⟩

end Paths

theorem Manager.exists_of_make {h : Host} {projectRoot ideFolder projectName ideName : Text}
    {persistent : Bool} {m : Manager}
    (hmake : Manager.make h projectRoot ideFolder projectName ideName persistent = .ok m) :
    ∃ paths, Paths.make h projectRoot ideFolder projectName ideName = .ok paths
      ∧ m = ⟨paths, .ofDefaults paths.projectFile defaultProject persistent,
        .ofDefaults paths.ideFile defaultIde true, []⟩ := by
  unfold Manager.make at hmake
  cases hpaths : Paths.make h projectRoot ideFolder projectName ideName with
  | error fault =>
    rw [hpaths] at hmake
    cases hmake
  | ok paths =>
    rw [hpaths] at hmake
    cases hmake
    exact ⟨paths, rfl, rfl⟩

theorem apart_of_make {h : Host} {projectRoot ideFolder projectName ideName : Text}
    {persistent : Bool} {m : Manager}
    (hmake : Manager.make h projectRoot ideFolder projectName ideName persistent = .ok m)
    (hne : h.locationOf m.project.path.text ≠ h.locationOf m.ide.path.text) :
    (Scene.mk m h).Apart := by
  obtain ⟨paths, hpaths, rfl⟩ := Manager.exists_of_make hmake
  obtain ⟨hproject, hide⟩ := Paths.isAbsolute_of_make hpaths
  exact ⟨fun scope => by cases scope <;> assumption, hne⟩

/-- Saving a store keeps the file of the other one. -/
theorem keepsAt_of_save {sc : Scene} (hapart : sc.Apart) {scope other : Scope} (hne : other ≠ scope)
    {r : Except Failure Unit} {s : Store} {h : Host}
    (hs : (sc.store other).save sc.host = (r, s, h)) : Host.KeepsAt (sc.fileAt scope) sc.host h :=
  (Store.touches_save hs).keeps (hapart.absolute other) _ (hapart.ne_of_ne hne).symm

/-! ## Operations as changes -/

section Operations

variable {Allowed : Change → Prop}

theorem steps_saveScopes (hsave : ∀ scope, Allowed (.save scope)) (onlyDirty : Bool) :
    ∀ (scopes : List Scope) (m : Manager) (h : Host),
      Steps Allowed ⟨m, h⟩ ⟨(Manager.saveScopes onlyDirty scopes m h).2.1,
        (Manager.saveScopes onlyDirty scopes m h).2.2⟩
  | [], m, h => .refl
  | scope :: rest, m, h => by
    rw [Manager.saveScopes]
    by_cases hwants : Manager.wantsSave onlyDirty (m.store scope)
    · have hbarred : (m.store scope).isBarred = false := by
        simp only [Manager.wantsSave, Bool.and_eq_true, Bool.not_eq_true'] at hwants
        exact hwants.1
      rw [if_pos hwants]
      -- A save that fails ends the loop, but has changed the store and the host.
      cases hsaved : (m.store scope).save h with
      | mk r sh =>
        obtain ⟨s, h'⟩ := sh
        have hstep : Steps Allowed ⟨m, h⟩ ⟨m.withStore scope s, h'⟩ :=
          .step (hsave scope) (.save hbarred hsaved)
        cases r with
        | error failure => exact hstep
        | ok _ =>
          have hrest := steps_saveScopes hsave onlyDirty rest (m.withStore scope s) h'
          dsimp only
          split
          · rename_i saved m' h'' heq
            rw [heq] at hrest
            exact hstep.trans hrest
          · rename_i failure m' h'' heq
            rw [heq] at hrest
            exact hstep.trans hrest
    · rw [if_neg hwants]
      exact steps_saveScopes hsave onlyDirty rest m h

theorem steps_saveAll (hsave : ∀ scope, Allowed (.save scope)) (onlyDirty : Bool) (m : Manager)
    (h : Host) :
    Steps Allowed ⟨m, h⟩ ⟨(m.saveAll h onlyDirty).2.1, (m.saveAll h onlyDirty).2.2⟩ :=
  steps_saveScopes hsave onlyDirty [.project, .ide] m h

def Manager.loaded (m : Manager) (h : Host) : Manager :=
  { m with project := (m.project.load h).2, ide := (m.ide.load h).2 }

/-- What loading both stores can come to: the project fails to load, or both are loaded and then
the project may be put in normal form. -/
theorem Manager.loadStores_cases (m : Manager) (h : Host) :
    (∃ failure, (m.project.load h).1 = .error failure
      ∧ m.loadStores h = (.error failure, { m with project := (m.project.load h).2 }))
    ∨ ((m.project.load h).1 = .ok () ∧ ∃ failure, m.loadStores h = (.error failure, m.loaded h))
    ∨ ((m.project.load h).1 = .ok () ∧ (m.ide.load h).1 = .ok ()
      ∧ ∃ m', (m.loaded h).normalise = .ok m' ∧ m.loadStores h = (.ok (), m')) := by
  unfold loadStores loaded
  cases hproject : m.project.load h with
  | mk r project =>
    cases r with
    | error failure => exact .inl ⟨failure, rfl, rfl⟩
    | ok _ =>
      right
      cases hide : m.ide.load h with
      | mk r ide =>
        cases r with
        | error failure => exact .inl ⟨rfl, failure, rfl⟩
        | ok _ =>
          dsimp only
          cases hnormal : normalise { m with project, ide } with
          | error failure => exact .inl ⟨rfl, failure, rfl⟩
          | ok m' => exact .inr ⟨rfl, rfl, m', rfl, rfl⟩

theorem Manager.normalise_eq {m m' : Manager} (h : m.normalise = .ok m') :
    m.currentToolchain.isTooDeep = false ∧ m' = { m with project := m.project.normalise } := by
  unfold normalise at h
  split at h
  · cases h
  · rename_i hdeep
    cases h
    exact ⟨by simpa using hdeep, rfl⟩

def Scene.loaded (sc : Scene) : Scene := ⟨sc.manager.loaded sc.host, sc.host⟩

/-- Loading all ends after the project when loading that fails; else it loads both stores and goes
on with changes that load no store. -/
theorem loadAll_cases (sc : Scene) (writeBack : Bool) :
    (¬ sc.Reaches .ide ∧ sc.after (.loadAll writeBack)
      = sc.withStore .project (sc.manager.project.load sc.host).2)
    ∨ (sc.Reaches .ide ∧ ∀ Allowed : Change → Prop, Allowed .normalise →
      (∀ scope, Allowed (.save scope)) →
      Steps Allowed sc.loaded (sc.after (.loadAll writeBack))) := by
  unfold Scene.after Scene.act Scene.Reaches Manager.loadAll
  obtain ⟨failure, hproject, hload⟩ | ⟨hproject, failure, hload⟩
    | ⟨hproject, -, m', hnormal, hload⟩ := sc.manager.loadStores_cases sc.host
  · simp only [hload]
    exact .inl ⟨by simp [hproject], rfl⟩
  · simp only [hload]
    exact .inr ⟨hproject, fun Allowed _ _ => .refl⟩
  · refine .inr ⟨hproject, fun Allowed hnormalise hsave => ?_⟩
    obtain ⟨-, rfl⟩ := Manager.normalise_eq hnormal
    have hstep : Steps Allowed sc.loaded
        (sc.loaded.withStore .project sc.loaded.manager.project.normalise) :=
      .step hnormalise (.normalise _)
    simp only [hload]
    split
    · have hrest := steps_saveAll hsave true { sc.manager.loaded sc.host with
        project := (sc.manager.loaded sc.host).project.normalise } sc.host
      split
      · rename_i saved m h heq
        rw [heq] at hrest
        exact hstep.trans hrest
      · rename_i failure m h heq
        rw [heq] at hrest
        exact hstep.trans hrest
    · exact hstep

theorem steps_loadAll {sc : Scene} {writeBack : Bool} (hnormalise : Allowed .normalise)
    (hsave : ∀ scope, Allowed (.save scope)) (hproject : Allowed (.load .project))
    (hide : sc.Reaches .ide → Allowed (.load .ide)) :
    Steps Allowed sc (sc.after (.loadAll writeBack)) := by
  have hfirst : Steps Allowed sc (sc.withStore .project (sc.manager.project.load sc.host).2) :=
    .step hproject (.load sc .project)
  obtain ⟨-, heq⟩ | ⟨hreaches, hrest⟩ := loadAll_cases sc writeBack
  · rw [heq]
    exact hfirst
  · exact (hfirst.tail ⟨_, hide hreaches, .load _ .ide⟩).trans (hrest Allowed hnormalise hsave)

theorem Manager.exists_of_write {m written : Manager} {key : Text} {value : Value}
    {asked : Option Scope} (h : m.write key value asked = .ok (some written)) :
    ∃ s, (m.store (targetScope key asked)).set key value = .ok (true, s)
      ∧ written = m.withStore (targetScope key asked) s := by
  unfold write at h
  dsimp only at h
  split at h
  · cases h
  · cases h
  · rename_i s hset
    cases h
    exact ⟨s, hset, rfl⟩

/-- What setting a key can come to: nothing is written, or what is written is settled, if that is
called for and does not fail. -/
theorem Manager.set_cases {m m' : Manager} {key : Text} {value : Value} {asked : Option Scope}
    {r : Except Failure Bool} (h : m.set key value asked = (r, m')) :
    (m' = m ∧ ∀ written, m.write key value asked ≠ .ok (some written))
    ∨ ∃ written, m.write key value asked = .ok (some written)
      ∧ ((isUnder "dhrlang" key = false ∧ m' = written)
        ∨ (isUnder "dhrlang" key ∧ (∃ failure, r = .error failure) ∧ m' = written)
        ∨ (isUnder "dhrlang" key ∧ written.normalise = .ok m')) := by
  unfold set at h
  split at h
  · rename_i failure hwrite
    cases h
    exact .inl ⟨rfl, by simp [hwrite]⟩
  · rename_i hwrite
    cases h
    exact .inl ⟨rfl, by simp [hwrite]⟩
  · rename_i written hwrite
    refine .inr ⟨written, hwrite, ?_⟩
    unfold settle at h
    by_cases hunder : isUnder "dhrlang" key
    · rw [if_pos hunder] at h
      split at h
      · cases h
        exact .inr (.inl ⟨hunder, ⟨_, rfl⟩, rfl⟩)
      · rename_i settled hnormal
        cases h
        exact .inr (.inr ⟨hunder, hnormal⟩)
    · rw [if_neg hunder] at h
      cases h
      exact .inl ⟨by simpa using hunder, rfl⟩

theorem steps_set {sc : Scene} {key : Text} {value : Value} {asked : Option Scope}
    (hnormalise : Allowed .normalise)
    (hallowed : Allowed (.write (Manager.targetScope key asked) key value)) :
    Steps Allowed sc (sc.after (.set key value asked)) := by
  cases hset : sc.manager.set key value asked with
  | mk r m =>
    have hafter : sc.after (.set key value asked) = ⟨m, sc.host⟩ := by
      simp only [Scene.after, Scene.act, hset]
    rw [hafter]
    obtain ⟨rfl, -⟩ | ⟨written, hwrite, hcases⟩ := Manager.set_cases hset
    · exact .refl
    · obtain ⟨s, hwritten, rfl⟩ := Manager.exists_of_write hwrite
      have hstep : Steps Allowed sc (sc.withStore (Manager.targetScope key asked) s) :=
        .step hallowed (.write hwritten)
      obtain ⟨-, rfl⟩ | ⟨-, -, rfl⟩ | ⟨-, hnormal⟩ := hcases
      · exact hstep
      · exact hstep
      · obtain ⟨-, rfl⟩ := Manager.normalise_eq hnormal
        exact hstep.tail ⟨_, hnormalise, .normalise _⟩

def Operation.MadeOf (sc : Scene) (op : Operation) (Allowed : Change → Prop) : Prop :=
  Allowed .normalise ∧ (∀ scope, Allowed (.save scope))
    ∧ (∀ listeners, Allowed (.listeners listeners))
    ∧ (∀ scope, Scene.Loads scope sc op → Allowed (.load scope))
    ∧ (∀ key value asked, op = .set key value asked →
      Allowed (.write (Manager.targetScope key asked) key value))
    ∧ ∀ files, op = .edit files → Allowed (.edit files)

/-- Every operation is a sequence of single changes. -/
theorem steps_after {sc : Scene} {op : Operation} (h : op.MadeOf sc Allowed) :
    Steps Allowed sc (sc.after op) := by
  obtain ⟨hnormalise, hsave, hlisteners, hload, hwrite, hedit⟩ := h
  cases op with
  | loadAll writeBack =>
    exact steps_loadAll hnormalise hsave (hload .project trivial) (hload .ide)
  | saveAll onlyDirty => exact steps_saveAll hsave onlyDirty sc.manager sc.host
  | set key value asked => exact steps_set hnormalise (hwrite key value asked rfl)
  | get key default => exact .refl
  | listen l =>
    change Steps Allowed sc { sc with manager := sc.manager.addListener l }
    unfold Manager.addListener
    split
    · exact .refl
    · exact .step (hlisteners _) (.listeners sc _)
  | unlisten l => exact .step (hlisteners _) (.listeners sc _)
  | edit files => exact .step (hedit files rfl) (.edit sc files)

theorem Scene.continues_after (sc : Scene) (op : Operation) : sc.Continues (sc.after op) :=
  Steps.continues (@steps_after (fun _ => True) sc op (by simp [Operation.MadeOf]))

theorem Scene.continues_run : ∀ (ops : List Operation) (sc : Scene), sc.Continues (sc.run ops)
  | [], sc => .refl sc
  | op :: rest, sc => (sc.continues_after op).trans (continues_run rest (sc.after op))

/-- Loading all loads a store that it reaches and goes on without loading it again. -/
theorem exists_steps_of_load {sc : Scene} {scope : Scope} (hr : sc.Reaches scope) (writeBack : Bool)
    (hnormalise : Allowed .normalise) (hsave : ∀ scope, Allowed (.save scope))
    (hother : ∀ other, other ≠ scope → Allowed (.load other)) :
    ∃ loaded : Scene, sc.Continues loaded ∧ loaded.host = sc.host
      ∧ loaded.store scope = ((sc.store scope).load sc.host).2
      ∧ Steps Allowed loaded (sc.after (.loadAll writeBack)) := by
  have hproject := (Step.load sc .project).continues
  obtain ⟨hnot, heq⟩ | ⟨hreaches, hrest⟩ := loadAll_cases sc writeBack
  · cases scope with
    | project =>
      refine ⟨_, hproject, rfl, rfl, ?_⟩
      rw [heq]
      exact .refl
    | ide => exact absurd hr hnot
  · have hrest := hrest Allowed hnormalise hsave
    have hide := hproject.trans (Step.load _ .ide).continues
    cases scope with
    | project =>
      exact ⟨_, hproject, rfl, rfl, (Steps.step (hother .ide (by simp)) (.load _ .ide)).trans hrest⟩
    | ide => exact ⟨_, hide, rfl, rfl, hrest⟩

end Operations

/-! ## Listeners -/

namespace Manager

variable {m m' : Manager} {key : Text} {value : Value} {asked : Option Scope}

@[simp] theorem listeners_withStore (m : Manager) (scope : Scope) (s : Store) :
    (m.withStore scope s).listeners = m.listeners := by
  rcases scope <;> rfl

theorem listeners_of_write (h : m.write key value asked = .ok (some m')) :
    m'.listeners = m.listeners := by
  obtain ⟨s, -, rfl⟩ := exists_of_write h
  simp

theorem listeners_of_settle (h : m.settle key = .ok m') : m'.listeners = m.listeners := by
  unfold settle at h
  split_ifs at h
  · obtain ⟨-, rfl⟩ := normalise_eq h
    rfl
  · obtain rfl : m = m' := by simpa using h
    rfl

theorem listeners_saveAll (m : Manager) (h : Host) (onlyDirty : Bool) :
    (m.saveAll h onlyDirty).2.1.listeners = m.listeners := by
  have hsteps := @steps_saveAll (fun c => ∃ scope, c = .save scope) (fun scope => ⟨scope, rfl⟩)
    onlyDirty m h
  refine hsteps.keeps (P := fun sc => sc.manager.listeners = m.listeners)
    (fun hc hstep hsame => ?_) rfl
  obtain ⟨scope, rfl⟩ := hc
  rcases hstep
  simpa using hsame

theorem listeners_loadAll (m : Manager) (h : Host) (writeBack : Bool) :
    (m.loadAll h writeBack).2.1.listeners = m.listeners := by
  rcases loadAll_cases ⟨m, h⟩ writeBack with ⟨-, hafter⟩ | ⟨-, hsteps⟩
  · exact (congrArg (·.manager.listeners) hafter).trans (listeners_withStore _ _ _)
  · refine (hsteps (fun c => c = .normalise ∨ ∃ scope, c = .save scope) (.inl rfl)
      fun scope => .inr ⟨scope, rfl⟩).keeps (P := fun sc => sc.manager.listeners = m.listeners)
      (fun hc hstep hsame => ?_) rfl
    obtain rfl | ⟨scope, rfl⟩ := hc
    · rcases hstep
      exact hsame
    · rcases hstep
      simpa using hsame

theorem listeners_addListener (m : Manager) (l : Listener) : (m.addListener l).listeners
    = if l ∈ m.listeners then m.listeners else m.listeners ++ [l] := by
  unfold addListener
  split_ifs <;> rfl

theorem nodup_addListener (h : m.listeners.Nodup) {l : Listener} :
    (m.addListener l).listeners.Nodup := by
  rw [listeners_addListener]
  split_ifs with hl
  · exact h
  · exact List.nodup_append.2 ⟨h, by simp, by grind⟩

end Manager

/-! ## A plain manager -/

/-- The manager of the project in one folder at the root and of the workbench in another. -/
def plainManager : Manager where
  paths := ⟨⟨.root, ["w"]⟩, ⟨.root, ["i"]⟩, ⟨.root, ["w", ".pydhr", "project.json"]⟩,
    ⟨.root, ["i", "ide-settings.json"]⟩⟩
  project := .ofDefaults ⟨.root, ["w", ".pydhr", "project.json"]⟩ defaultProject true
  ide := .ofDefaults ⟨.root, ["i", "ide-settings.json"]⟩ defaultIde true
  listeners := []

theorem make_plainManager (h : Host) :
    Manager.make h "/w" "/i" Paths.projectName Paths.ideName true = .ok plainManager := rfl

end Settings

end DhrWorkbench
