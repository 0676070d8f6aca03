import DhrWorkbench.CommandLine
import DhrWorkbench.Proofs.DottedKeys
import DhrWorkbench.Proofs.Reloading

/-!
# What the command line says of the toolchain

The settings of a command are those of its files, or the defaults, put in normal form
(`says_of_loadFiles`). Each flag then sets one key of the section on the toolchain. A set that finds
the value there already writes nothing and any other puts the section in normal form again; either
way the section says what it said but for that key (`says_override`). So what the command line says
wins, the rest stays as the files have it, and no file is written.
-/

namespace DhrWorkbench

open Settings (Manager Store)

/-- What a section of a file says of the toolchain; what it does not have is as by default. -/
def Toolchain.Config.ofSection (fields : Fields) : Config where
  java := Settings.javaProgram ((Fields.get? "java_path" fields).getD (.str "java"))
  jar := ((Fields.get? "jar_path" fields).getD (.str "")).textOr ""
  autoDetect := Settings.isOn ((Fields.get? "auto_detect_jar" fields).getD (.bool true))

open Toolchain (Config)

namespace Settings

/-! ## What a section says -/

/-- Completing a section fills in the defaults of the fields that it does not have. -/
theorem get?_completed (fields : Fields) :
    Fields.get? "java_path" (Fields.complete fields defaultToolchain)
      = some ((Fields.get? "java_path" fields).getD (.str "java"))
    ∧ Fields.get? "jar_path" (Fields.complete fields defaultToolchain)
      = some ((Fields.get? "jar_path" fields).getD (.str ""))
    ∧ Fields.get? "auto_detect_jar" (Fields.complete fields defaultToolchain)
      = some ((Fields.get? "auto_detect_jar" fields).getD (.bool true)) := by
  have hfilled : ∀ (v : Option Value) {d : Value}, (∀ inner, d ≠ .object inner) →
      Fields.filled v d = v.getD d := by
    rintro (_ | v) d hplain
    · rfl
    · exact Fields.completeValue_default _ hplain
  have hkeys : (Fields.keys defaultToolchain).Nodup := by decide
  simp only [Fields.get?_complete _ _ hkeys]
  exact ⟨congrArg some (hfilled _ nofun), congrArg some (hfilled _ nofun),
    congrArg some (hfilled _ nofun)⟩

theorem ofSection_complete (fields : Fields) :
    Config.ofSection (Fields.complete fields defaultToolchain) = Config.ofSection fields := by
  obtain ⟨hjava, hjar, hauto⟩ := get?_completed fields
  simp only [Config.ofSection, hjava, hjar, hauto, Option.getD_some]

/-- The normal form of a section says what the section says. -/
theorem isNormal_ofSection (current : Option Value) :
    IsNormal (normalSection current) (.ofSection (Fields.ofSection current)) := by
  obtain ⟨hjava, hjar, hauto⟩ := get?_completed (Fields.ofSection current)
  unfold normalSection
  simp only [hjava, hjar, hauto, Option.getD_some]
  refine ⟨?_, ?_, ?_, javaProgram_ne_nil _, isTrim_javaProgram _⟩
  · simp only [Fields.get?_insert]
    rfl
  · simp only [Fields.get?_insert]
    rfl
  · simp only [Fields.get?_insert]
    rfl

/-- A section in normal form says what stands in it. -/
theorem ofSection_of_isNormal {fields : Fields} {config : Config} (h : IsNormal fields config) :
    Config.ofSection fields = config := by
  have hjar : (Value.str config.jar).textOr "" = config.jar := Value.textOr_str_nil config.jar
  simp only [Config.ofSection, h.java, h.jar, h.autoDetect, Option.getD_some,
    javaProgram_str h.named h.trim, hjar, isOn_bool]

/-- The section on the toolchain is in normal form, can be copied and says this. -/
def Manager.Says (m : Manager) (config : Config) : Prop :=
  ∃ fields, Fields.get? "dhrlang" m.project.data = some (.object fields) ∧ IsNormal fields config
    ∧ (Value.object fields).height ≤ Value.heightLimit

variable {m m' : Manager} {config : Config}

theorem Manager.Says.toolchainSettings (h : m.Says config) :
    ∃ settings, m.toolchainSettings = .ok settings ∧ Config.ofSettings settings = config := by
  obtain ⟨fields, hfields, hnormal, hheight⟩ := h
  exact ⟨_, toolchainSettings_eq hfields hnormal hheight, ofSettings_of_isNormal hnormal⟩

/-- Put in normal form, a section says what it said before. -/
theorem says_of_normalise (h : m.normalise = .ok m') :
    m'.Says (.ofSection (Fields.ofSection (Fields.get? "dhrlang" m.project.data))) := by
  obtain ⟨hdeep, rfl⟩ := Manager.normalise_eq h
  exact ⟨_, get?_normalise m.project, isNormal_ofSection _,
    height_normalSection_le (by decide) (height_le_of_currentToolchain hdeep)⟩

/-! ## Setting a key of the section -/

section Key

-- A key that leads to a field of the section.
variable {key name : Text} (hparts : Fields.parts key = [Text.ofString "dhrlang", name])
  {value : Value} {fields : Fields}

include hparts

theorem isUnder_of_parts : isUnder "dhrlang" key :=
  (isUnder_iff (by decide)).2 (by rw [hparts]; rfl)

theorem ne_nil_of_parts : key ≠ [] := by
  rintro rfl
  exact absurd (isUnder_of_parts hparts) (by decide)

theorem targetScope_of_parts : Manager.targetScope key none = .project :=
  Manager.targetScope_of_isUnder (isUnder_of_parts hparts)

theorem get_of_parts {s : Store} (h : Fields.get? "dhrlang" s.data = some (.object fields)) :
    s.get key .null = (Fields.get? name fields).getD .null := by
  rw [Store.get, Fields.lookup, if_neg (by simpa using ne_nil_of_parts hparts), hparts]
  simp only [Fields.follow, h]
  rcases Fields.get? name fields with _ | v <;> rfl

theorem get?_assign_of_parts {data data' : Fields}
    (h : Fields.get? "dhrlang" data = some (.object fields))
    (hassign : Fields.assign data key value = some data') :
    Fields.get? "dhrlang" data' = some (.object (Fields.insert name value fields)) := by
  obtain ⟨-, rfl⟩ := Fields.eq_of_assign hassign
  rw [hparts, Fields.setPath, Fields.get?_insert, if_pos rfl, h]
  rfl

end Key

/-- A set that goes well and writes nothing finds the value there. -/
theorem same_of_unwritten {key : Text} {value : Value} {asked : Option Scope} {changed : Bool}
    (h : m.set key value asked = (.ok changed, m'))
    (hnot : ∀ written, m.write key value asked ≠ .ok (some written)) :
    ((m.store (Manager.targetScope key asked)).get key .null).same false value := by
  by_contra hsame
  have hwrite : m.write key value asked = .error .emptyKey := by
    unfold Manager.write Store.set at hnot ⊢
    simp only [hsame, if_false] at hnot ⊢
    rcases hassign : Fields.assign (m.store (Manager.targetScope key asked)).data key value
      with _ | data
    · rfl
    · rw [hassign] at hnot
      exact absurd rfl (hnot _)
  simp [Manager.set, hwrite] at h

/-- Whether or not a set writes the section, the section says what it said but for the key. What is
taken for the value has to be the value. -/
theorem says_of_set {key name : Text} {value : Value} {changed : Bool} (h : m.Says config)
    (hparts : Fields.parts key = [Text.ofString "dhrlang", name])
    (hexact : ∀ fields, IsNormal fields config →
      ((Fields.get? name fields).getD .null).same false value →
      Fields.get? name fields = some value)
    (hset : m.set key value none = (.ok changed, m')) :
    ∃ fields, IsNormal fields config ∧ m'.Says (.ofSection (Fields.insert name value fields)) := by
  obtain ⟨fields, hfields, hnormal, hheight⟩ := h
  refine ⟨fields, hnormal, ?_⟩
  have htarget := targetScope_of_parts hparts
  -- either the value was there, or it is written and the section is put in normal form again
  obtain ⟨rfl, hnot⟩ | ⟨written, hwrite, hcases⟩ := Manager.set_cases hset
  · have hsame := same_of_unwritten hset hnot
    rw [htarget, get_of_parts hparts (s := m'.store .project) hfields] at hsame
    rw [Fields.insert_eq_self (hexact fields hnormal hsame), ofSection_of_isNormal hnormal]
    exact ⟨fields, hfields, hnormal, hheight⟩
  · obtain ⟨hnot, -⟩ | ⟨-, ⟨failure, hfailure⟩, -⟩ | ⟨-, hnormalise⟩ := hcases
    · simp [isUnder_of_parts hparts] at hnot
    · cases hfailure
    · obtain ⟨s, hstore, rfl⟩ := Manager.exists_of_write hwrite
      rw [htarget] at hstore hnormalise
      obtain ⟨data, hassign, rfl⟩ := Store.exists_of_written hstore
      have hmeans := says_of_normalise hnormalise
      change m'.Says (.ofSection (Fields.ofSection (Fields.get? "dhrlang" data))) at hmeans
      rwa [get?_assign_of_parts hparts hfields hassign] at hmeans

theorem str_of_same {s t : Text} (h : (Value.str s).same false (.str t)) : s = t := by
  simpa [Value.same, Value.sameAtom] using h

theorem bool_of_same {a b : Bool} (h : (Value.bool a).same false (.bool b)) : a = b := by
  rcases a <;> rcases b <;> first | rfl | cases h

end Settings

namespace CommandLine

/-! ## Flags -/

/-- What a flag says of the toolchain. -/
inductive Override
  | jar (path : Text)
  | java (program : Text)
  | autoDetect (on : Bool)

namespace Override

/-- The field of the section that a flag sets. -/
def name : Override → Text
  | .jar _ => "jar_path"
  | .java _ => "java_path"
  | .autoDetect _ => "auto_detect_jar"

def key : Override → Text
  | .jar _ => "dhrlang.jar_path"
  | .java _ => "dhrlang.java_path"
  | .autoDetect _ => "dhrlang.auto_detect_jar"

def value : Override → Value
  | .jar path => .str path
  | .java program => .str program
  | .autoDetect on => .bool on

/-- A configuration with what a flag says in the place of what it says itself. -/
def within (config : Config) : Override → Config
  | .jar path => { config with jar := path }
  | .java program => { config with java := Settings.javaProgram (.str program) }
  | .autoDetect on => { config with autoDetect := on }

theorem parts_key (o : Override) : Fields.parts o.key = [Text.ofString "dhrlang", o.name] := by
  rcases o <;> rfl

theorem ofSection_insert (o : Override) (fields : Fields) :
    Config.ofSection (Fields.insert o.name o.value fields) = within (.ofSection fields) o := by
  have hne : Text.ofString "jar_path" ≠ Text.ofString "java_path"
      ∧ Text.ofString "jar_path" ≠ Text.ofString "auto_detect_jar"
      ∧ Text.ofString "java_path" ≠ Text.ofString "auto_detect_jar" := by decide
  rcases o with path | program | on
  · have hjar : (Value.str path).textOr "" = path := Value.textOr_str_nil path
    simp [Config.ofSection, Fields.get?_insert, name, value, within, hne, hjar]
  · simp [Config.ofSection, Fields.get?_insert, name, value, within, hne, hne.1.symm]
  · simp [Config.ofSection, Fields.get?_insert, name, value, within, hne.2.1.symm, hne.2.2.symm,
      Settings.isOn_bool]

/-- What is taken for the value of a flag in a section in normal form is the value. -/
theorem get?_of_same (o : Override) {fields : Fields} {config : Config}
    (h : Settings.IsNormal fields config)
    (hsame : ((Fields.get? o.name fields).getD .null).same false o.value) :
    Fields.get? o.name fields = some o.value := by
  rcases o with path | program | on
  · simp only [name, value, h.jar, Option.getD_some] at hsame ⊢
    rw [Settings.str_of_same hsame]
  · simp only [name, value, h.java, Option.getD_some] at hsame ⊢
    rw [Settings.str_of_same hsame]
  · simp only [name, value, h.autoDetect, Option.getD_some] at hsame ⊢
    rw [Settings.bool_of_same hsame]

end Override

variable {h h' : Host} {a : Arguments} {m m' : Manager} {config : Config}

theorem says_override (o : Override) (hmeans : m.Says config)
    (hover : override m o.key o.value = .ok m') : m'.Says (o.within config) := by
  obtain ⟨changed, hset⟩ : ∃ changed, m.set o.key o.value none = (.ok changed, m') := by
    unfold override at hover
    split at hover
    · rename_i changed _ hset
      cases hover
      exact ⟨changed, hset⟩
    · cases hover
  obtain ⟨fields, hnormal, hmeans⟩ :=
    Settings.says_of_set hmeans o.parts_key (fun _ => o.get?_of_same) hset
  rwa [o.ofSection_insert, Settings.ofSection_of_isNormal hnormal] at hmeans

/-- Flags are set one after the other, and each says its own of the toolchain. -/
theorem says_overrides : ∀ {os : List Override} {m : Manager} {config : Config}, m.Says config →
    os.foldlM (fun m o => override m o.key o.value) m = .ok m' →
    m'.Says (os.foldl Override.within config)
  | [], m, config, hmeans, hover => by
    obtain rfl : m = m' := by simpa [pure, Except.pure] using hover
    exact hmeans
  | o :: rest, m, config, hmeans, hover => by
    rw [List.foldlM_cons] at hover
    rcases hfirst : override m o.key o.value with failure | m₁
    · rw [hfirst] at hover
      cases hover
    · rw [hfirst] at hover
      exact @says_overrides rest m₁ _ (says_override o hmeans hfirst) hover

/-- What the command line says of the toolchain, in the order in which it is set. -/
def overridesOf (jar java : Option Text) (noAutoDetect : Bool) : List Override :=
  (jar.map Override.jar).toList ++ (java.map Override.java).toList
    ++ if noAutoDetect then [.autoDetect false] else []

theorem exists_of_applyOverrides (hover : applyOverrides h a m = .ok m') :
    ∃ jar, (given? a.jar).map (jarPath h) = jar.map .ok
      ∧ (overridesOf jar (given? a.java) a.noAutoDetect).foldlM
        (fun m o => override m o.key o.value) m = .ok m' := by
  unfold applyOverrides at hover
  rcases hjar : given? a.jar with _ | t
  · refine ⟨none, rfl, ?_⟩
    rw [← hover, hjar]
    rcases given? a.java with _ | java <;> rcases a.noAutoDetect
    all_goals simp [overridesOf, Override.key, Override.value]
  · rcases hpath : jarPath h t with failure | path
    · rw [hjar] at hover
      simp [hpath, bind, Except.bind] at hover
    refine ⟨some path, congrArg some hpath, ?_⟩
    rw [← hover, hjar]
    rcases given? a.java with _ | java <;> rcases a.noAutoDetect
    all_goals simp [overridesOf, Override.key, Override.value, hpath]
    all_goals rfl

/-! ## Files -/

/-- The section on the toolchain in the file of a store, without fields where there is no file or
where it cannot be read. -/
def fileSection (h : Host) (s : Store) : Fields :=
  match h.exists s.path.text, s.readFile h with
  | .ok true, .ok (.ok file) => Fields.ofSection (Fields.get? "dhrlang" file)
  | _, _ => []

/-- What the file of a project says of the toolchain, or else the defaults. -/
def fileConfig (h : Host) (m : Manager) : Config := .ofSection (fileSection h m.project)

theorem ofSection_default (file : Fields) :
    Config.ofSection (Fields.ofSection
        (Fields.get? "dhrlang" (Fields.complete file Settings.defaultProject)))
      = Config.ofSection (Fields.ofSection (Fields.get? "dhrlang" file)) := by
  have hdefault : Fields.get? "dhrlang" Settings.defaultProject
      = some (.object Settings.defaultToolchain) := rfl
  rw [Fields.get?_complete _ _ (by decide), hdefault]
  rcases Fields.get? "dhrlang" file with _ | v
  · exact Settings.ofSection_complete []
  · by_cases hobject : ∃ fields, v = .object fields
    · obtain ⟨fields, rfl⟩ := hobject
      simp only [Fields.filled, Fields.completeValue_object]
      exact Settings.ofSection_complete fields
    · simp only [Fields.filled]
      rw [Fields.completeValue_of_not_object _ fun fields hv => hobject ⟨fields, hv⟩]

/-- A store that was loaded has a section that says what its file says. -/
theorem ofSection_load {s : Store} (hdefaults : s.defaults = Settings.defaultProject)
    (hp : s.persistent) (hload : (s.load h).1 = .ok ()) :
    Config.ofSection (Fields.ofSection (Fields.get? "dhrlang" (s.load h).2.data))
      = Config.ofSection (fileSection h s) := by
  -- without a file that can be read the document is made of the defaults alone
  have hnone := ofSection_default []
  rcases hs : s.load h with ⟨r, s'⟩
  rw [hs] at hload
  obtain ⟨-, rfl, hnot | hnot⟩ | ⟨-, ⟨failure, rfl⟩, -⟩ | ⟨-, -, hexists, reason, hread, rfl⟩
    | ⟨-, -, hexists, file, hread, rfl⟩ := Store.load_cases hs
  · simp [hp] at hnot
  · simp only [fileSection, hnot, Store.reset, hdefaults]
    exact hnone
  · cases hload
  · simp only [fileSection, hexists, hread, Store.reset, hdefaults]
    exact hnone
  · simp only [fileSection, hexists, hread, hdefaults]
    exact ofSection_default file

theorem exists_of_loadFiles (hload : loadFiles h a = (.ok m, h')) :
    ∃ root ide m₀, Manager.make h root ide Settings.Paths.projectName Settings.Paths.ideName true
        = .ok m₀ ∧ m₀.loadAll h false = (.ok (), m, h') := by
  unfold loadFiles at hload
  split at hload
  · cases hload
  split at hload
  · cases hload
  dsimp only at hload
  split at hload
  · cases hload
  · rename_i m₀ hmake
    split at hload
    · cases hload
    · rename_i hall
      cases hload
      exact ⟨_, _, m₀, hmake, hall⟩

/-- Without writing back, loading that completes loads both stores, puts the project in normal form
and leaves the host as it is. -/
theorem exists_of_loadAll {m₀ : Manager} (hall : m₀.loadAll h false = (.ok (), m, h')) :
    h' = h ∧ (m₀.project.load h).1 = .ok () ∧ (m₀.loaded h).normalise = .ok m := by
  unfold Manager.loadAll at hall
  obtain ⟨failure, -, hstores⟩ | ⟨-, failure, hstores⟩ | ⟨hproject, -, m', hnormal, hstores⟩ :=
    m₀.loadStores_cases h
  · simp [hstores] at hall
  · simp [hstores] at hall
  · simp only [hstores, Bool.false_eq_true, if_false, Prod.mk.injEq, true_and] at hall
    obtain ⟨rfl, rfl⟩ := hall
    exact ⟨rfl, hproject, hnormal⟩

theorem fileSection_of_sameFile {s s' : Store} (h : Host) (hs : s.SameFile s') :
    fileSection h s' = fileSection h s := by
  unfold fileSection Store.readFile
  rw [hs.path]

/-- The settings of a command, read from the files, say what the file of the project says. -/
theorem says_of_loadFiles (hload : loadFiles h a = (.ok m, h')) :
    h' = h ∧ m.Says (fileConfig h m) := by
  obtain ⟨root, ide, m₀, hmake, hall⟩ := exists_of_loadFiles hload
  obtain ⟨rfl, hproject, hnormal⟩ := exists_of_loadAll hall
  refine ⟨rfl, ?_⟩
  obtain ⟨paths, -, rfl⟩ := Manager.exists_of_make hmake
  have hmeans := Settings.says_of_normalise hnormal
  rw [Manager.loaded, ofSection_load rfl rfl hproject] at hmeans
  obtain ⟨-, hm⟩ := Manager.normalise_eq hnormal
  have hsame : (Store.ofDefaults paths.projectFile Settings.defaultProject true).SameFile
      m.project := by
    rw [hm]
    exact (Store.sameFile_load _ h').trans ⟨rfl, rfl, rfl⟩
  rwa [fileConfig, fileSection_of_sameFile h' hsame]

/-! ## What wins -/

/-- What the command line says is blank or is the program, without the blanks around it. -/
theorem javaProgram_text (t : Text) :
    Settings.javaProgram (.str t)
      = if (Text.strip t).isEmpty then Text.ofString "java" else Text.strip t := by
  rcases t with _ | ⟨c, t⟩
  · decide
  · rfl

theorem jarPath_eq {t path : Text} (hjar : jarPath h t = .ok path) :
    ∃ expanded resolved, h.expandHome (Path.ofText t) = .ok expanded
      ∧ h.resolve expanded = .ok resolved ∧ path = resolved.text := by
  unfold jarPath at hjar
  split at hjar
  · cases hjar
  · rename_i expanded hexpanded
    split at hjar
    · cases hjar
    · rename_i resolved hresolved
      cases hjar
      exact ⟨expanded, resolved, hexpanded, hresolved, rfl⟩

theorem foldl_overridesOf (jar java : Option Text) (noAutoDetect : Bool) (config : Config) :
    (overridesOf jar java noAutoDetect).foldl Override.within config
      = ⟨(java.map fun t => Settings.javaProgram (.str t)).getD config.java,
        jar.getD config.jar, !noAutoDetect && config.autoDetect⟩ := by
  rcases jar <;> rcases java <;> rcases noAutoDetect <;> rfl

/-- Whatever the files hold, what the command line says of the toolchain wins: the jar by its
resolved path, the program without the blanks around it, and not to look for a jar. The rest is as
the file of the project has it, and the host stays as it is. -/
theorem overrides_win (hload : loadFiles h a = (.ok m, h'))
    (hover : applyOverrides h' a m = .ok m') :
    h' = h ∧ ∃ settings config, m'.toolchainSettings = .ok settings
      ∧ Config.ofSettings settings = config
      ∧ (∀ jar, given? a.jar = some jar → ∃ expanded resolved,
        h.expandHome (Path.ofText jar) = .ok expanded ∧ h.resolve expanded = .ok resolved
          ∧ config.jar = resolved.text)
      ∧ (given? a.jar = none → config.jar = (fileConfig h m).jar)
      ∧ (∀ java, given? a.java = some java → config.java
        = if (Text.strip java).isEmpty then Text.ofString "java" else Text.strip java)
      ∧ (given? a.java = none → config.java = (fileConfig h m).java)
      ∧ (a.noAutoDetect → config.autoDetect = false)
      ∧ (a.noAutoDetect = false → config.autoDetect = (fileConfig h m).autoDetect) := by
  obtain ⟨rfl, hmeans⟩ := says_of_loadFiles hload
  obtain ⟨path, hpath, hfold⟩ := exists_of_applyOverrides hover
  obtain ⟨settings, hsettings, hconfig⟩ := (says_overrides hmeans hfold).toolchainSettings
  rw [foldl_overridesOf] at hconfig
  refine ⟨rfl, settings, _, hsettings, hconfig, ?_, ?_, ?_, ?_, ?_, ?_⟩
  · intro jar hjar
    obtain ⟨text, rfl, htext⟩ : ∃ text, path = some text ∧ jarPath h' jar = .ok text := by
      rcases path with _ | text
      · simp [hjar] at hpath
      · exact ⟨text, rfl, by simpa [hjar] using hpath⟩
    exact jarPath_eq htext
  · intro hjar
    obtain rfl : path = none := by
      rcases path with _ | text
      · rfl
      · simp [hjar] at hpath
    rfl
  · intro java hjava
    rw [hjava]
    exact javaProgram_text java
  · intro hjava
    rw [hjava]
    rfl
  · intro hoff
    rw [hoff]
    rfl
  · intro hon
    rw [hon]
    rfl

/-- A project whose section on the toolchain has a number for its program, a truth value for its jar
and a word for whether to look for one. -/
def oddHost : Host :=
  ⟨⟨[(["w"], .folder), (["w", ".pydhr"], .folder), (["w", ".pydhr", "project.json"],
    .file (Utf8.encode
      "\x7b\"dhrlang\":\x7b\"java_path\":7,\"jar_path\":true,\"auto_detect_jar\":\"off\"\x7d\x7d")
      false)]⟩, [], "/root", [], [], none⟩

def jarArguments : Arguments := { project := some "/w", jar := some "~/a.jar" }

/-- The jar is that of the command line, the rest is as the file has it: the number is a program. -/
theorem oddHost_overridden : ∃ m m' settings,
    loadFiles oddHost jarArguments = (.ok m, oddHost)
    ∧ applyOverrides oddHost jarArguments m = .ok m'
    ∧ m'.toolchainSettings = .ok settings
    ∧ Config.ofSettings settings = ⟨"7", "/root/a.jar", false⟩ := by
  have hfile : (loadFiles oddHost jarArguments).1.toOption.map (fileConfig oddHost)
      = some ⟨"7", "True", false⟩ := by decide +kernel
  have hgoes : ((loadFiles oddHost jarArguments).1.bind
      (applyOverrides oddHost jarArguments)).isOk := by decide +kernel
  rcases hload : loadFiles oddHost jarArguments with ⟨failure | m, h'⟩
  · simp [hload, Except.toOption] at hfile
  obtain ⟨rfl, -⟩ := says_of_loadFiles hload
  rcases hover : applyOverrides oddHost jarArguments m with failure | m'
  · simp [hload, hover, Except.bind, Except.isOk, Except.toBool] at hgoes
  obtain ⟨-, settings, config, hsettings, hconfig, hjar, -, -, hjava, -, hauto⟩ :=
    overrides_win hload hover
  refine ⟨m, m', settings, rfl, hover, hsettings, ?_⟩
  replace hfile : fileConfig oddHost m = ⟨"7", "True", false⟩ := by
    simpa [hload, Except.toOption] using hfile
  obtain ⟨expanded, resolved, hexpanded, hresolved, hjar⟩ := hjar _ rfl
  obtain rfl : Path.ofText "/root/a.jar" = expanded := Except.ok.inj hexpanded
  obtain rfl : Path.ofText "/root/a.jar" = resolved := Except.ok.inj hresolved
  have hparts : config = ⟨config.java, config.jar, config.autoDetect⟩ := rfl
  rw [hconfig, hparts, hjar, hjava rfl, hauto rfl, hfile]
  rfl

end CommandLine

end DhrWorkbench
