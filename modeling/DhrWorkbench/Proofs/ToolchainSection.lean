import DhrWorkbench.Proofs.Blanks
import DhrWorkbench.Proofs.SettingsRuns
import DhrWorkbench.Toolchain

/-!
# The section on the toolchain

The project's section on the toolchain has a normal form: a program with no blanks around it, a
path as text and a truth value, with further fields as they were written. A key is put in it
exactly when its first part is the name of the section (`isUnder_iff`), so each operation that
completes leaves the section as it was or in normal form (`section_after`), and what is read off
it to find the toolchain is what stands in it (`toolchain_section_normal`).
-/

namespace DhrWorkbench

namespace Text

theorem head?_splitOn (c : CodePoint) : ∀ t : Text,
    (splitOn c t).head? = some (t.takeWhile (· ≠ c))
  | [] => rfl
  | a :: t => by
    have ih := head?_splitOn c t
    rw [splitOn]
    by_cases ha : a = c
    · simp [ha]
    · rw [if_neg ha, List.takeWhile_cons_of_pos (by simpa using ha)]
      cases hparts : splitOn c t with
      | nil => simp [hparts] at ih
      | cons part parts => simpa [hparts] using ih

end Text

namespace Settings

/-- A key is under a section if that is its first part. -/
theorem isUnder_iff {section_ key : Text} (h : CodePoint.ofChar '.' ∉ section_) :
    isUnder section_ key ↔ (Fields.parts key).head? = some section_ := by
  have hall : ∀ c ∈ section_, decide (c ≠ CodePoint.ofChar '.') := by
    intro c hc
    exact decide_eq_true fun heq => h (heq ▸ hc)
  have hdot : Text.ofString "." = [CodePoint.ofChar '.'] := rfl
  rw [Fields.parts, Text.head?_splitOn, Option.some_inj]
  unfold isUnder
  rw [Bool.or_eq_true, decide_eq_true_eq, List.isPrefixOf_iff_prefix, hdot]
  constructor
  · rintro (rfl | ⟨rest, rfl⟩)
    · exact List.takeWhile_eq_self_iff.2 hall
    · rw [List.append_assoc, List.takeWhile_append_of_pos hall]
      simp
  · intro htake
    have hsplit := List.takeWhile_append_dropWhile (p := (· ≠ CodePoint.ofChar '.')) (l := key)
    rw [htake] at hsplit
    cases hdrop : key.dropWhile (· ≠ CodePoint.ofChar '.') with
    | nil =>
      rw [hdrop, List.append_nil] at hsplit
      exact .inl hsplit.symm
    | cons c rest =>
      have hc := List.head?_dropWhile_not (· ≠ CodePoint.ofChar '.') key
      rw [hdrop] at hc
      obtain rfl : c = CodePoint.ofChar '.' := by simpa using hc
      refine .inr ⟨rest, ?_⟩
      rw [← hsplit, hdrop]
      simp

theorem Manager.targetScope_of_isUnder {key : Text} (h : isUnder "dhrlang" key) :
    targetScope key none = .project := by
  simp [targetScope, scopeOf?, Scope.sections, h]

/-! ## The normal form -/

/-- A section in normal form, with what it says. -/
structure IsNormal (fields : Fields) (config : Toolchain.Config) : Prop where
  java : Fields.get? "java_path" fields = some (.str config.java)
  jar : Fields.get? "jar_path" fields = some (.str config.jar)
  autoDetect : Fields.get? "auto_detect_jar" fields = some (.bool config.autoDetect)
  named : config.java ≠ []
  trim : config.java.IsTrim

theorem javaProgram_ne_nil (v : Value) : javaProgram v ≠ [] := by
  unfold javaProgram
  dsimp only
  split
  · decide
  · rename_i h
    simpa using h

theorem isTrim_javaProgram (v : Value) : (javaProgram v).IsTrim := by
  unfold javaProgram
  dsimp only
  split
  · refine ⟨?_, ?_⟩
    · rintro c ⟨⟩
      rfl
    · rintro c ⟨⟩
      rfl
  · exact Text.isTrim_strip _

theorem javaProgram_str {t : Text} (hne : t ≠ []) (ht : t.IsTrim) : javaProgram (.str t) = t := by
  have htext : (Value.str t).textOr "java" = t := by
    simp [Value.textOr, Value.truthy, Value.text, hne]
  unfold javaProgram
  simp [htext, Text.strip_eq_self ht, hne]

/-- What is read off a section in normal form is what it says. -/
theorem ofSettings_of_isNormal {fields : Fields} {config : Toolchain.Config}
    (h : IsNormal fields config) : Toolchain.Config.ofSettings (.object fields) = config := by
  have hjar : (Value.str config.jar).textOr "" = config.jar := by
    unfold Value.textOr Value.truthy Value.text
    cases config.jar <;> rfl
  simp only [Toolchain.Config.ofSettings, Fields.ofSection, h.java, h.jar, h.autoDetect,
    Option.getD_some, javaProgram_str h.named h.trim, hjar, Value.truthy]

theorem isNormal_normalSection (current : Option Value) :
    ∃ config, IsNormal (normalSection current) config := by
  unfold normalSection
  extract_lets fields field
  refine ⟨⟨javaProgram (field "java_path"), (field "jar_path").textOr "",
    isOn (field "auto_detect_jar")⟩, ?_, ?_, ?_, javaProgram_ne_nil _, isTrim_javaProgram _⟩
  · simp only [Fields.get?_insert]
    rfl
  · simp only [Fields.get?_insert]
    rfl
  · simp only [Fields.get?_insert]
    rfl

theorem height_normalSection_le {n : ℕ} (hn : 1 ≤ n) {current : Option Value}
    (h : ∀ v ∈ current, v.height ≤ n + 1) :
    (Value.object (normalSection current)).height ≤ n + 1 := by
  have hsection : (Value.object (Fields.ofSection current)).height ≤ n + 1 := by
    unfold Fields.ofSection
    split
    · exact h _ rfl
    · simp [Value.height, Value.heightOfFields]
  have hdefaults : (Value.object defaultToolchain).height ≤ n + 1 :=
    Nat.le_trans (by decide) (Nat.succ_le_succ hn)
  have hcomplete := Value.height_complete_le hsection hdefaults
  unfold normalSection
  exact Value.height_insert_le (Value.height_insert_le (Value.height_insert_le hcomplete hn) hn) hn

/-! ## Operations -/

def Scene.toolchain? (sc : Scene) : Option Value := Fields.get? "dhrlang" sc.manager.project.data

/-- The project's document as an operation leaves it before anything is put in normal form. -/
def Scene.draft (sc : Scene) : Operation → Fields
  | .loadAll _ => (sc.manager.project.load sc.host).2.data
  | .set key value asked => match sc.manager.write key value asked with
    | .ok (some written) => written.project.data
    | _ => sc.manager.project.data
  | _ => sc.manager.project.data

theorem get?_normalise (s : Store) : Fields.get? "dhrlang" s.normalise.data
    = some (.object (normalSection (Fields.get? "dhrlang" s.data))) := by
  unfold Store.normalise
  dsimp only
  split
  · simp
  · rw [Fields.get?_insert, if_neg (by decide), Fields.get?_insert, if_pos rfl]

/-- Writing a key of another section leaves the section. -/
theorem get?_assign {section_ key : Text} {value : Value} {fields fields' : Fields}
    (hdot : CodePoint.ofChar '.' ∉ section_) (hunder : isUnder section_ key = false)
    (h : Fields.assign fields key value = some fields') :
    Fields.get? section_ fields' = Fields.get? section_ fields := by
  have hparts : (Fields.parts key).head? ≠ some section_ := fun hhead => by
    simp [(isUnder_iff hdot).2 hhead] at hunder
  obtain ⟨-, rfl⟩ := Fields.eq_of_assign h
  unfold Fields.setPath
  split
  · rfl
  · rename_i last heq
    rw [Fields.get?_insert, if_neg fun hlast => hparts (by rw [heq, hlast]; rfl)]
  · rename_i part next rest heq
    rw [Fields.get?_insert, if_neg fun hpart => hparts (by rw [heq, hpart]; rfl)]

theorem get?_of_write {m written : Manager} {key : Text} {value : Value} {asked : Option Scope}
    (h : m.write key value asked = .ok (some written)) (hunder : isUnder "dhrlang" key = false) :
    Fields.get? "dhrlang" written.project.data = Fields.get? "dhrlang" m.project.data := by
  obtain ⟨s, hset, rfl⟩ := Manager.exists_of_write h
  cases htarget : Manager.targetScope key asked with
  | ide => rfl
  | project =>
    rw [htarget] at hset
    obtain ⟨data, hassign, rfl⟩ := Store.exists_of_written hset
    exact get?_assign (by decide) hunder hassign

theorem data_saveAll (m : Manager) (h : Host) (onlyDirty : Bool) (scope : Scope) :
    ((m.saveAll h onlyDirty).2.1.store scope).data = (m.store scope).data := by
  have hsteps := @steps_saveAll (fun c => ∃ saved, c = .save saved) (fun saved => ⟨saved, rfl⟩)
    onlyDirty m h
  refine hsteps.keeps (P := fun sc => (sc.store scope).data = (m.store scope).data)
    (fun hc hstep hdata => ?_) rfl
  obtain ⟨saved, rfl⟩ := hc
  cases hstep with
  | save barred hsave =>
    refine @Manager.store_withStore_elim (fun s => s.data = (m.store scope).data) _ _ _ _ ?_
      fun _ => hdata
    rintro rfl
    rw [← hdata]
    obtain ⟨-, -, rfl, -⟩ | ⟨-, -, rfl, -⟩ | ⟨-, -, rfl⟩ := Store.save_cases hsave
    all_goals rfl

/-- Loading all, when it completes, loads the project and puts it in normal form. -/
theorem data_loadAll {m : Manager} {h : Host} {writeBack : Bool}
    (hdone : (m.loadAll h writeBack).1 = .ok ()) :
    ((m.loaded h).currentToolchain.isTooDeep = false)
      ∧ (m.loadAll h writeBack).2.1.project.data = (m.project.load h).2.normalise.data := by
  unfold Manager.loadAll at hdone ⊢
  obtain ⟨failure, -, hload⟩ | ⟨-, failure, hload⟩ | ⟨-, -, m', hnormal, hload⟩ :=
    m.loadStores_cases h
  · simp [hload] at hdone
  · simp [hload] at hdone
  · obtain ⟨hdeep, rfl⟩ := Manager.normalise_eq hnormal
    refine ⟨hdeep, ?_⟩
    have hsaved := data_saveAll { m.loaded h with project := (m.loaded h).project.normalise } h true
      .project
    simp only [hload] at hdone ⊢
    split
    · split
      · rename_i heq
        rw [heq] at hsaved
        exact hsaved
      · rename_i heq
        rw [heq] at hsaved
        exact hsaved
    · rfl

theorem height_le_of_currentToolchain {m : Manager} (h : m.currentToolchain.isTooDeep = false) :
    ∀ v ∈ Fields.get? "dhrlang" m.project.data, v.height ≤ Value.heightLimit := by
  intro v hv
  rw [Manager.currentToolchain, hv] at h
  simpa [Value.isTooDeep] using h

/-- An operation that completes leaves the section as it was, or puts it in normal form. -/
theorem section_after {sc : Scene} {op : Operation} (hdone : (sc.act op).1 = .ok ()) :
    ((sc.after op).toolchain? = sc.toolchain? ∧ Fields.get? "dhrlang" (sc.draft op) = sc.toolchain?)
    ∨ ((sc.after op).toolchain?
        = some (.object (normalSection (Fields.get? "dhrlang" (sc.draft op))))
      ∧ ∀ v ∈ Fields.get? "dhrlang" (sc.draft op), v.height ≤ Value.heightLimit) := by
  cases op with
  | loadAll writeBack =>
    obtain ⟨hdeep, hdata⟩ := data_loadAll hdone
    refine .inr ⟨?_, height_le_of_currentToolchain hdeep⟩
    change Fields.get? "dhrlang" (sc.manager.loadAll sc.host writeBack).2.1.project.data = _
    rw [hdata, get?_normalise]
    rfl
  | saveAll onlyDirty =>
    refine .inl ⟨?_, rfl⟩
    exact congrArg (Fields.get? "dhrlang") (data_saveAll sc.manager sc.host onlyDirty .project)
  | set key value asked =>
    cases hset : sc.manager.set key value asked with
    | mk r m =>
      have hafter : sc.after (.set key value asked) = ⟨m, sc.host⟩ := by
        simp only [Scene.after, Scene.act, hset]
      simp only [hafter, Scene.toolchain?, Scene.draft]
      obtain ⟨rfl, hnot⟩ | ⟨written, hwrite, hcases⟩ := Manager.set_cases hset
      · refine .inl ⟨rfl, ?_⟩
        split
        · rename_i written hwrite
          exact absurd hwrite (hnot written)
        · rfl
      · simp only [hwrite]
        obtain ⟨hunder, rfl⟩ | ⟨-, ⟨failure, rfl⟩, -⟩ | ⟨-, hnormal⟩ := hcases
        · exact .inl ⟨get?_of_write hwrite hunder, get?_of_write hwrite hunder⟩
        -- A section that nests too deep is written, but then the operation does not complete.
        · simp [Scene.act, hset, Except.map] at hdone
        · obtain ⟨hdeep, rfl⟩ := Manager.normalise_eq hnormal
          exact .inr ⟨get?_normalise _, height_le_of_currentToolchain hdeep⟩
  | get key default => exact .inl ⟨rfl, rfl⟩
  | listen l =>
    refine .inl ⟨?_, rfl⟩
    change Fields.get? "dhrlang" (sc.manager.addListener l).project.data = _
    unfold Manager.addListener
    split <;> rfl
  | unlisten l => exact .inl ⟨rfl, rfl⟩
  | edit files => exact .inl ⟨rfl, rfl⟩

/-! ## Runs -/

/-- The section is in normal form and does not nest too deep to be copied. -/
def Scene.IsSettled (sc : Scene) : Prop :=
  ∃ fields config, sc.toolchain? = some (.object fields) ∧ IsNormal fields config
    ∧ (Value.object fields).height ≤ Value.heightLimit

theorem isSettled_after {sc : Scene} {op : Operation} (hs : sc.IsSettled)
    (hdone : (sc.act op).1 = .ok ()) : (sc.after op).IsSettled := by
  obtain ⟨hsame, -⟩ | ⟨hnormal, hheight⟩ := section_after hdone
  · obtain ⟨fields, config, hfields, hrest⟩ := hs
    exact ⟨fields, config, hsame.trans hfields, hrest⟩
  · obtain ⟨config, hconfig⟩ := isNormal_normalSection (Fields.get? "dhrlang" (sc.draft op))
    exact ⟨_, config, hnormal, hconfig, height_normalSection_le (by decide) hheight⟩

theorem isSettled_run : ∀ {ops : List Operation} {sc : Scene}, sc.IsSettled →
    sc.Always (fun sc op => (sc.act op).1 = .ok ()) ops → (sc.run ops).IsSettled
  | [], _, hs, _ => hs
  | op :: rest, sc, hs, ⟨hop, hrest⟩ =>
    @isSettled_run rest (sc.after op) (isSettled_after hs hop) hrest

theorem isSettled_of_make {h : Host} {projectRoot ideFolder projectName ideName : Text}
    {persistent : Bool} {m : Manager}
    (hmake : Manager.make h projectRoot ideFolder projectName ideName persistent = .ok m) :
    (Scene.mk m h).IsSettled ∧ m.project.defaults = defaultProject := by
  obtain ⟨paths, -, rfl⟩ := Manager.exists_of_make hmake
  have htrim : Text.IsTrim "java" := ⟨by rintro c ⟨⟩; rfl, by rintro c ⟨⟩; rfl⟩
  have hnormal : IsNormal defaultToolchain ⟨"java", "", true⟩ :=
    ⟨rfl, rfl, rfl, by decide, htrim⟩
  exact ⟨⟨_, _, rfl, hnormal, by decide⟩, rfl⟩

/-- A section in normal form is handed out as it stands. -/
theorem toolchainSettings_eq {m : Manager} {fields : Fields} {config : Toolchain.Config}
    (hfields : Fields.get? "dhrlang" m.project.data = some (.object fields))
    (hnormal : IsNormal fields config)
    (hheight : (Value.object fields).height ≤ Value.heightLimit) :
    m.toolchainSettings = .ok (.object fields) := by
  have hparts : Fields.parts "dhrlang" = ["dhrlang"] := by decide
  have hget : m.project.get "dhrlang" (.object []) = .object fields := by
    rw [Store.get, Fields.lookup, if_neg (by decide), hparts]
    simp [Fields.follow, hfields]
  have hfull : fields.isEmpty = false := by
    cases fields with
    | nil => cases hnormal.java
    | cons f rest => rfl
  have hshallow : (Value.object fields).isTooDeep = false := by
    simpa [Value.isTooDeep] using hheight
  simp only [Manager.toolchainSettings, hget, Manager.orEmpty, Value.truthy, hfull, Bool.not_false,
    if_true, Manager.copied, hshallow, Bool.false_eq_true, if_false]

end Settings

end DhrWorkbench
