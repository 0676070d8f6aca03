import DhrWorkbench.Proofs.Files
import DhrWorkbench.Proofs.JsonText
import DhrWorkbench.Settings.Store

/-!
# Saving and loading a store

What saving a store does to its file and to other files, and what loading it can come to. A
document that was saved and does not nest deeper than documents may is loaded again as the saved
one completed from the defaults, up to the order of fields. One that nests deeper is still saved,
and then cannot be loaded (`load_of_isWritten`).
-/

namespace DhrWorkbench

namespace Settings

namespace Store

open Host (Grows Touches)

/-! ## Saving -/

/-- The store's file holds its document. -/
structure IsWritten (s : Store) (h : Host) : Prop where
  height : (Value.object s.data).height ≤ Json.depthLimit
  short : (Value.object s.data).hasLongInteger = false
  encodable : Utf8.Encodable s.fileText
  stat : ∃ executable, h.stat s.path.text = .ok (.file (Utf8.encode s.fileText) executable)

/-- What writing the file can come to: the folders are made, and then the text is written or
nothing is done. -/
theorem writeFile_cases {s : Store} {h h' : Host} {r : Except Failure Unit}
    (hw : s.writeFile h = (r, h')) :
    ∃ made, Grows h made ∧ (((∃ failure, r = .error failure) ∧ h' = made)
      ∨ (h.ensureFolders s.path.anchor s.path.parent.parts.reverse = (.ok (), made)
        ∧ (Value.object s.data).height ≤ Json.depthLimit
        ∧ (Value.object s.data).hasLongInteger = false
        ∧ ∃ r', made.writeText s.path.text s.fileText = (r', h')
          ∧ (r' = .ok () ↔ r = .ok ()))) := by
  have hgrows := Host.grows_ensureFolders h s.path.anchor s.path.parent.parts.reverse
  unfold writeFile at hw
  split at hw
  · rename_i fault made hfolders
    rw [hfolders] at hgrows
    cases hw
    exact ⟨_, hgrows, .inl ⟨⟨_, rfl⟩, rfl⟩⟩
  · rename_i made hfolders
    rw [hfolders] at hgrows
    refine ⟨made, hgrows, ?_⟩
    by_cases hdeep : s.isUnwritable
    · rw [if_pos hdeep] at hw
      cases hw
      exact .inl ⟨⟨_, rfl⟩, rfl⟩
    · by_cases hlong : (Value.object s.data).hasLongInteger
      · rw [if_neg hdeep, if_pos hlong] at hw
        cases hw
        exact .inl ⟨⟨_, rfl⟩, rfl⟩
      · rw [if_neg hdeep, if_neg hlong] at hw
        have hheight : (Value.object s.data).height ≤ Json.depthLimit := by
          simpa [isUnwritable] using hdeep
        refine .inr ⟨hfolders, hheight, by simpa using hlong, ?_⟩
        split at hw
        · rename_i done hwritten
          cases hw
          exact ⟨_, hwritten, by simp⟩
        · rename_i fault done hwritten
          cases hw
          exact ⟨_, hwritten, by simp⟩

/-- What saving can come to. -/
theorem save_cases {s s' : Store} {h h' : Host} {r : Except Failure Unit}
    (hs : s.save h = (r, s', h')) :
    (s.persistent = false ∧ r = .ok () ∧ s' = { s with dirty := false } ∧ h' = h)
    ∨ (s.persistent ∧ r = .ok () ∧ s' = { s with dirty := false, lastError := none }
      ∧ s.IsWritten h')
    ∨ (s.persistent ∧ (∃ failure, r = .error failure) ∧ s' = s) := by
  unfold save at hs
  by_cases hp : s.persistent
  · rw [if_neg (by simp [hp])] at hs
    right
    split at hs
    · rename_i done hwrite
      cases hs
      left
      refine ⟨hp, rfl, rfl, ?_⟩
      obtain ⟨made, -, ⟨⟨failure, hr⟩, -⟩ | ⟨-, hheight, hshort, r', htext, hiff⟩⟩ :=
        writeFile_cases hwrite
      · cases hr
      · obtain rfl := hiff.2 rfl
        obtain ⟨henc, hstat⟩ := Host.stat_of_writeText htext
        exact ⟨hheight, hshort, henc, hstat⟩
    · cases hs
      exact .inr ⟨hp, ⟨_, rfl⟩, rfl⟩
  · have hp' : s.persistent = false := by simpa using hp
    rw [if_pos (by simp [hp'])] at hs
    cases hs
    exact .inl ⟨hp', rfl, rfl, rfl⟩

theorem touches_writeFile {s : Store} {h h' : Host} {r : Except Failure Unit}
    (hw : s.writeFile h = (r, h')) : Touches s.path.text h h' := by
  obtain ⟨made, hgrows, ⟨-, rfl⟩ | ⟨-, -, -, r', htext, -⟩⟩ := writeFile_cases hw
  · exact hgrows.touches _
  · exact (hgrows.touches _).trans (Host.touches_writeText htext)

theorem touches_save {s s' : Store} {h h' : Host} {r : Except Failure Unit}
    (hs : s.save h = (r, s', h')) : Touches s.path.text h h' := by
  unfold save at hs
  split at hs
  · cases hs
    exact .refl _ h
  · split at hs
    · rename_i done hwrite
      cases hs
      exact touches_writeFile hwrite
    · rename_i failure done hwrite
      cases hs
      exact touches_writeFile hwrite

/-- Where a document with a UTF-8 form is not saved, no file was written to. -/
theorem grows_of_not_saved {s s' : Store} {h h' : Host} {failure : Failure}
    (hs : s.save h = (.error failure, s', h')) (henc : Utf8.Encodable s.fileText) : Grows h h' := by
  unfold save at hs
  split at hs
  · cases hs
  · split at hs
    · cases hs
    · rename_i failure done hwrite
      cases hs
      obtain ⟨made, hgrows, ⟨-, rfl⟩ | ⟨-, -, -, r', htext, hiff⟩⟩ := writeFile_cases hwrite
      · exact hgrows
      · obtain ⟨-, rfl⟩ | ⟨_, _, _, _, -, -, -, -, -, -, ⟨rfl, -⟩ | ⟨hnot, -⟩⟩ :=
          Host.writeText_cases htext
        · exact hgrows
        · cases hiff.1 rfl
        · exact absurd henc hnot

/-! ## Loading -/

/-- What reading the file can come to, when it reads a document. -/
theorem readFile_ok {s : Store} {h : Host} {fields : Fields}
    (hr : s.readFile h = .ok (.ok fields)) :
    ∃ bytes, h.readBytes s.path.text = .ok bytes ∧ Json.readBytes bytes = .ok (.object fields)
      ∧ (Value.object fields).height ≤ Value.heightLimit := by
  unfold readFile at hr
  split at hr
  · cases hr
  · rename_i bytes hbytes
    split at hr
    · cases hr
    · cases hr
    · rename_i document hdocument
      split at hr
      · cases hr
      · rename_i hdeep
        cases hr
        exact ⟨bytes, hbytes, hdocument, by simpa [Value.isTooDeep] using hdeep⟩
    · cases hr

theorem readFile_of_document {s : Store} {h : Host} {bytes : List Byte} {fields : Fields}
    (hbytes : h.readBytes s.path.text = .ok bytes)
    (hdocument : Json.readBytes bytes = .ok (.object fields)) :
    s.readFile h = if Value.heightLimit < (Value.object fields).height then .error .tooDeep
      else .ok (.ok fields) := by
  simp only [readFile, hbytes, hdocument, Value.isTooDeep, decide_eq_true_eq]

theorem exists_of_stat {h : Host} {t : Text} {node : Node} (hs : h.stat t = .ok node) :
    h.exists t = .ok true := by
  simp only [Host.exists, Host.holds, hs]

theorem readBytes_of_stat {h : Host} {t : Text} {bytes : List Byte} {executable : Bool}
    (hs : h.stat t = .ok (.file bytes executable)) : h.readBytes t = .ok bytes := by
  simp only [Host.readBytes, hs]

theorem load_of_failure {s : Store} {h : Host} {failure : Failure} (hp : s.persistent)
    (hexists : h.exists s.path.text = .ok true) (hread : s.readFile h = .error failure) :
    s.load h = (.error failure, { s with lastError := none }) := by
  unfold load
  rw [if_neg (by simp [hp]), hexists]
  simp only [hread]

theorem load_of_readFile {s : Store} {h : Host} {fields : Fields} (hp : s.persistent)
    (hexists : h.exists s.path.text = .ok true) (hread : s.readFile h = .ok (.ok fields)) :
    s.load h = (.ok (), { s with
      data := Fields.complete fields s.defaults, dirty := false, lastError := none }) := by
  unfold load
  rw [if_neg (by simp [hp]), hexists]
  simp only [hread]

/-- What loading can come to. -/
theorem load_cases {s s' : Store} {h : Host} {r : Except Failure Unit}
    (hl : s.load h = (r, s')) :
    (r = .ok () ∧ s' = s.reset ∧ (s.persistent = false ∨ h.exists s.path.text = .ok false))
    ∨ (s.persistent ∧ (∃ failure, r = .error failure) ∧ s' = { s with lastError := none }
      ∧ (h.exists s.path.text = .ok true → ∃ failure, s.readFile h = .error failure))
    ∨ (s.persistent ∧ r = .ok () ∧ h.exists s.path.text = .ok true ∧ ∃ reason,
      s.readFile h = .ok (.error reason)
        ∧ s' = { s.reset with dirty := false, lastError := some reason })
    ∨ (s.persistent ∧ r = .ok () ∧ h.exists s.path.text = .ok true ∧ ∃ fields,
      s.readFile h = .ok (.ok fields) ∧ s' = { s with
        data := Fields.complete fields s.defaults, dirty := false, lastError := none }) := by
  unfold load at hl
  by_cases hp : s.persistent
  · rw [if_neg (by simp [hp])] at hl
    split at hl
    · rename_i fault hexists
      cases hl
      refine .inr (.inl ⟨hp, ⟨_, rfl⟩, rfl, fun htrue => ?_⟩)
      rw [hexists] at htrue
      cases htrue
    · rename_i hexists
      cases hl
      exact .inl ⟨rfl, rfl, .inr hexists⟩
    · rename_i hexists
      split at hl
      · rename_i failure hread
        cases hl
        exact .inr (.inl ⟨hp, ⟨_, rfl⟩, rfl, fun _ => ⟨_, hread⟩⟩)
      · rename_i reason hread
        cases hl
        exact .inr (.inr (.inl ⟨hp, rfl, hexists, reason, hread, rfl⟩))
      · rename_i fields hread
        cases hl
        exact .inr (.inr (.inr ⟨hp, rfl, hexists, fields, hread, rfl⟩))
  · have hp' : s.persistent = false := by simpa using hp
    rw [if_pos (by simp [hp'])] at hl
    cases hl
    exact .inl ⟨rfl, rfl, .inl hp'⟩

/-! ## Saving and loading -/

/-- What is read from the file of a saved store. -/
theorem IsWritten.readBytes {s : Store} {h : Host} (hw : s.IsWritten h)
    (hs : (Value.object s.data).isProper) :
    ∃ bytes, h.readBytes s.path.text = .ok bytes
      ∧ Json.readBytes bytes = .ok (Value.object s.data).arranged := by
  obtain ⟨executable, hstat⟩ := hw.stat
  exact ⟨_, readBytes_of_stat hstat, Json.readBytes_encode hs hw.short hw.height hw.encodable⟩

theorem isWritten_of_save {s s' : Store} {h h' : Host} (hp : s.persistent)
    (hs : s.save h = (.ok (), s', h')) : s.IsWritten h' := by
  obtain ⟨hnot, -⟩ | ⟨-, -, -, hw⟩ | ⟨-, ⟨failure, hr⟩, -⟩ := save_cases hs
  · rw [hp] at hnot
    cases hnot
  · exact hw
  · cases hr

/-- What loading comes to after a store of the same path was saved. -/
theorem load_of_isWritten {s t : Store} {h : Host} (hw : s.IsWritten h)
    (hs : (Value.object s.data).isProper) (hpath : t.path = s.path) (ht : t.persistent) :
    ∃ fields, Value.object fields = (Value.object s.data).arranged
      ∧ t.load h = if Value.heightLimit < (Value.object s.data).height then
          (.error .tooDeep, { t with lastError := none })
        else (.ok (), { t with
          data := Fields.complete fields t.defaults, dirty := false, lastError := none }) := by
  obtain ⟨bytes, hbytes, hdocument⟩ := hw.readBytes hs
  obtain ⟨executable, hstat⟩ := hw.stat
  have hheight := Value.height_arranged (.object s.data)
  rw [← hpath] at hbytes hstat
  rw [Value.arranged_object] at hdocument hheight
  have hread := readFile_of_document hbytes hdocument
  refine ⟨_, (Value.arranged_object s.data).symm, ?_⟩
  rw [hheight] at hread
  by_cases hdeep : Value.heightLimit < (Value.object s.data).height
  · rw [if_pos hdeep] at hread ⊢
    exact load_of_failure ht (exists_of_stat hstat) hread
  · rw [if_neg hdeep] at hread ⊢
    exact load_of_readFile ht (exists_of_stat hstat) hread

/-- A saved document is loaded as the saved one completed from the defaults, up to the order of
fields, and each value in it that is no object is found again where it was. -/
theorem load_of_save {s s' t : Store} {h h' : Host} (hpersistent : s.persistent)
    (hdata : (Value.object s.data).isProper) (hdefaults : (Value.object s.defaults).isProper)
    (hheight : (Value.object s.data).height ≤ Value.heightLimit)
    (hsave : s.save h = (.ok (), s', h')) (hpath : t.path = s.path)
    (hsame : t.defaults = s.defaults) (ht : t.persistent) :
    ∃ t', t.load h' = (.ok (), t') ∧ t'.lastError = none ∧ t'.dirty = false
      ∧ (Value.object t'.data).arranged
        = (Value.object (Fields.complete s.data s.defaults)).arranged
      ∧ ∀ path v, Fields.follow path (.object s.data) = some v → (∀ fs, v ≠ .object fs) →
        (Fields.follow path (.object t'.data)).map Value.arranged = some v.arranged := by
  obtain ⟨fields, hfields, hload⟩ :=
    load_of_isWritten (isWritten_of_save hpersistent hsave) hdata hpath ht
  have hid : ∀ v : Value, v.isName → (id v).isName := fun v hv => hv
  have hproper : (Value.object fields).isProper := by
    rw [hfields]
    exact Value.isFormed_arranged _ hdata
  have hform : Value.form id (.object fields) = Value.form id (.object s.data) := by
    rw [hfields]
    exact Value.form_arranged _ hdata
  have hcomplete := Value.form_complete hid hdefaults hproper hdata hform
  rw [if_neg (Nat.not_lt.2 hheight), hsame] at hload
  refine ⟨_, hload, rfl, rfl, hcomplete, fun path v hv hobject => ?_⟩
  have hkept := Fields.follow_complete hobject hdefaults hv
  have hfollow := @Value.form_follow id hid path _ _ (Value.isFormed_complete hdefaults hproper)
    (Value.isFormed_complete hdefaults hdata) hcomplete
  rw [hkept] at hfollow
  exact hfollow

/-- A document is saved where its path can be written to. -/
theorem exists_save {s : Store} {h made opened : Host} {l : Location} (hp : s.persistent)
    (hfolders : h.ensureFolders s.path.anchor s.path.parent.parts.reverse = (.ok (), made))
    (hopen : made.openForWriting s.path.text = .ok (l, opened))
    (hheight : (Value.object s.data).height ≤ Json.depthLimit)
    (hshort : (Value.object s.data).hasLongInteger = false)
    (hclear : Json.isClear (.object s.data)) :
    ∃ s' h', s.save h = (.ok (), s', h') := by
  have henc := Utf8.unencodable?_eq_none_iff.2 (Json.encodable_write 0 hclear)
  have hwritable : s.isUnwritable = false := by simpa [isUnwritable] using hheight
  have htext : ∃ h', made.writeText s.path.text s.fileText = (.ok (), h') := by
    unfold Host.writeText fileText
    simp only [hopen, henc]
    exact ⟨_, rfl⟩
  obtain ⟨h', htext⟩ := htext
  refine ⟨{ s with dirty := false, lastError := none }, h', ?_⟩
  unfold save writeFile
  simp [hp, hfolders, hwritable, hshort, htext]

/-! ## Two stores in an empty file system -/

/-- A host without files. -/
def bareHost : Host := ⟨⟨[]⟩, [], "/root", [], [], none⟩

/-- A store in the root folder. -/
def rootStore (data defaults : Fields) : Store :=
  ⟨⟨.root, ["s.json"]⟩, defaults, data, true, none, true⟩

theorem exists_save_rootStore {data : Fields} (defaults : Fields)
    (hheight : (Value.object data).height ≤ Json.depthLimit)
    (hshort : (Value.object data).hasLongInteger = false) (hclear : Json.isClear (.object data)) :
    ∃ s' h', (rootStore data defaults).save bareHost = (.ok (), s', h') := by
  have hfolders : bareHost.ensureFolders .root [] = (.ok (), bareHost) := rfl
  have hopen : bareHost.openForWriting (Text.ofString "/s.json") = .ok ([Text.ofString "s.json"],
      bareHost.withFiles (bareHost.files.put [Text.ofString "s.json"] (.file [] false))) := rfl
  exact exists_save rfl hfolders hopen hheight hshort hclear

/-- A document with values of every kind, among them numbers and texts that are hard to write. -/
def sampleData : Fields := [
  ("z", .list [.float .nan, .float (.infinite true), .float (.zero true), .int (-10 ^ 30),
    .float ((Decimal.mk 1 (-1)).toBinary64 false), .object [("b", .null), ("a", .bool true)]]),
  ("a", .object [("quote \" and \\", .str "\t\x01 é 😀"), ("", .object [])])]

def sampleDefaults : Fields := [
  ("a", .object [("", .object [("k", .int 1)]), ("w", .str "more")]), ("n", .list [])]

/-- The sample is saved and loaded again, completed from defaults that add to its inner objects. -/
theorem sample_loaded : ∃ s' h' t',
    (rootStore sampleData sampleDefaults).save bareHost = (.ok (), s', h')
    ∧ (rootStore [] sampleDefaults).load h' = (.ok (), t') ∧ t'.lastError = none ∧ t'.dirty = false
    ∧ (Value.object t'.data).arranged
      = (Value.object (Fields.complete sampleData sampleDefaults)).arranged := by
  obtain ⟨s', h', hsave⟩ :=
    @exists_save_rootStore sampleData sampleDefaults (by decide) (by decide) (by decide)
  obtain ⟨t', hload, hlast, hdirty, harranged, -⟩ := load_of_save (t := rootStore [] sampleDefaults)
    rfl (by decide) (by decide) (by decide) hsave rfl rfl rfl
  exact ⟨s', h', t', hsave, hload, hlast, hdirty, harranged⟩

/-- Objects within one another. -/
def nested : ℕ → Value
  | 0 => .null
  | n + 1 => .object [("a", nested n)]

theorem height_nested : ∀ n, (nested n).height = n + 1
  | 0 => rfl
  | n + 1 => by simp [nested, Value.height, Value.heightOfFields, height_nested n]

theorem isClear_nested : ∀ n, Json.isClear (nested n)
  | 0 => rfl
  | n + 1 => by
    refine Value.isFormed_object.2 ⟨by simp [Fields.keys], ?_, ?_⟩
    · exact List.forall_mem_singleton.2 rfl
    · exact List.forall_mem_singleton.2 (isClear_nested n)

theorem hasLongInteger_nested : ∀ n, (nested n).hasLongInteger = false
  | 0 => rfl
  | n + 1 => by
    simp [nested, Value.hasLongInteger, Value.hasLongIntegerAmong, hasLongInteger_nested n]

/-- A document of 600 objects within one another is saved, and the saved file cannot be loaded. -/
theorem deep_document_not_loaded : (rootStore [("a", nested 600)] []).persistent
    ∧ Json.isClear (.object [("a", nested 600)])
    ∧ (Value.object [("a", nested 600)]).hasLongInteger = false
    ∧ ∃ s' h', (rootStore [("a", nested 600)] []).save bareHost = (.ok (), s', h')
      ∧ (rootStore [("a", nested 600)] []).load h'
        = (.error .tooDeep, rootStore [("a", nested 600)] []) := by
  have hdocument : Value.object [(Text.ofString "a", nested 600)] = nested 601 := rfl
  have hclear : Json.isClear (.object [("a", nested 600)]) := by
    rw [hdocument]
    exact isClear_nested 601
  have hshort : (Value.object [("a", nested 600)]).hasLongInteger = false := by
    rw [hdocument, hasLongInteger_nested]
  have hheight : (Value.object [("a", nested 600)]).height = 602 := by
    rw [hdocument, height_nested]
  obtain ⟨s', h', hsave⟩ := exists_save_rootStore [] (by rw [hheight]; decide) hshort hclear
  obtain ⟨fields, -, hload⟩ := load_of_isWritten (t := rootStore [("a", nested 600)] [])
    (isWritten_of_save rfl hsave) (Json.isProper_of_isClear hclear) rfl rfl
  refine ⟨rfl, hclear, hshort, s', h', hsave, ?_⟩
  rw [hload, if_pos]
  · rfl
  · change Value.heightLimit < (Value.object [("a", nested 600)]).height
    rw [hheight]
    decide

end Store

end Settings

end DhrWorkbench
