import DhrWorkbench.Proofs.SavedSettings

/-!
# Saves that fail

A failed save leaves the store as it is, but its file only under conditions. Up to the point where
the file is opened nothing happens but that folders are made, and the file is what it was
(`grows_of_not_opensFile`). Opening it empties it, and a document with a surrogate is refused only
after that, since its text has no UTF-8 form (`save_of_not_isClear`). So a file is lost exactly
where such a document comes that far (`failed_save_keeps_file_iff`).
-/

namespace DhrWorkbench

namespace Host

/-! ## The file at a path -/

/-- The location that a path leads to, whatever stands there and on the way. -/
def destination (h : Host) (t : Text) : Location :=
  FileSystem.lead (h.startOf t) (Text.splitOn '/' t)

/-- The file at a path, if there is one. -/
def fileAt? (h : Host) (t : Text) : Option Node :=
  (h.files.get? (h.destination t)).filter fun node => !node.isFolder

theorem destination_of_locate {h : Host} {t : Text} {spot : Spot} (hl : h.locate t = .ok spot) :
    h.destination t = spot.location :=
  (FileSystem.location_of_walk (walk_of_locate hl)).symm

theorem destination_congr {h h' : Host} (hcwd : h'.cwd = h.cwd) (t : Text) :
    h'.destination t = h.destination t := by
  rw [destination, destination, startOf_congr hcwd]

theorem Grows.fileAt?_eq {h h' : Host} (hg : Grows h h') (t : Text) :
    h'.fileAt? t = h.fileAt? t := by
  unfold fileAt?
  rw [destination_congr hg.cwd]
  obtain hsame | ⟨hnone, hfolder⟩ := hg.keeps (h.destination t)
  · rw [hsame]
  · rw [hnone, hfolder]
    rfl

/-- A file that is opened for writing is emptied; all else is as it was. -/
structure Emptied (t : Text) (h h' : Host) : Prop where
  file : ∃ executable, h'.fileAt? t = some (.file [] executable)
    ∧ ∀ bytes was, h.fileAt? t = some (.file bytes was) → was = executable
  others : ∀ l, l ≠ h.destination t → KeepsAt l h h'

theorem Grows.emptied {h made h' : Host} {t : Text} (hg : Grows h made) (he : Emptied t made h') :
    Emptied t h h' := by
  obtain ⟨hfile, hothers⟩ := he
  rw [hg.fileAt?_eq] at hfile
  rw [destination_congr hg.cwd] at hothers
  exact ⟨hfile, fun l hl => (hg.keeps l).trans (hothers l hl)⟩

theorem emptied_of_openForWriting {h opened : Host} {t : Text} {l : Location}
    (ho : h.openForWriting t = .ok (l, opened)) : Emptied t h opened := by
  obtain ⟨spot, executable, hlocate, rfl, hne, hfile, hsame, rfl⟩ := openForWriting_cases ho
  have hget := @get?_opened h _ hne (.file [] executable)
  rw [← destination_of_locate hlocate] at hget hsame ⊢
  refine ⟨⟨executable, ?_, fun bytes was hwas => ?_⟩, fun j hj => .inl ?_⟩
  · have hdest : (h.withFiles (h.files.put (h.destination t) (.file [] executable))).destination t
        = h.destination t := destination_congr rfl t
    rw [fileAt?, hdest, hget, if_pos rfl]
    rfl
  · exact hsame bytes was (Option.filter_eq_some_iff.1 hwas).1
  · rw [hget, if_neg hj]

end Host

namespace Settings

namespace Store

open Host (Grows KeepsAt Emptied)

/-- Saving comes to the point where the file is opened. -/
structure OpensFile (s : Store) (h : Host) : Prop where
  height : (Value.object s.data).height ≤ Json.depthLimit
  short : (Value.object s.data).hasLongInteger = false
  opened : ∃ made l opened,
    h.ensureFolders s.path.anchor s.path.parent.parts.reverse = (.ok (), made)
      ∧ made.openForWriting s.path.text = .ok (l, opened)

theorem grows_of_not_opensFile {s s' : Store} {h h' : Host} {failure : Failure}
    (hs : s.save h = (.error failure, s', h')) (hnot : ¬ s.OpensFile h) : Grows h h' := by
  unfold save at hs
  split at hs
  · cases hs
  · split at hs
    · cases hs
    · rename_i failure done hwrite
      cases hs
      obtain ⟨made, hgrows, ⟨-, rfl⟩ | ⟨hfolders, hheight, hshort, r, htext, -⟩⟩ :=
        writeFile_cases hwrite
      · exact hgrows
      · unfold Host.writeText at htext
        split at htext
        · cases htext
          exact hgrows
        · rename_i l opened hopen
          exact absurd ⟨hheight, hshort, made, l, opened, hfolders, hopen⟩ hnot

/-- A document with a surrogate is refused when its file is empty already. -/
theorem save_of_not_isClear {s : Store} {h : Host} (hp : s.persistent)
    (hdata : (Value.object s.data).isProper) (hopens : s.OpensFile h)
    (hnot : ¬ Json.isClear (.object s.data)) :
    ∃ fault h', s.save h = (.error (.path (.unencodable fault)), s, h')
      ∧ Emptied s.path.text h h' := by
  obtain ⟨hheight, hshort, made, l, opened, hfolders, hopen⟩ := hopens
  have hwritable : s.isUnwritable = false := by simpa [isUnwritable] using hheight
  obtain ⟨fault, hfault⟩ : ∃ fault, Utf8.unencodable? (fun _ => false) s.fileText = some fault := by
    refine Option.ne_none_iff_exists'.1 fun hnone => hnot ?_
    exact (Json.encodable_write_iff 0 hdata).1 (Utf8.unencodable?_eq_none_iff.1 hnone)
  have htext : made.writeText s.path.text s.fileText = (.error (.unencodable fault), opened) := by
    simp only [Host.writeText, hopen, hfault]
  have hgrows := Host.grows_ensureFolders h s.path.anchor s.path.parent.parts.reverse
  rw [hfolders] at hgrows
  refine ⟨fault, opened, ?_, hgrows.emptied (Host.emptied_of_openForWriting hopen)⟩
  simp only [save, hp, writeFile, hfolders, hwritable, hshort, htext]
  rfl

/-- What a failed save has done: it made folders, or it emptied the file of a document that has a
surrogate. -/
theorem failed_save_cases {s s' : Store} {h h' : Host} {failure : Failure} (hp : s.persistent)
    (hdata : (Value.object s.data).isProper) (hs : s.save h = (.error failure, s', h')) :
    Grows h h' ∨ (s.OpensFile h ∧ ¬ Json.isClear (.object s.data) ∧ Emptied s.path.text h h') := by
  by_cases hopens : s.OpensFile h
  · by_cases hclear : Json.isClear (.object s.data)
    · exact .inl (grows_of_not_saved hs (Json.encodable_write 0 hclear))
    · obtain ⟨_, _, hs', hemptied⟩ := save_of_not_isClear hp hdata hopens hclear
      rw [hs] at hs'
      cases hs'
      exact .inr ⟨hopens, hclear, hemptied⟩
  · exact .inl (grows_of_not_opensFile hs hopens)

/-- A failed save leaves the store as it is, and everything but the file. It leaves the file as it
is where it does not come to open it, where no text of the document has a surrogate, and where
there is nothing in the file to lose; in all other cases it fails and empties the file. -/
theorem failed_save_keeps_file_iff {s : Store} {h : Host} (hpersistent : s.persistent)
    (hdata : (Value.object s.data).isProper) :
    (∀ failure s' h', s.save h = (.error failure, s', h') →
      s' = s
      ∧ (h'.fileAt? s.path.text = h.fileAt? s.path.text
        ∨ ∃ executable, h'.fileAt? s.path.text = some (.file [] executable))
      ∧ ∀ l, l ≠ h.destination s.path.text → KeepsAt l h h')
    ∧ ((∀ failure s' h', s.save h = (.error failure, s', h') →
        h'.fileAt? s.path.text = h.fileAt? s.path.text)
      ↔ ¬ s.OpensFile h ∨ Json.isClear (.object s.data)
        ∨ ∃ executable, h.fileAt? s.path.text = some (.file [] executable)) := by
  refine ⟨fun failure s' h' hs => ⟨?_, ?_⟩, fun hkept => ?_, fun hsafe failure s' h' hs => ?_⟩
  · obtain ⟨-, hr, -⟩ | ⟨-, hr, -⟩ | ⟨-, -, rfl⟩ := save_cases hs
    · cases hr
    · cases hr
    · rfl
  · obtain hgrows | ⟨-, -, hemptied⟩ := failed_save_cases hpersistent hdata hs
    · exact ⟨.inl (hgrows.fileAt?_eq _), fun l _ => hgrows.keeps l⟩
    · obtain ⟨executable, hfile, -⟩ := hemptied.file
      exact ⟨.inr ⟨executable, hfile⟩, hemptied.others⟩
  · by_contra hnot
    obtain ⟨hopens, hclear, hfull⟩ : s.OpensFile h ∧ ¬ Json.isClear (.object s.data)
        ∧ ¬ ∃ executable, h.fileAt? s.path.text = some (.file [] executable) := by
      simpa only [not_or, not_not] using hnot
    obtain ⟨_, h', hs, hemptied⟩ := save_of_not_isClear hpersistent hdata hopens hclear
    obtain ⟨executable, hfile, -⟩ := hemptied.file
    rw [hkept _ s h' hs] at hfile
    exact hfull ⟨executable, hfile⟩
  · obtain hgrows | ⟨hopens, hclear, hemptied⟩ := failed_save_cases hpersistent hdata hs
    · exact hgrows.fileAt?_eq _
    · obtain hnot | hclear' | ⟨was, hempty⟩ := hsafe
      · exact absurd hopens hnot
      · exact absurd hclear' hclear
      · obtain ⟨executable, hfile, hsame⟩ := hemptied.file
        rw [hfile, hempty, hsame [] was hempty]

/-! ## A settings file with a document -/

/-- A host whose root folder holds a settings file. -/
def filledHost : Host :=
  bareHost.withFiles ⟨[([Text.ofString "s.json"], .file (Utf8.encode "\x7b\x7d") false)]⟩

theorem fileAt?_filledHost : filledHost.fileAt? (Text.ofString "/s.json")
    = some (.file (Utf8.encode "\x7b\x7d") false) := rfl

/-- A store whose document is too deep to be written. -/
def deepStore : Store := rootStore [("a", nested Json.depthLimit)] []

/-- The save of a document that is too deep fails and leaves the file. -/
theorem deep_save_keeps_file :
    deepStore.save filledHost = (.error .tooDeep, deepStore, filledHost)
    ∧ ∀ failure s' h', deepStore.save filledHost = (.error failure, s', h') →
      h'.fileAt? deepStore.path.text = some (.file (Utf8.encode "\x7b\x7d") false) := by
  have hdocument : Value.object deepStore.data = nested (Json.depthLimit + 1) := rfl
  have hclear : Json.isClear (.object deepStore.data) := by
    rw [hdocument]
    exact isClear_nested _
  have hdeep : deepStore.isUnwritable := by
    rw [isUnwritable, hdocument, height_nested]
    decide
  have hfolders : filledHost.ensureFolders deepStore.path.anchor
      deepStore.path.parent.parts.reverse = (.ok (), filledHost) := rfl
  refine ⟨?_, ?_⟩
  · simp only [save, writeFile, hfolders, hdeep]
    rfl
  · rw [← fileAt?_filledHost]
    exact (failed_save_keeps_file_iff rfl (Json.isProper_of_isClear hclear)).2.2
      (.inr (.inl hclear))

def surrogateStore : Store := rootStore [("b", .str [CodePoint.ofNat 0xD800])] []

/-- The save of a document with a surrogate fails and leaves an empty file. -/
theorem surrogate_save_empties_file :
    surrogateStore.persistent ∧ (Value.object surrogateStore.data).isProper
    ∧ filledHost.fileAt? surrogateStore.path.text = some (.file (Utf8.encode "\x7b\x7d") false)
    ∧ ∃ failure h', surrogateStore.save filledHost = (.error failure, surrogateStore, h')
      ∧ h'.fileAt? surrogateStore.path.text = some (.file [] false) := by
  have hopens : surrogateStore.OpensFile filledHost :=
    ⟨by decide, by decide, filledHost, _, _, rfl, rfl⟩
  obtain ⟨fault, h', hs, hemptied⟩ := save_of_not_isClear rfl (by decide) hopens (by decide)
  obtain ⟨executable, hfile, hsame⟩ := hemptied.file
  obtain rfl := hsame _ _ fileAt?_filledHost
  exact ⟨rfl, by decide, fileAt?_filledHost, _, h', hs, hfile⟩

end Store

end Settings

end DhrWorkbench
