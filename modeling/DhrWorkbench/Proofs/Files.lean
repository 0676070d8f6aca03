import DhrWorkbench.Proofs.Encoding
import DhrWorkbench.Proofs.Paths

/-!
# What writing does to files

An absolute path leads to the location that its names spell, whatever stands there
(`location_of_locate`). Making folders leaves everything where it is and adds folders only where
nothing stood (`Grows`); writing a file changes its own location alone, and afterwards the path
leads to the written bytes (`stat_of_writeText`). A path that led to something leads to the same
thing after that, unless it was the path of the file (`stat_of_keepsAt`).
-/

namespace DhrWorkbench

namespace FileSystem

/-! ## Locations -/

theorem get?_put (fs : FileSystem) {l : Location} (hl : l ≠ []) (node : Node) (j : Location) :
    (fs.put l node).get? j = if j = l then some node else fs.get? j := by
  unfold get? put
  by_cases hj : j = l
  · simp [hj, hl]
  · have hfind : (fs.entries.filter (·.1 ≠ l)).find? (·.1 = j) = fs.entries.find? (·.1 = j) := by
      rw [List.find?_filter]
      congr 1
      funext e
      by_cases he : e.1 = j
      · simp [he, hj]
      · simp [he]
    simp only [List.find?_cons, Ne.symm hj, decide_false, hfind, if_neg hj]

/-- All that stands in the first file system stands in the second, a folder where a folder was. -/
def Extends (fs fs' : FileSystem) : Prop :=
  ∀ l node, fs.get? l = some node →
    ∃ node', fs'.get? l = some node' ∧ node'.isFolder = node.isFolder

theorem Extends.trans {a b c : FileSystem} (hab : a.Extends b) (hbc : b.Extends c) :
    a.Extends c := by
  intro l node hl
  obtain ⟨node', hl', hfolder⟩ := hab l node hl
  obtain ⟨node'', hl'', hfolder'⟩ := hbc l node' hl'
  exact ⟨node'', hl'', hfolder'.trans hfolder⟩

theorem Extends.isFolder {fs fs' : FileSystem} (h : fs.Extends fs') {l : Location}
    (hl : fs.isFolder l) : fs'.isFolder l := by
  unfold FileSystem.isFolder at hl ⊢
  split at hl
  · rename_i node hget
    obtain ⟨node', hget', hfolder⟩ := h l node hget
    simp [hget', hfolder, hl]
  · cases hl

/-! ## Walking -/

/-- The location that names lead to from another one, whatever stands there. -/
def lead : Location → List Text → Location
  | l, [] => l
  | l, name :: rest =>
    if name = [] ∨ name = Text.ofString "." then lead l rest
    else if name = Text.ofString ".." then lead l.dropLast rest
    else lead (l ++ [Utf8.normalName name]) rest

end FileSystem

/-- The location of what a path leads to. -/
def Spot.location : Spot → Location
  | .there l => l
  | .free folder name => folder ++ [name]

namespace FileSystem

variable {fs fs' : FileSystem}

/-- A name that stays where it is. -/
abbrev IsStay (name : Text) : Prop := name = [] ∨ name = Text.ofString "."

theorem walk_nil (fs : FileSystem) (start : Location) : fs.walk start [] = .ok (.there start) := rfl

theorem walk_cons (fs : FileSystem) (start : Location) (name : Text) (rest : List Text) :
    fs.walk start (name :: rest) =
      if !fs.isFolder start then .error .notFolder
      else if IsStay name then fs.walk start rest
      else if name = Text.ofString ".." then fs.walk start.dropLast rest
      else if nameLimit < (Utf8.nameBytes name).length then .error .nameTooLong
      else match fs.get? (start ++ [Utf8.normalName name]) with
        | some _ => fs.walk (start ++ [Utf8.normalName name]) rest
        | none => if rest = [] then .ok (.free start (Utf8.normalName name)) else .error .missing :=
  rfl

theorem lead_cons (start : Location) (name : Text) (rest : List Text) :
    lead start (name :: rest) =
      if IsStay name then lead start rest
      else if name = Text.ofString ".." then lead start.dropLast rest
      else lead (start ++ [Utf8.normalName name]) rest := rfl

theorem walk_stay {start : Location} {name : Text} {rest : List Text} (hf : fs.isFolder start)
    (hs : IsStay name) : fs.walk start (name :: rest) = fs.walk start rest := by
  rw [walk_cons, if_neg (by simp [hf]), if_pos hs]

theorem walk_up {start : Location} {rest : List Text} (hf : fs.isFolder start) :
    fs.walk start (Text.ofString ".." :: rest) = fs.walk start.dropLast rest := by
  rw [walk_cons, if_neg (by simp [hf]), if_neg (by decide), if_pos rfl]

theorem walk_down {start : Location} {name : Text} {rest : List Text} (hf : fs.isFolder start)
    (hs : ¬ IsStay name) (hu : name ≠ Text.ofString "..")
    (hlong : (Utf8.nameBytes name).length ≤ nameLimit) {node : Node}
    (hnode : fs.get? (start ++ [Utf8.normalName name]) = some node) :
    fs.walk start (name :: rest) = fs.walk (start ++ [Utf8.normalName name]) rest := by
  rw [walk_cons, if_neg (by simp [hf]), if_neg hs, if_neg hu, if_neg (by omega)]
  simp only [hnode]

/-- The steps of a walk that comes to an end: it stays, goes up, goes down, or ends at a name that
is free. -/
theorem walk_cases {start : Location} {name : Text} {rest : List Text} {spot : Spot}
    (h : fs.walk start (name :: rest) = .ok spot) :
    fs.isFolder start ∧
      ((IsStay name ∧ fs.walk start rest = .ok spot)
      ∨ (name = Text.ofString ".." ∧ fs.walk start.dropLast rest = .ok spot)
      ∨ (¬ IsStay name ∧ name ≠ Text.ofString ".."
        ∧ (Utf8.nameBytes name).length ≤ nameLimit
        ∧ ((∃ node, fs.get? (start ++ [Utf8.normalName name]) = some node
            ∧ fs.walk (start ++ [Utf8.normalName name]) rest = .ok spot)
          ∨ (fs.get? (start ++ [Utf8.normalName name]) = none ∧ rest = []
            ∧ spot = .free start (Utf8.normalName name))))) := by
  rw [walk_cons] at h
  by_cases hf : fs.isFolder start
  · rw [if_neg (by simp [hf])] at h
    refine ⟨hf, ?_⟩
    by_cases hs : name = [] ∨ name = Text.ofString "."
    · rw [if_pos hs] at h
      exact .inl ⟨hs, h⟩
    · by_cases hu : name = Text.ofString ".."
      · rw [if_neg hs, if_pos hu] at h
        exact .inr (.inl ⟨hu, h⟩)
      · by_cases hlong : nameLimit < (Utf8.nameBytes name).length
        · rw [if_neg hs, if_neg hu, if_pos hlong] at h
          cases h
        · rw [if_neg hs, if_neg hu, if_neg hlong] at h
          refine .inr (.inr ⟨hs, hu, Nat.not_lt.1 hlong, ?_⟩)
          cases hget : fs.get? (start ++ [Utf8.normalName name]) with
          | some node =>
            rw [hget] at h
            exact .inl ⟨node, rfl, h⟩
          | none =>
            rw [hget] at h
            by_cases hrest : rest = []
            · rw [if_pos hrest] at h
              exact .inr ⟨rfl, hrest, (Except.ok.inj h).symm⟩
            · rw [if_neg hrest] at h
              cases h
  · rw [if_pos (by simp [hf])] at h
    cases h

theorem lead_stay {start : Location} {name : Text} {rest : List Text} (hs : IsStay name) :
    lead start (name :: rest) = lead start rest := by
  rw [lead_cons, if_pos hs]

theorem lead_up (start : Location) (rest : List Text) :
    lead start (Text.ofString ".." :: rest) = lead start.dropLast rest := by
  rw [lead_cons, if_neg (by decide), if_pos rfl]

theorem lead_down {start : Location} {name : Text} {rest : List Text} (hs : ¬ IsStay name)
    (hu : name ≠ Text.ofString "..") :
    lead start (name :: rest) = lead (start ++ [Utf8.normalName name]) rest := by
  rw [lead_cons, if_neg hs, if_neg hu]

/-- A walk ends where its names lead. -/
theorem location_of_walk : ∀ {names : List Text} {start : Location} {spot : Spot},
    fs.walk start names = .ok spot → spot.location = lead start names
  | [], start, spot, h => by
    rw [walk_nil] at h
    cases h
    rfl
  | name :: rest, start, spot, h => by
    obtain ⟨-, ⟨hs, hw⟩ | ⟨rfl, hw⟩ | ⟨hs, hu, -, ⟨node, -, hw⟩ | ⟨-, rfl, rfl⟩⟩⟩ := walk_cases h
    · rw [lead_stay hs]
      exact location_of_walk hw
    · rw [lead_up]
      exact location_of_walk hw
    · rw [lead_down hs hu]
      exact location_of_walk hw
    · rw [lead_down hs hu]
      rfl

/-- Nothing stands at a free name. -/
theorem free_of_walk : ∀ {names : List Text} {start folder : Location} {name : Text},
    fs.walk start names = .ok (.free folder name) → fs.get? (folder ++ [name]) = none
  | [], start, folder, name, h => by
    rw [walk_nil] at h
    cases h
  | first :: rest, start, folder, name, h => by
    obtain ⟨-, ⟨-, hw⟩ | ⟨-, hw⟩ | ⟨-, -, -, ⟨node, -, hw⟩ | ⟨hnone, -, heq⟩⟩⟩ := walk_cases h
    · exact free_of_walk hw
    · exact free_of_walk hw
    · exact free_of_walk hw
    · cases heq
      exact hnone

/-- What a path leads to is still there when more is added. -/
theorem walk_there (hext : fs.Extends fs') : ∀ {names : List Text} {start l : Location},
    fs.walk start names = .ok (.there l) → fs'.walk start names = .ok (.there l)
  | [], start, l, h => by
    rw [walk_nil] at h ⊢
    exact h
  | name :: rest, start, l, h => by
    obtain ⟨hf, ⟨hs, hw⟩ | ⟨rfl, hw⟩ | ⟨hs, hu, hlong, ⟨node, hnode, hw⟩ | ⟨-, -, heq⟩⟩⟩ :=
      walk_cases h
    · rw [walk_stay (hext.isFolder hf) hs]
      exact walk_there hext hw
    · rw [walk_up (hext.isFolder hf)]
      exact walk_there hext hw
    · obtain ⟨node', hnode', -⟩ := hext _ _ hnode
      rw [walk_down (hext.isFolder hf) hs hu hlong hnode']
      exact walk_there hext hw
    · cases heq

/-- A path to a free name leads to what is put there. -/
theorem walk_filled (hext : fs.Extends fs') : ∀ {names : List Text} {start folder : Location}
    {name : Text} {node : Node}, fs.walk start names = .ok (.free folder name) →
    fs'.get? (folder ++ [name]) = some node →
    fs'.walk start names = .ok (.there (folder ++ [name]))
  | [], start, folder, name, node, h, hnode => by
    rw [walk_nil] at h
    cases h
  | first :: rest, start, folder, name, node, h, hnode => by
    obtain ⟨hf, ⟨hs, hw⟩ | ⟨rfl, hw⟩ | ⟨hs, hu, hlong, ⟨other, hother, hw⟩ | ⟨-, rfl, heq⟩⟩⟩ :=
      walk_cases h
    · rw [walk_stay (hext.isFolder hf) hs]
      exact walk_filled hext hw hnode
    · rw [walk_up (hext.isFolder hf)]
      exact walk_filled hext hw hnode
    · obtain ⟨other', hother', -⟩ := hext _ _ hother
      rw [walk_down (hext.isFolder hf) hs hu hlong hother']
      exact walk_filled hext hw hnode
    · cases heq
      rw [walk_down (hext.isFolder hf) hs hu hlong hnode, walk_nil]

theorem lead_filter : ∀ (names : List Text) (start : Location),
    lead start (names.filter fun name => name ≠ [] ∧ name ≠ Text.ofString ".") = lead start names
  | [], start => rfl
  | name :: rest, start => by
    by_cases hs : IsStay name
    · rw [lead_stay hs, List.filter_cons_of_neg (by rcases hs with rfl | rfl <;> simp)]
      exact lead_filter rest start
    · have hkeep : name ≠ [] ∧ name ≠ Text.ofString "." := not_or.1 hs
      rw [List.filter_cons_of_pos (by simpa using hkeep)]
      by_cases hu : name = Text.ofString ".."
      · rw [hu, lead_up, lead_up]
        exact lead_filter rest _
      · rw [lead_down hs hu, lead_down hs hu]
        exact lead_filter rest _

/-- Folding two dots away leads to the same location. -/
theorem lead_foldDots : ∀ {names done : List Text}, (∀ name ∈ names, ¬ IsStay name) →
    (∀ name ∈ done, name ≠ Text.ofString "..") →
    (Path.foldDots true done names).map Utf8.normalName
      = lead (done.reverse.map Utf8.normalName) names
  | [], done, _, _ => rfl
  | name :: rest, done, hstay, hdone => by
    have hrest : ∀ name ∈ rest, ¬ IsStay name := fun n hn => hstay n (List.mem_cons_of_mem _ hn)
    rw [Path.foldDots]
    by_cases hu : name = Text.ofString ".."
    · have hstep : Path.stepUp true done = done.tail := by
        cases done with
        | nil => rfl
        | cons last before => rw [Path.stepUp, if_neg (hdone last List.mem_cons_self)]; rfl
      rw [if_pos hu, hu, lead_up, hstep,
        lead_foldDots hrest fun n hn => hdone n (List.mem_of_mem_tail hn)]
      simp [List.dropLast_reverse]
    · rw [if_neg hu, lead_down (hstay name List.mem_cons_self) hu, lead_foldDots hrest]
      · simp
      · exact List.forall_mem_cons.2 ⟨hu, hdone⟩

end FileSystem

namespace Host

/-! ## Paths -/

/-- Where a walk along a path starts. -/
def startOf (h : Host) (t : Text) : Location :=
  if (Path.ofText t).isAbsolute then [] else h.cwd

theorem locate_eq (h : Host) (t : Text) : h.locate t = match PathFault.check t with
    | .error fault => .error fault
    | .ok () =>
      if FileSystem.pathLimit < (Utf8.nameBytes t).length then .error (.os ⟨.nameTooLong, t⟩)
      else if t = [] then .error (.os ⟨.missing, t⟩)
      else match h.files.walk (h.startOf t) (Text.splitOn '/' t) with
        | .ok spot => .ok spot
        | .error fault => .error (.os ⟨fault, t⟩) := rfl

theorem walk_of_locate {h : Host} {t : Text} {spot : Spot} (hl : h.locate t = .ok spot) :
    h.files.walk (h.startOf t) (Text.splitOn '/' t) = .ok spot := by
  rw [locate_eq] at hl
  split at hl
  · cases hl
  · split_ifs at hl
    split at hl
    · rename_i hwalk
      cases hl
      exact hwalk
    · cases hl

/-- A path that leads somewhere leads where the walk along it ends, also on another host. -/
theorem locate_of_walk {h h' : Host} {t : Text} {spot spot' : Spot} (hl : h.locate t = .ok spot)
    (hwalk : h'.files.walk (h'.startOf t) (Text.splitOn '/' t) = .ok spot') :
    h'.locate t = .ok spot' := by
  rw [locate_eq] at hl ⊢
  split at hl
  · cases hl
  · split_ifs at hl ⊢
    simp only [hwalk]

theorem startOf_congr {h h' : Host} (hcwd : h'.cwd = h.cwd) (t : Text) :
    h'.startOf t = h.startOf t := by
  unfold startOf
  rw [hcwd]

/-- An absolute path leads to its location. -/
theorem location_of_locate {h : Host} {t : Text} {spot : Spot} (ht : (Path.ofText t).isAbsolute)
    (hl : h.locate t = .ok spot) : spot.location = h.locationOf t := by
  have hwalk := walk_of_locate hl
  have hnames : ∀ name ∈ Path.namesOf t, ¬ FileSystem.IsStay name := by
    intro name hname
    obtain ⟨hne, hdot, -⟩ := Path.isName_of_mem_namesOf hname
    exact not_or.2 ⟨hne, hdot⟩
  have hfold := @FileSystem.lead_foldDots (Path.namesOf t) [] hnames (by simp)
  rw [startOf, if_pos ht] at hwalk
  rw [FileSystem.location_of_walk hwalk, ← FileSystem.lead_filter]
  unfold locationOf absolute
  rw [Path.append_of_isAbsolute ht, Path.normal, ht]
  exact hfold.symm

theorem locationOf_congr {h h' : Host} (hcwd : h'.cwd = h.cwd) (t : Text) :
    h'.locationOf t = h.locationOf t := by
  unfold locationOf absolute
  rw [hcwd]

theorem exists_of_stat {h : Host} {t : Text} {node : Node} (hs : h.stat t = .ok node) :
    ∃ l, h.locate t = .ok (.there l) ∧ h.files.get? l = some node := by
  unfold stat at hs
  split at hs
  · cases hs
  · cases hs
  · rename_i l hl
    split at hs
    · rename_i node' hnode
      cases hs
      exact ⟨l, hl, hnode⟩
    · cases hs

theorem stat_of_locate {h : Host} {t : Text} {l : Location} {node : Node}
    (hl : h.locate t = .ok (.there l)) (hnode : h.files.get? l = some node) :
    h.stat t = .ok node := by
  simp only [stat, hl, hnode]

/-! ## Making folders -/

/-- Whatever stood at a location still stands there; where nothing stood a folder may stand. -/
def KeepsAt (l : Location) (h h' : Host) : Prop :=
  h'.files.get? l = h.files.get? l ∨ (h.files.get? l = none ∧ h'.files.get? l = some .folder)

/-- Nothing but folders was added. -/
structure Grows (h h' : Host) : Prop where
  cwd : h'.cwd = h.cwd
  keeps : ∀ l, KeepsAt l h h'

theorem KeepsAt.refl (l : Location) (h : Host) : KeepsAt l h h := .inl rfl

theorem KeepsAt.trans {l : Location} {a b c : Host} (hab : KeepsAt l a b) (hbc : KeepsAt l b c) :
    KeepsAt l a c := by
  rcases hab with hab | ⟨hnone, hfolder⟩
  · rcases hbc with hbc | ⟨hnone, hfolder⟩
    · exact .inl (hbc.trans hab)
    · exact .inr ⟨hab ▸ hnone, hfolder⟩
  · rcases hbc with hbc | ⟨hnone', -⟩
    · exact .inr ⟨hnone, hbc.trans hfolder⟩
    · rw [hfolder] at hnone'
      cases hnone'

theorem KeepsAt.some {l : Location} {h h' : Host} (hk : KeepsAt l h h') {node : Node}
    (hnode : h.files.get? l = some node) : h'.files.get? l = some node := by
  rcases hk with hk | ⟨hnone, -⟩
  · rw [hk, hnode]
  · rw [hnone] at hnode
    cases hnode

theorem Grows.refl (h : Host) : Grows h h := ⟨rfl, fun l => .refl l h⟩

theorem Grows.trans {a b c : Host} (hab : Grows a b) (hbc : Grows b c) : Grows a c :=
  ⟨hbc.cwd.trans hab.cwd, fun l => (hab.keeps l).trans (hbc.keeps l)⟩

theorem Grows.extends {h h' : Host} (hg : Grows h h') : h.files.Extends h'.files :=
  fun l node hnode => ⟨node, (hg.keeps l).some hnode, rfl⟩

theorem grows_makeFolder {h h' : Host} {t : Text} (hm : h.makeFolder t = .ok h') : Grows h h' := by
  unfold makeFolder at hm
  split at hm
  · cases hm
  · cases hm
  · rename_i folder name hl
    cases hm
    have hfree := FileSystem.free_of_walk (walk_of_locate hl)
    refine ⟨rfl, fun l => ?_⟩
    have hput := FileSystem.get?_put h.files (l := folder ++ [name]) (by simp) .folder l
    unfold KeepsAt withFiles
    by_cases hloc : l = folder ++ [name]
    · exact .inr ⟨hloc ▸ hfree, by simpa [hloc] using hput⟩
    · exact .inl (by simpa [hloc] using hput)

theorem grows_ensureFolder (h : Host) (t : Text) : Grows h (h.ensureFolder t).2 := by
  unfold ensureFolder
  split
  · rename_i made hmade
    exact grows_makeFolder hmade
  · split <;> exact .refl h
  · exact .refl h

theorem grows_ensureFolders (h : Host) (anchor : Anchor) : ∀ reversed : List Text,
    Grows h (h.ensureFolders anchor reversed).2
  | [] => grows_ensureFolder h _
  | last :: above => by
    have ih := grows_ensureFolders h anchor above
    unfold ensureFolders
    dsimp only
    split
    · rename_i made hmade
      exact grows_makeFolder hmade
    · split
      · rename_i hfail
        rw [hfail] at ih
        exact ih
      · rename_i hdone
        rw [hdone] at ih
        exact ih.trans (grows_ensureFolder _ _)
    · exact grows_ensureFolder h _

/-! ## Writing a file -/

/-- Opening a path for writing puts an empty file at its location, where no folder stood. A file
there stays as executable as it was. -/
theorem openForWriting_cases {h opened : Host} {t : Text} {l : Location}
    (ho : h.openForWriting t = .ok (l, opened)) :
    ∃ spot executable, h.locate t = .ok spot ∧ spot.location = l ∧ l ≠ []
      ∧ (∀ node, h.files.get? l = some node → node.isFolder = false)
      ∧ (∀ bytes was, h.files.get? l = some (.file bytes was) → was = executable)
      ∧ opened = h.withFiles (h.files.put l (.file [] executable)) := by
  unfold openForWriting at ho
  split at ho
  · cases ho
  · rename_i folder name hl
    have hfree := FileSystem.free_of_walk (walk_of_locate hl)
    cases ho
    exact ⟨_, false, hl, rfl, by simp, by simp [hfree], by simp [hfree], rfl⟩
  · rename_i location hl
    have hne : ∀ {node : Node}, h.files.get? location = some node → node.isFolder = false →
        location ≠ [] := by
      rintro node hnode hfile rfl
      cases hnode
      cases hfile
    split at ho
    · rename_i bytes executable hnode
      cases ho
      refine ⟨_, executable, hl, rfl, hne hnode rfl, ?_, ?_, rfl⟩
      · rw [hnode]
        rintro node ⟨⟩
        rfl
      · rw [hnode]
        rintro bytes was ⟨⟩
        rfl
    · rename_i tool hnode
      cases ho
      refine ⟨_, true, hl, rfl, hne hnode rfl, ?_, ?_, rfl⟩
      · rw [hnode]
        rintro node ⟨⟩
        rfl
      · rw [hnode]
        rintro bytes was ⟨⟩
    · cases ho

/-- What stands at a location where a path was opened for writing. -/
theorem get?_opened {h : Host} {l : Location} (hl : l ≠ []) (node : Node) (j : Location) :
    (h.withFiles (h.files.put l node)).files.get? j = if j = l then some node else h.files.get? j :=
  FileSystem.get?_put h.files hl node j

/-- What writing a text can come to: nothing happens, or the file holds the text, or nothing when
the text has no UTF-8 form. -/
theorem writeText_cases {h h' : Host} {t content : Text} {r : Except PathFault Unit}
    (hw : h.writeText t content = (r, h')) :
    ((∃ fault, r = .error fault) ∧ h' = h)
    ∨ ∃ spot l bytes executable, h.locate t = .ok spot ∧ spot.location = l ∧ l ≠ []
      ∧ (∀ node, h.files.get? l = some node → node.isFolder = false)
      ∧ h'.cwd = h.cwd
      ∧ (∀ j, h'.files.get? j = if j = l then some (.file bytes executable) else h.files.get? j)
      ∧ ((r = .ok () ∧ Utf8.Encodable content ∧ bytes = Utf8.encode content)
        ∨ (¬ Utf8.Encodable content ∧ ∃ fault, r = .error fault)) := by
  unfold writeText at hw
  split at hw
  · cases hw
    exact .inl ⟨⟨_, rfl⟩, rfl⟩
  · rename_i l opened ho
    obtain ⟨spot, executable, hlocate, hspot, hne, hfile, -, rfl⟩ := openForWriting_cases ho
    right
    split at hw
    · rename_i fault hfault
      cases hw
      refine ⟨spot, l, [], executable, hlocate, hspot, hne, hfile, rfl, get?_opened hne _,
        .inr ⟨fun henc => ?_, _, rfl⟩⟩
      rw [Utf8.unencodable?_eq_none_iff.2 henc] at hfault
      cases hfault
    · rename_i hnone
      have hopened : (h.withFiles (h.files.put l (.file [] executable))).files.get? l
          = some (.file [] executable) := by
        rw [get?_opened hne, if_pos rfl]
      simp only [hopened] at hw
      cases hw
      refine ⟨spot, l, Utf8.encode content, executable, hlocate, hspot, hne, hfile, rfl,
        fun j => ?_, .inl ⟨rfl, Utf8.unencodable?_eq_none_iff.1 hnone, rfl⟩⟩
      rw [get?_opened hne, get?_opened hne]
      split <;> simp [*]

theorem extends_of_get?_eq {h h' : Host} {l : Location} {bytes : List Byte} {executable : Bool}
    (hfile : ∀ node, h.files.get? l = some node → node.isFolder = false)
    (hget : ∀ j, h'.files.get? j
      = if j = l then some (.file bytes executable) else h.files.get? j) :
    h.files.Extends h'.files := by
  intro j node hnode
  rw [hget]
  by_cases hj : j = l
  · subst hj
    exact ⟨_, if_pos rfl, (hfile node hnode).symm⟩
  · exact ⟨node, by rw [if_neg hj, hnode], rfl⟩

/-- A written text is what stands at the path afterwards. -/
theorem stat_of_writeText {h h' : Host} {t content : Text}
    (hw : h.writeText t content = (.ok (), h')) :
    Utf8.Encodable content
      ∧ ∃ executable, h'.stat t = .ok (.file (Utf8.encode content) executable) := by
  obtain ⟨⟨fault, hr⟩, -⟩ | ⟨spot, l, bytes, executable, hlocate, hspot, hne, hfile, hcwd, hget,
    ⟨-, henc, rfl⟩ | ⟨-, fault, hr⟩⟩ := writeText_cases hw
  · cases hr
  · have hext := extends_of_get?_eq hfile hget
    have hl : h'.files.get? l = some (.file (Utf8.encode content) executable) := by
      rw [hget, if_pos rfl]
    have hwalk := walk_of_locate hlocate
    rw [← startOf_congr hcwd] at hwalk
    refine ⟨henc, executable, stat_of_locate (locate_of_walk hlocate ?_) hl⟩
    cases spot with
    | there location =>
      obtain rfl : location = l := hspot
      exact FileSystem.walk_there hext hwalk
    | free folder name =>
      obtain rfl : folder ++ [name] = l := hspot
      exact FileSystem.walk_filled hext hwalk hl
  · cases hr

/-- Folders were added and one path was written to: all that was there is there, and it is the
same anywhere but at the location of the path. -/
structure Touches (t : Text) (h h' : Host) : Prop where
  cwd : h'.cwd = h.cwd
  extended : h.files.Extends h'.files
  keeps : (Path.ofText t).isAbsolute → ∀ l, l ≠ h.locationOf t → KeepsAt l h h'

theorem Grows.touches {h h' : Host} (hg : Grows h h') (t : Text) : Touches t h h' :=
  ⟨hg.cwd, hg.extends, fun _ l _ => hg.keeps l⟩

theorem Touches.refl (t : Text) (h : Host) : Touches t h h := (Grows.refl h).touches t

theorem Touches.trans {t : Text} {a b c : Host} (hab : Touches t a b) (hbc : Touches t b c) :
    Touches t a c := by
  refine ⟨hbc.cwd.trans hab.cwd, hab.extended.trans hbc.extended, fun ht l hl => ?_⟩
  exact (hab.keeps ht l hl).trans (hbc.keeps ht l (by rwa [locationOf_congr hab.cwd]))

theorem touches_writeText {h h' : Host} {t content : Text} {r : Except PathFault Unit}
    (hw : h.writeText t content = (r, h')) : Touches t h h' := by
  obtain ⟨-, rfl⟩ | ⟨spot, l, bytes, executable, hlocate, hspot, -, hfile, hcwd, hget, -⟩ :=
    writeText_cases hw
  · exact .refl t h'
  · refine ⟨hcwd, extends_of_get?_eq hfile hget, fun ht j hj => .inl ?_⟩
    rw [hget, if_neg]
    rwa [← hspot, location_of_locate ht hlocate]

/-- A path leads to the same thing where all that was there is there, and it is the same at the
location of the path. -/
theorem stat_of_keepsAt {h h' : Host} {t : Text} {node : Node} (hcwd : h'.cwd = h.cwd)
    (hext : h.files.Extends h'.files) (ht : (Path.ofText t).isAbsolute)
    (hkeeps : KeepsAt (h.locationOf t) h h') (hs : h.stat t = .ok node) : h'.stat t = .ok node := by
  obtain ⟨l, hl, hnode⟩ := exists_of_stat hs
  obtain rfl : l = h.locationOf t := location_of_locate ht hl
  have hwalk := walk_of_locate hl
  rw [← startOf_congr hcwd] at hwalk
  exact stat_of_locate (locate_of_walk hl (FileSystem.walk_there hext hwalk)) (hkeeps.some hnode)

end Host

end DhrWorkbench
