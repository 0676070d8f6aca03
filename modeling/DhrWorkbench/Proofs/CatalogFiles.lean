import DhrWorkbench.Catalog.File
import DhrWorkbench.Proofs.CatalogFaults
import DhrWorkbench.Proofs.JsonText

/-!
# What loading a catalog reports

Loading a catalog gives the catalog or reports why there is none: the file cannot be read, is no
JSON, holds no list of entries, or the list is no catalog. Only one thing in the entries themselves
is not reported: a slot whose number has too many digits, in an entry with a label and a category.
It breaks the loading off when it is reached, while an earlier fault is reported (`build_settled`).
This and values that nest too deep are the only exceptions (`load_isReported_iff`).
-/

namespace DhrWorkbench

namespace Catalog

/-! ## Reports -/

/-- A result, or a report of why there is none. -/
def IsReported {α : Type} (result : Except Failure α) : Prop :=
  (∃ a, result = .ok a) ∨ ∃ refusal, result = .error (.refused refusal)

/-- No report: the number of a slot has too many digits. -/
def BreaksOff {α : Type} (result : Except Failure α) : Prop :=
  ∃ digits, 4300 < digits ∧ result = .error (.slotIndex (.tooLong digits))

theorem IsReported.map {α β : Type} {result : Except Failure α} (h : IsReported result)
    (f : α → β) : IsReported (result.map f) := by
  obtain ⟨a, rfl⟩ | ⟨refusal, rfl⟩ := h
  · exact .inl ⟨f a, rfl⟩
  · exact .inr ⟨refusal, rfl⟩

theorem BreaksOff.map {α β : Type} {result : Except Failure α} (h : BreaksOff result)
    (f : α → β) : BreaksOff (result.map f) := by
  obtain ⟨digits, hdigits, rfl⟩ := h
  exact ⟨digits, hdigits, rfl⟩

theorem BreaksOff.not_isReported {α : Type} {result : Except Failure α} (h : BreaksOff result) :
    ¬ IsReported result := by
  obtain ⟨digits, -, rfl⟩ := h
  rintro (⟨a, ha⟩ | ⟨refusal, hrefusal⟩)
  · cases ha
  · cases hrefusal

/-! ## Entries -/

/-- A raw entry with a label and a category, and with a slot whose number has too many digits. -/
structure IsOverlong (v : Value) : Prop where
  object : ∃ fields, v = .object fields
  label : ¬ ∀ c ∈ labelOf v, Text.isBlank c
  category : ∃ k : Category, k.name = categoryOf v
  number : ∃ found ∈ Template.spellings 0 (templateOf v), 4300 < found.digits.length

variable {v : Value} {e : Entry} {position : ℕ}

theorem IsOverlong.parse_ne (h : IsOverlong v) (t : Template) :
    Template.parse (templateOf v) ≠ .ok t := by
  intro hparse
  obtain ⟨found, hfound, hlong⟩ := h.number
  exact absurd ((Template.exists_parse_iff _).1 ⟨t, hparse⟩ found hfound) (Nat.not_le.2 hlong)

theorem Reports.not_isOverlong {refusal : Refusal} (h : Reports position v refusal) :
    ¬ IsOverlong v := by
  intro hlong
  cases h with
  | notObject hno =>
    obtain ⟨fields, hv⟩ := hlong.object
    exact hno fields hv
  | noLabel _ blank => exact hlong.label blank
  | unknownCategory _ _ unknown =>
    obtain ⟨k, hk⟩ := hlong.category
    exact unknown k hk
  | conflictingDefaults _ _ _ parsed _ _ => exact hlong.parse_ne _ parsed

theorem isOverlong_of_entryOf {fault : IntegerFault}
    (h : entryOf position v = .error (.slotIndex fault)) :
    IsOverlong v ∧ ∃ digits, 4300 < digits ∧ fault = .tooLong digits := by
  cases v with
  | object fields =>
    unfold entryOf at h
    dsimp only at h
    split at h
    · cases h
    · rename_i hlabel
      split at h
      · cases h
      · rename_i k hcategory
        split at h
        · rename_i other hparse
          cases h
          obtain ⟨found, hfound, hlong, rfl⟩ := Template.parse_error hparse
          exact ⟨⟨⟨fields, rfl⟩, mt Text.strip_eq_nil_iff.2 hlabel,
            ⟨k, Category.name_of_ofName? hcategory⟩, found, hfound, hlong⟩, _, hlong, rfl⟩
        · split at h <;> cases h
  | _ => cases h

/-- Only such a slot keeps the faults of an entry from being reported. -/
theorem entryOf_settled (v : Value) (position : ℕ) :
    (IsOverlong v → BreaksOff (entryOf position v))
      ∧ (¬ IsOverlong v → IsReported (entryOf position v)) := by
  obtain ⟨refusal, hreports, h⟩ | ⟨fault, -, h⟩ | ⟨e, hentry, h⟩ := entryOf_cases position v
  · exact ⟨fun hlong => absurd hlong hreports.not_isOverlong, fun _ => .inr ⟨refusal, h⟩⟩
  · obtain ⟨hlong, digits, hdigits, rfl⟩ := isOverlong_of_entryOf h
    exact ⟨fun _ => ⟨digits, hdigits, h⟩, fun hnot => absurd hlong hnot⟩
  · exact ⟨fun hlong => absurd hentry.template (hlong.parse_ne _), fun _ => .inl ⟨e, h⟩⟩

theorem IsEntryOf.unique {e' : Entry} (h : IsEntryOf v e) (h' : IsEntryOf v e') : e = e' := by
  obtain ⟨label, category, description, template, documentation, kind⟩ := e
  obtain ⟨label', category', description', template', documentation', kind'⟩ := e'
  obtain ⟨-, rfl, hcategory, htemplate, rfl, rfl, rfl⟩ := h
  obtain ⟨-, rfl, hcategory', htemplate', rfl, rfl, rfl⟩ := h'
  obtain rfl := Category.name_injective (hcategory.trans hcategory'.symm)
  cases htemplate.symm.trans htemplate'
  rfl

theorem entryOf_eq_ok_iff : entryOf position v = .ok e ↔ IsEntryOf v e := by
  refine ⟨isEntryOf_of_entryOf, fun h => ?_⟩
  obtain ⟨_, hreports, -⟩ | ⟨fault, hparse, -⟩ | ⟨e', h', hok⟩ := entryOf_cases position v
  · exact absurd hreports.isFaulty h.sound
  · cases hparse.symm.trans h.template
  · rw [hok, h.unique h']

/-! ## Lists of entries -/

/-- In a list the first raw entry that is no entry has a slot whose number has too many digits. -/
def MeetsOverlong (raw : List Value) : Prop :=
  ∃ before v after, raw = before ++ v :: after ∧ IsOverlong v ∧ ∀ w ∈ before, ∃ e, IsEntryOf w e

theorem not_meetsOverlong_nil : ¬ MeetsOverlong [] := by
  rintro ⟨before, v, after, h, -⟩
  simp at h

theorem meetsOverlong_cons {rest : List Value} :
    MeetsOverlong (v :: rest) ↔ IsOverlong v ∨ (∃ e, IsEntryOf v e) ∧ MeetsOverlong rest := by
  constructor
  · rintro ⟨before, w, after, heq, hlong, hbefore⟩
    cases before with
    | nil =>
      cases heq
      exact .inl hlong
    | cons first before =>
      cases heq
      rw [List.forall_mem_cons] at hbefore
      exact .inr ⟨hbefore.1, before, w, after, rfl, hlong, hbefore.2⟩
  · rintro (hlong | ⟨hentry, before, w, after, rfl, hlong, hbefore⟩)
    · exact ⟨[], v, rest, rfl, hlong, nofun⟩
    · exact ⟨v :: before, w, after, rfl, hlong, List.forall_mem_cons.2 ⟨hentry, hbefore⟩⟩

theorem entriesOf_settled : ∀ (raw : List Value) (position : ℕ),
    (MeetsOverlong raw → BreaksOff (entriesOf position raw))
      ∧ (¬ MeetsOverlong raw → IsReported (entriesOf position raw))
  | [], position => ⟨fun h => absurd h not_meetsOverlong_nil, fun _ => .inl ⟨[], rfl⟩⟩
  | v :: rest, position => by
    obtain ⟨hbreaks, hreported⟩ := entriesOf_settled rest (position + 1)
    rw [entriesOf_cons, meetsOverlong_cons]
    by_cases hlong : IsOverlong v
    · obtain ⟨digits, hdigits, hv⟩ := (entryOf_settled v position).1 hlong
      rw [hv]
      exact ⟨fun _ => ⟨digits, hdigits, rfl⟩, fun hnot => absurd (.inl hlong) hnot⟩
    · rw [or_iff_right hlong]
      -- behind an entry the rest decides, and behind a fault nothing is looked at
      obtain ⟨e, hv⟩ | ⟨refusal, hv⟩ := (entryOf_settled v position).2 hlong
      · have hentry : ∃ e, IsEntryOf v e := ⟨e, isEntryOf_of_entryOf hv⟩
        rw [hv, and_iff_right hentry]
        exact ⟨fun h => (hbreaks h).map _, fun h => (hreported h).map _⟩
      · have hno : ¬ ∃ e, IsEntryOf v e := by
          rintro ⟨e, he⟩
          cases hv.symm.trans (entryOf_eq_ok_iff.2 he)
        rw [hv]
        exact ⟨fun h => absurd h.1 hno, fun _ => .inr ⟨refusal, rfl⟩⟩

theorem entriesOf_of_forall₂ {raw : List Value} {entries : List Entry}
    (hall : List.Forall₂ IsEntryOf raw entries) (position : ℕ) :
    entriesOf position raw = .ok entries := by
  induction hall generalizing position with
  | nil => rfl
  | cons hentry _ ih =>
    rw [entriesOf_cons, entryOf_eq_ok_iff.2 hentry, ih (position + 1)]
    rfl

theorem build_settled (raw : List Value) : (MeetsOverlong raw → BreaksOff (build raw))
    ∧ (¬ MeetsOverlong raw → IsReported (build raw)) := by
  obtain ⟨hbreaks, hreported⟩ := entriesOf_settled raw 0
  rw [build]
  refine ⟨fun hmeets => ?_, fun hmeets => ?_⟩
  · obtain ⟨digits, hdigits, h⟩ := hbreaks hmeets
    rw [h]
    exact ⟨digits, hdigits, rfl⟩
  · obtain ⟨entries, h⟩ | ⟨refusal, h⟩ := hreported hmeets
    · rw [h]
      dsimp only
      split
      · exact .inr ⟨_, rfl⟩
      · exact .inl ⟨_, rfl⟩
    · rw [h]
      exact .inr ⟨refusal, rfl⟩

theorem build_eq_ok_iff {raw : List Value} {c : Catalog} : build raw = .ok c
    ↔ List.Forall₂ IsEntryOf raw c.entries ∧ (raw.map labelOf).Nodup := by
  refine ⟨fun h => ?_, fun ⟨hall, hnodup⟩ => ?_⟩
  · rw [← labels_of_build h]
    exact build_ok h
  · rw [← map_label_of_forall₂ hall] at hnodup
    have hnone := repeated?_eq_none_iff.2 ⟨hnodup, fun l _ => List.not_mem_nil⟩
    simp only [build, entriesOf_of_forall₂ hall 0, hnone]

/-! ## Files -/

/-- The values in a file nest too deep to be read. -/
def NestsTooDeep (h : Host) (path : Text) : Prop :=
  ∃ bytes document, h.readBytes (Path.ofText path).text = .ok bytes
    ∧ Json.readBytes bytes = .error (.text document .tooDeep)

/-- A file holds a list of raw entries. -/
def Lists (h : Host) (path : Text) (raw : List Value) : Prop :=
  ∃ bytes v, h.readBytes (Path.ofText path).text = .ok bytes ∧ Json.readBytes bytes = .ok v
    ∧ rawEntries? v = some raw

theorem Lists.load_eq {h : Host} {path : Text} {raw : List Value} (hraw : Lists h path raw) :
    load h path = build raw := by
  obtain ⟨bytes, v, hbytes, hv, hentries⟩ := hraw
  simp only [load, readFile, hbytes, hv, hentries]

theorem NestsTooDeep.load_eq {h : Host} {path : Text} (hdeep : NestsTooDeep h path) :
    load h path = .error .tooDeep := by
  obtain ⟨bytes, document, hbytes, hread⟩ := hdeep
  simp only [load, readFile, hbytes, hread]

/-- A file without a list of entries is refused, unless it nests too deep. -/
theorem load_of_not_lists {h : Host} {path : Text} (hraw : ∀ raw, ¬ Lists h path raw)
    (hdeep : ¬ NestsTooDeep h path) : ∃ refusal, load h path = .error (.refused refusal) := by
  unfold load readFile
  dsimp only
  cases hbytes : h.readBytes (Path.ofText path).text with
  | error fault => exact ⟨_, rfl⟩
  | ok bytes =>
    cases hread : Json.readBytes bytes with
    | ok v =>
      cases hentries : rawEntries? v with
      | some raw => exact absurd ⟨bytes, v, hbytes, hread, hentries⟩ (hraw raw)
      | none => exact ⟨.noEntries (Path.ofText path).text, by simp only [hread, hentries]⟩
    | error fault =>
      refine ⟨.unreadable (Path.ofText path).text fault.message, ?_⟩
      simp only [hread]
      rcases fault with fault | ⟨document, complaint | fault | _⟩
      · rfl
      · rfl
      · rfl
      · exact absurd ⟨bytes, document, hbytes, hread⟩ hdeep

theorem Lists.not_nestsTooDeep {h : Host} {path : Text} {raw : List Value}
    (hraw : Lists h path raw) : ¬ NestsTooDeep h path := by
  rintro ⟨bytes, document, hbytes, hread⟩
  obtain ⟨bytes', v, hbytes', hv, -⟩ := hraw
  cases hbytes.symm.trans hbytes'
  cases hread.symm.trans hv

/-- Just a file with a list of sound entries, no two of one label, holds a catalog. -/
theorem load_eq_ok_iff {h : Host} {path : Text} {c : Catalog} : load h path = .ok c
    ↔ ∃ raw, Lists h path raw ∧ List.Forall₂ IsEntryOf raw c.entries
      ∧ (raw.map labelOf).Nodup := by
  constructor
  · intro hc
    by_cases hlists : ∃ raw, Lists h path raw
    · obtain ⟨raw, hraw⟩ := hlists
      rw [hraw.load_eq] at hc
      exact ⟨raw, hraw, build_eq_ok_iff.1 hc⟩
    · by_cases hdeep : NestsTooDeep h path
      · cases hdeep.load_eq.symm.trans hc
      · obtain ⟨refusal, hrefused⟩ := load_of_not_lists (not_exists.1 hlists) hdeep
        cases hrefused.symm.trans hc
  · rintro ⟨raw, hraw, hentries⟩
    rw [hraw.load_eq]
    exact build_eq_ok_iff.2 hentries

/-- Whatever the bytes of a file are and whether or not there is one, loading gives a catalog or
reports why there is none, but for two exceptions: the values nest too deep, or the first raw entry
that is no entry has a slot whose number has too many digits. Then loading breaks off without a
report. It gives a catalog just for a file with a list of sound entries, no two of one label. -/
theorem load_isReported_iff (h : Host) (path : Text) :
    (IsReported (load h path)
      ↔ ¬ NestsTooDeep h path ∧ ∀ raw, Lists h path raw → ¬ MeetsOverlong raw)
    ∧ (∀ c, load h path = .ok c ↔ ∃ raw, Lists h path raw
      ∧ List.Forall₂ IsEntryOf raw c.entries ∧ (raw.map labelOf).Nodup)
    ∧ (∀ raw, Lists h path raw → MeetsOverlong raw →
      ∃ digits, 4300 < digits ∧ load h path = .error (.slotIndex (.tooLong digits)))
    ∧ (NestsTooDeep h path → load h path = .error .tooDeep) := by
  refine ⟨⟨fun hreport => ⟨fun hdeep => ?_, fun raw hraw hmeets => ?_⟩, fun ⟨hdeep, hmeets⟩ => ?_⟩,
    fun c => load_eq_ok_iff, fun raw hraw hmeets => ?_, NestsTooDeep.load_eq⟩
  · rw [hdeep.load_eq] at hreport
    obtain ⟨c, hc⟩ | ⟨refusal, hc⟩ := hreport <;> cases hc
  · rw [hraw.load_eq] at hreport
    exact ((build_settled raw).1 hmeets).not_isReported hreport
  · by_cases hlists : ∃ raw, Lists h path raw
    · obtain ⟨raw, hraw⟩ := hlists
      rw [hraw.load_eq]
      exact (build_settled raw).2 (hmeets raw hraw)
    · exact .inr (load_of_not_lists (not_exists.1 hlists) hdeep)
  · rw [hraw.load_eq]
    exact (build_settled raw).1 hmeets

def ones (digits : ℕ) : Text := List.replicate digits (CodePoint.ofChar '1')

/-- A raw entry with one slot, whose number has so many digits. -/
def oneSlot (digits : ℕ) : Value := .object [("category", .str "type"), ("label", .str "x"),
  ("template", .str (CodePoint.ofChar '$' :: ones digits))]

theorem slotAt?_ones (n : ℕ) : Template.slotAt? (CodePoint.ofChar '$' :: ones (n + 1))
    = some ⟨ones (n + 1), [], n + 2⟩ := by
  have hdigits : (ones (n + 1)).takeWhile Text.isDigit = ones (n + 1) := by
    rw [ones, List.takeWhile_replicate, if_pos (by decide)]
  have hbare : Template.bare? (ones (n + 1)) = some ⟨ones (n + 1), [], n + 2⟩ := by
    rw [Template.bare?, hdigits]
    simp [ones]
  have hcons : ones (n + 1) = CodePoint.ofChar '1' :: ones n := rfl
  rw [hcons] at hbare ⊢
  rw [Template.slotAt?, if_neg (by decide)]
  exact (if_neg (by decide)).trans hbare

theorem oneSlot_isOverlong {n : ℕ} (h : 4300 ≤ n) : IsOverlong (oneSlot (n + 1)) where
  object := ⟨_, rfl⟩
  label hblank := absurd (hblank (CodePoint.ofChar 'x') List.mem_cons_self) (by decide)
  category := ⟨.type, rfl⟩
  number := by
    have htemplate : templateOf (oneSlot (n + 1)) = CodePoint.ofChar '$' :: ones (n + 1) := rfl
    rw [htemplate, Template.spellings, slotAt?_ones]
    refine ⟨_, List.mem_cons_self, ?_⟩
    simpa [ones] using h

theorem oneSlot_arranged (digits : ℕ) : (oneSlot digits).arranged = oneSlot digits := by
  have hsorted : [Text.ofString "category", "label", "template"].Pairwise
      fun s t => Text.atMost s t := by decide
  rw [oneSlot, Value.arranged_object]
  refine congrArg Value.object (List.mergeSort_of_pairwise ?_)
  exact (List.pairwise_map (f := Prod.fst) (R := fun s t => Text.atMost s t)).1 hsorted

theorem oneSlot_isClear (digits : ℕ) : Json.isClear (oneSlot digits) := by
  have hdigits : ∀ c ∈ CodePoint.ofChar '$' :: ones digits, !Utf8.isSurrogate c := by
    rintro c (_ | ⟨_, hc⟩)
    · rfl
    · rw [List.eq_of_mem_replicate hc]
      rfl
  have hnames : [Text.ofString "category", "label", "template"].Nodup
      ∧ ∀ k ∈ [Text.ofString "category", "label", "template"], Json.isClearText k := by decide
  refine Value.isFormed_object.2 ⟨hnames.1, hnames.2, ?_⟩
  simp only [List.forall_mem_cons]
  exact ⟨rfl, rfl, List.all_eq_true.2 hdigits, nofun⟩

/-- A host with a catalog file of that one entry. -/
def oneSlotHost (digits : ℕ) : Host :=
  ⟨⟨[(["c.json"], .file (Utf8.encode (Json.write .settings 0
    (.object [("entries", .list [oneSlot digits])]))) false)]⟩, [], "/root", [], [], none⟩

theorem oneSlotHost_lists (digits : ℕ) : Lists (oneSlotHost digits) "/c.json" [oneSlot digits] := by
  have hclear : Json.isClear (.object [("entries", .list [oneSlot digits])]) := by
    refine Value.isFormed_object.2 ⟨by simp [Fields.keys], List.forall_mem_singleton.2 rfl, ?_⟩
    refine List.forall_mem_singleton.2 ?_
    exact Value.areFormed_iff.2 (List.forall_mem_singleton.2 (oneSlot_isClear digits))
  have hheight : (Value.object [("entries", .list [oneSlot digits])]).height ≤ Json.depthLimit := by
    simp [oneSlot, Value.height, Value.heightOfFields, Value.heightOfItems, Json.depthLimit]
  refine ⟨_, _, rfl, Json.readBytes_encode (Json.isProper_of_isClear hclear) rfl hheight
    (Json.encodable_write 0 hclear), ?_⟩
  have harranged : (Value.object [("entries", .list [oneSlot digits])]).arranged
      = .object [("entries", .list [oneSlot digits])] := by
    rw [Value.arranged_object]
    simp [Fields.mapValues, Value.arranged_list, oneSlot_arranged, Fields.sorted]
  rw [harranged]
  rfl

/-- A file with one entry, whose only fault is a slot with a number of 4301 digits, is not
reported. -/
theorem long_slot_breaks_off : ¬ NestsTooDeep (oneSlotHost 4301) "/c.json"
    ∧ ¬ IsReported (load (oneSlotHost 4301) "/c.json") := by
  have hlists := oneSlotHost_lists 4301
  refine ⟨hlists.not_nestsTooDeep, ?_⟩
  rw [hlists.load_eq]
  exact ((build_settled _).1 ⟨[], _, [], rfl, oneSlot_isOverlong le_rfl, nofun⟩).not_isReported

end Catalog

end DhrWorkbench
