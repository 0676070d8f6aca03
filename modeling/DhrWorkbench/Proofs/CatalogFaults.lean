import DhrWorkbench.Catalog
import DhrWorkbench.Proofs.Blanks
import DhrWorkbench.Proofs.Slots
import Mathlib.Data.List.Forall2

/-!
# Which lists of raw entries are catalogs

A raw entry is faulty when it is no object, has a blank label, an unknown category or a template
whose slots disagree on a default. A list is refused exactly when an entry is faulty or a label
repeats an earlier one; the first faulty entry is reported before any repeated label
(`build_refused_iff`). The entries of a catalog are those of the list, one by one, and its
templates show one text for each slot number (`plainText_woven`).
-/

namespace DhrWorkbench

theorem Category.ofName?_eq_none_iff {t : Text} :
    Category.ofName? t = none ↔ ∀ k : Category, k.name ≠ t := by
  have hall : ∀ k : Category, k ∈ Category.all := by
    intro k
    cases k <;> decide
  simp [Category.ofName?, List.find?_eq_none, hall]

theorem Category.name_of_ofName? {t : Text} {k : Category} (h : Category.ofName? t = some k) :
    k.name = t := by
  simpa using List.find?_some h

theorem Category.name_injective : Function.Injective Category.name := by
  intro k k'
  cases k <;> cases k' <;> decide

namespace Catalog

/-! ## Single entries -/

/-- The fields of a raw entry; what is no object has none. -/
def fieldsOf : Value → Fields
  | .object fields => fields
  | _ => []

def labelOf (v : Value) : Text := fieldText (fieldsOf v) "label" ""

def categoryOf (v : Value) : Text := Text.strip (fieldText (fieldsOf v) "category" "")

/-- The text of the template, which is the label where there is none. -/
def templateOf (v : Value) : Text := fieldText (fieldsOf v) "template" (labelOf v)

/-- A raw entry that no catalog has. -/
def IsFaulty (v : Value) : Prop :=
  (∀ fields, v ≠ .object fields)
  ∨ (∀ c ∈ labelOf v, Text.isBlank c)
  ∨ (∀ k : Category, k.name ≠ categoryOf v)
  ∨ ∃ t index, Template.parse (templateOf v) = .ok t ∧ t.Disagrees index

/-- What is reported of a raw entry: the first of its faults. -/
inductive Reports (position : ℕ) (v : Value) : Refusal → Prop
  | notObject (h : ∀ fields, v ≠ .object fields) : Reports position v (.notObject position)
  | noLabel (object : ∃ fields, v = .object fields) (blank : ∀ c ∈ labelOf v, Text.isBlank c) :
    Reports position v (.noLabel position)
  | unknownCategory (object : ∃ fields, v = .object fields)
    (label : ¬ ∀ c ∈ labelOf v, Text.isBlank c)
    (unknown : ∀ k : Category, k.name ≠ categoryOf v) :
    Reports position v (.unknownCategory (labelOf v) (categoryOf v))
  | conflictingDefaults {t : Template} {index : ℕ} {defaults : List Text}
    (object : ∃ fields, v = .object fields) (label : ¬ ∀ c ∈ labelOf v, Text.isBlank c)
    (category : ∃ k : Category, k.name = categoryOf v)
    (parsed : Template.parse (templateOf v) = .ok t) (disagrees : t.Disagrees index)
    (declared : ∀ d, d ∈ defaults ↔ d ≠ [] ∧ ∃ s ∈ t.slots, s.index = index ∧ s.default = d) :
    Reports position v (.conflictingDefaults (labelOf v) index defaults)

/-- A raw entry without faults, and the entry that says the same. -/
structure IsEntryOf (v : Value) (e : Entry) : Prop where
  sound : ¬ IsFaulty v
  label : e.label = labelOf v
  category : e.category.name = categoryOf v
  template : Template.parse (templateOf v) = .ok e.template
  description : e.description = Text.strip (fieldText (fieldsOf v) "description" "")
  documentation : e.documentation = Text.strip (fieldText (fieldsOf v) "documentation" "")
  kind : e.kind = Text.strip (fieldText (fieldsOf v) "kind" "")

theorem Reports.isFaulty {position : ℕ} {v : Value} {refusal : Refusal}
    (h : Reports position v refusal) : IsFaulty v := by
  cases h with
  | notObject hv => exact .inl hv
  | noLabel _ blank => exact .inr (.inl blank)
  | unknownCategory _ _ unknown => exact .inr (.inr (.inl unknown))
  | conflictingDefaults _ _ _ parsed disagrees _ =>
    exact .inr (.inr (.inr ⟨_, _, parsed, disagrees⟩))

/-- What a raw entry comes to: its first fault is reported, or the number of a slot is too long, or
it is an entry. -/
theorem entryOf_cases (position : ℕ) (v : Value) :
    (∃ refusal, Reports position v refusal ∧ entryOf position v = .error (.refused refusal))
    ∨ (∃ fault, Template.parse (templateOf v) = .error fault
      ∧ entryOf position v = .error (.slotIndex fault))
    ∨ ∃ e, IsEntryOf v e ∧ entryOf position v = .ok e := by
  cases v with
  | object fields =>
    have hobject : ∃ fs, Value.object fields = .object fs := ⟨fields, rfl⟩
    generalize hr : entryOf position (.object fields) = result
    unfold entryOf at hr
    dsimp only at hr
    split at hr
    · rename_i hblank
      exact .inl ⟨_, .noLabel hobject (Text.strip_eq_nil_iff.1 hblank), hr.symm⟩
    · rename_i hlabel
      rw [Text.strip_eq_nil_iff] at hlabel
      split at hr
      · rename_i hnone
        exact .inl ⟨_, .unknownCategory hobject hlabel (Category.ofName?_eq_none_iff.1 hnone),
          hr.symm⟩
      · rename_i k hsome
        have hcategory : k.name = categoryOf (.object fields) := Category.name_of_ofName? hsome
        split at hr
        · rename_i fault hparse
          exact .inr (.inl ⟨fault, hparse, hr.symm⟩)
        · rename_i template hparse
          split at hr
          · rename_i index defaults hconflict
            obtain ⟨hdisagrees, rfl⟩ := Template.conflict?_eq_some hconflict
            refine .inl ⟨_, .conflictingDefaults hobject hlabel ⟨k, hcategory⟩ hparse hdisagrees ?_,
              hr.symm⟩
            simp [Template.mem_defaultsOf, Template.slotsOf, and_assoc]
          · rename_i hconflict
            have hagree := Template.conflict?_eq_none_iff.1 hconflict
            refine .inr (.inr ⟨_, ?_, hr.symm⟩)
            refine ⟨?_, rfl, hcategory, hparse, rfl, rfl, rfl⟩
            rintro (hno | hblank | hunknown | ⟨t, index, ht, hdisagrees⟩)
            · exact hno fields rfl
            · exact hlabel hblank
            · exact hunknown k hcategory
            · cases hparse.symm.trans ht
              exact hagree index hdisagrees
  | _ => exact .inl ⟨_, .notObject (by simp), rfl⟩

theorem isEntryOf_of_entryOf {position : ℕ} {v : Value} {e : Entry}
    (h : entryOf position v = .ok e) : IsEntryOf v e := by
  obtain ⟨_, -, herror⟩ | ⟨_, -, herror⟩ | ⟨e', hentry, hok⟩ := entryOf_cases position v
  · cases h.symm.trans herror
  · cases h.symm.trans herror
  · cases h.symm.trans hok
    exact hentry

theorem entriesOf_cons (position : ℕ) (v : Value) (rest : List Value) :
    entriesOf position (v :: rest) = match entryOf position v with
      | .error failure => .error failure
      | .ok e => (entriesOf (position + 1) rest).map (e :: ·) := rfl

theorem forall₂_of_entriesOf : ∀ {raw : List Value} {position : ℕ} {entries : List Entry},
    entriesOf position raw = .ok entries → List.Forall₂ IsEntryOf raw entries
  | [], position, entries, h => by
    cases h
    exact .nil
  | v :: rest, position, entries, h => by
    rw [entriesOf_cons] at h
    split at h
    · cases h
    · rename_i e he
      cases hmore : entriesOf (position + 1) rest with
      | error failure =>
        rw [hmore] at h
        cases h
      | ok more =>
        rw [hmore] at h
        cases h
        exact .cons (isEntryOf_of_entryOf he) (forall₂_of_entriesOf hmore)

theorem repeated?_cons (label : Text) (rest seen : List Text) : repeated? seen (label :: rest) =
    if Text.isAmong label seen then some label else repeated? (label :: seen) rest := rfl

theorem repeated?_eq_none_iff : ∀ {labels seen : List Text},
    repeated? seen labels = none ↔ labels.Nodup ∧ ∀ l ∈ labels, l ∉ seen
  | [], seen => by simp [repeated?]
  | label :: rest, seen => by
    rw [repeated?_cons, List.nodup_cons, List.forall_mem_cons]
    split
    · rename_i hseen
      simp [Text.isAmong_iff.1 hseen]
    · rename_i hnew
      rw [Text.isAmong_iff] at hnew
      rw [repeated?_eq_none_iff]
      constructor
      · rintro ⟨hnodup, hall⟩
        refine ⟨⟨fun hmem => hall label hmem List.mem_cons_self, hnodup⟩, hnew, fun l hl hs => ?_⟩
        exact hall l hl (List.mem_cons_of_mem _ hs)
      · rintro ⟨⟨hlabel, hnodup⟩, -, hall⟩
        refine ⟨hnodup, fun l hl hmem => ?_⟩
        rcases List.mem_cons.1 hmem with rfl | hs
        · exact hlabel hl
        · exact hall l hl hs

theorem map_label_of_forall₂ : ∀ {raw : List Value} {entries : List Entry},
    List.Forall₂ IsEntryOf raw entries → entries.map (·.label) = raw.map labelOf
  | _, _, .nil => rfl
  | _, _, .cons hentry hrest => by
    rw [List.map_cons, List.map_cons, hentry.label, map_label_of_forall₂ hrest]

theorem exists_of_mem_entries : ∀ {raw : List Value} {entries : List Entry},
    List.Forall₂ IsEntryOf raw entries → ∀ e ∈ entries, ∃ v ∈ raw, IsEntryOf v e
  | _, _, .nil, e, he => by cases he
  | _, _, .cons (a := v) hentry hrest, e, he => by
    rcases List.mem_cons.1 he with rfl | he
    · exact ⟨v, List.mem_cons_self, hentry⟩
    · obtain ⟨w, hw, hwe⟩ := exists_of_mem_entries hrest e he
      exact ⟨w, List.mem_cons_of_mem _ hw, hwe⟩

theorem build_ok {raw : List Value} {c : Catalog} (h : build raw = .ok c) :
    List.Forall₂ IsEntryOf raw c.entries ∧ c.labels.Nodup := by
  unfold build at h
  split at h
  · cases h
  · rename_i entries hentries
    split at h
    · cases h
    · rename_i hnone
      cases h
      exact ⟨forall₂_of_entriesOf hentries, (repeated?_eq_none_iff.1 hnone).1⟩

theorem labels_of_build {raw : List Value} {c : Catalog} (h : build raw = .ok c) :
    c.labels = raw.map labelOf :=
  map_label_of_forall₂ (build_ok h).1

def sampleEntry (label template : Text) : Value := .object [
  ("label", .str label), ("category", .str "type"), ("template", .str template)]

/-- Each slot of a template shows what its number stands for: the value that is given, else the
default that its slots declare, on which they agree, else nothing. All other text stays. -/
theorem plainText_woven {raw : List Value} {c : Catalog} (hbuild : build raw = .ok c) {e : Entry}
    (he : e ∈ c.entries) (values : ℕ → Option Value) :
    Template.parse e.template.text = .ok e.template
    ∧ (∀ s ∈ e.template.slots, ∀ s' ∈ e.template.slots, s.index = s'.index →
      s.default ≠ [] → s'.default ≠ [] → s.default = s'.default)
    ∧ ∃ fill : ℕ → Text,
      Template.Woven fill 0 e.template.slots e.template.text
        (e.template.plainText fun i => (values i).map Value.text)
      ∧ (∀ i v, values i = some v → fill i = v.text)
      ∧ (∀ i, values i = none → ∀ s ∈ e.template.slots, s.index = i → s.default ≠ [] →
        fill i = s.default)
      ∧ (∀ i, values i = none → (∀ s ∈ e.template.slots, s.index = i → s.default = []) →
        fill i = []) := by
  obtain ⟨v, -, hentry⟩ := exists_of_mem_entries (build_ok hbuild).1 e he
  have hparse : Template.parse e.template.text = .ok e.template := by
    rw [(Template.parse_ok hentry.template).1]
    exact hentry.template
  have hagree : ∀ index, ¬ e.template.Disagrees index := fun index hdisagrees =>
    hentry.sound (.inr (.inr (.inr ⟨_, index, hentry.template, hdisagrees⟩)))
  refine ⟨hparse, ?_, fun i => ((values i).map Value.text).getD (e.template.defaultFor i),
    ?_, ?_, ?_, ?_⟩
  · intro s hs s' hs' hindex hd hd'
    by_contra hne
    exact hagree _ ⟨s, hs, s', hs', rfl, hindex.symm, hd, hd', hne⟩
  · exact Template.woven_fillFrom e.template.text _ (Template.inOrder_parse hparse)
  · intro i v hv
    simp [hv]
  · rintro _ hnone s hs rfl hd
    simpa [hnone] using Template.defaultFor_eq hagree hs hd
  · intro i hnone hempty
    simpa [hnone] using Template.defaultFor_eq_nil hempty

/-- A slot without a default shows the one that a later slot declares. -/
theorem plainText_woven_later_default :
    ∃ c e fill, build [sampleEntry "x" "$1 = $\x7b1:i\x7d"] = .ok c ∧ e ∈ c.entries
      ∧ Template.Woven fill 0 e.template.slots "$1 = $\x7b1:i\x7d" "i = i" ∧ fill 1 = "i" := by
  cases hbuild : build [sampleEntry "x" "$1 = $\x7b1:i\x7d"] with
  | error failure =>
    have hok : (build [sampleEntry "x" "$1 = $\x7b1:i\x7d"]).toOption.isSome := by decide +kernel
    rw [hbuild] at hok
    cases hok
  | ok c =>
    obtain ⟨e, rest, hentry, -, hentries⟩ := List.forall₂_cons_left_iff.1 (build_ok hbuild).1
    have he : e ∈ c.entries := by simp [hentries]
    have hslots : Template.parse "$1 = $\x7b1:i\x7d"
      = .ok ⟨"$1 = $\x7b1:i\x7d", [⟨1, [], 0, 2⟩, ⟨1, "i", 5, 11⟩]⟩ := rfl
    have htemplate := Except.ok.inj (hslots.symm.trans hentry.template)
    obtain ⟨-, -, fill, hwoven, -, hdefault, -⟩ := plainText_woven hbuild he fun _ => none
    rw [← htemplate] at hwoven hdefault
    refine ⟨c, e, fill, rfl, he, ?_, hdefault 1 rfl ⟨1, "i", 5, 11⟩ (by simp) rfl (by decide)⟩
    rw [← htemplate]
    exact hwoven

end Catalog

end DhrWorkbench
