import DhrWorkbench.Completion
import DhrWorkbench.Help
import DhrWorkbench.Proofs.Words
import Mathlib.Data.List.Perm.Basic

/-!
# What a catalog shows

A catalog is shown in five ways: by label, as documentation, as candidates for completion, by
category and on the help page. All of them show the entries that it was built from, each exactly
once (`surfaces_agree`): a label leads to the one entry that has it, every entry is a candidate
whose plain text is that of its template read anew, and every entry is of one category, so it has
one line on the help page, in the section of that category.
-/

namespace DhrWorkbench

/-- Sorting by a key that takes only the given values loses nothing. -/
theorem flatMap_filter_perm {α κ : Type} [DecidableEq κ] (key : α → κ) :
    ∀ {keys : List κ}, keys.Nodup → ∀ (l : List α), (∀ a ∈ l, key a ∈ keys) →
      (keys.flatMap fun k => l.filter (key · = k)).Perm l
  | [], _, l, hall => by
    obtain rfl : l = [] := List.eq_nil_iff_forall_not_mem.2 fun a ha => by simpa using hall a ha
    simp
  | k :: keys, hnodup, l, hall => by
    rw [List.nodup_cons] at hnodup
    have hrest : (keys.flatMap fun k' => l.filter (key · = k'))
        = keys.flatMap fun k' => (l.filter (key · ≠ k)).filter (key · = k') := by
      refine List.flatMap_congr fun k' hk' => ?_
      have hne : k' ≠ k := fun h => hnodup.1 (h ▸ hk')
      rw [List.filter_filter]
      refine List.filter_congr fun a _ => ?_
      by_cases ha : key a = k' <;> simp [ha, hne]
    have hothers := flatMap_filter_perm key hnodup.2 (l.filter (key · ≠ k)) fun a ha => by
      obtain ⟨hmem, hne⟩ := List.mem_filter.1 ha
      simpa [show key a ≠ k by simpa using hne] using hall a hmem
    rw [List.flatMap_cons, hrest]
    refine (hothers.append_left _).trans ?_
    simpa using List.filter_append_perm (key · = k) l

namespace Help

/-- Whether a line is that of a construct. -/
def isBullet (line : Text) : Bool := (Text.ofString "- `").isPrefixOf line

theorem isBullet_bullet (e : Entry) : isBullet (bullet e) := by
  simp [isBullet, bullet, List.append_assoc]

theorem filter_heading (k : Category) : (heading (title k)).filter isBullet = [] := by
  cases k <;> decide

/-- The lines of constructs in a section are those of its category, in their order. -/
theorem filter_sectionOf (c : Catalog) (k : Category) :
    (sectionOf c k).filter isBullet = (c.ofCategory k).map bullet := by
  have hbullets : ∀ entries : List Entry, (entries.map bullet).filter isBullet
      = entries.map bullet := fun entries => by
    simp [List.filter_eq_self, isBullet_bullet]
  unfold sectionOf
  split
  · rename_i hnone
    simp [hnone]
  · have hblank : isBullet [] = false := by decide
    rw [List.filter_append, List.filter_append, filter_heading, hbullets]
    simp [hblank]

theorem filter_lines (c : Catalog) :
    (lines c).filter isBullet = Category.all.flatMap fun k => (c.ofCategory k).map bullet := by
  have hopening : opening.filter isBullet = [] := by decide
  have hclosing : closing.filter isBullet = [] := by
    unfold closing heading exampleProgram firstSteps shortcuts fence isBullet
    repeat rw [Text.ofString_ofList]
    decide
  rw [lines, List.filter_append, List.filter_append, hopening, hclosing, List.filter_flatMap]
  simp [filter_sectionOf]

end Help

namespace Catalog

theorem ofCategory_perm (c : Catalog) : (Category.all.flatMap c.ofCategory).Perm c.entries := by
  refine flatMap_filter_perm Entry.category (by decide) c.entries fun e _ => ?_
  cases e.category <;> decide

theorem lookup_eq_none {c : Catalog} {label : Text} (h : label ∉ c.labels) :
    c.lookup label = none := by
  simpa [lookup, labels] using h

/-- All that a catalog shows is of the entries it was built from, each once. -/
theorem surfaces_agree {raw : List Value} {c : Catalog} (hbuild : build raw = .ok c) :
    c.labels.Nodup
    ∧ (∀ label ∈ c.labels, ∃ e ∈ c.entries, c.lookup label = some e ∧ c.hover label = some e.card
      ∧ e.label = label ∧ ∀ e' ∈ c.entries, e'.label = label → e' = e)
    ∧ (∀ label, label ∉ c.labels → c.lookup label = none ∧ c.hover label = none)
    ∧ (∀ context, List.Forall₂ (fun e candidate => candidate.label = e.label
        ∧ candidate.plainText = e.template.plain
        ∧ ∃ t, Template.parse candidate.insertText = .ok t ∧ t.plain = candidate.plainText)
      c.entries (c.complete context))
    ∧ (∀ k, (c.ofCategory k).Sublist c.entries ∧ ∀ e ∈ c.ofCategory k, e.category = k)
    ∧ (Category.all.flatMap c.ofCategory).Perm c.entries
    ∧ Help.lines c = Help.opening ++ Category.all.flatMap (Help.sectionOf c) ++ Help.closing
    ∧ (∀ k, (Help.sectionOf c k).filter Help.isBullet = (c.ofCategory k).map Help.bullet)
    ∧ ((Help.lines c).filter Help.isBullet).Perm (c.entries.map Help.bullet) := by
  obtain ⟨hall, hnodup⟩ := build_ok hbuild
  have hread : ∀ e ∈ c.entries, Template.parse e.template.text = .ok e.template := by
    intro e he
    obtain ⟨v, -, hentry⟩ := exists_of_mem_entries hall e he
    rw [(Template.parse_ok hentry.template).1]
    exact hentry.template
  refine ⟨hnodup, ?_, ?_, ?_, ?_, c.ofCategory_perm, rfl, Help.filter_sectionOf c, ?_⟩
  · intro label hlabel
    obtain ⟨e, he, rfl⟩ := List.mem_map.1 hlabel
    refine ⟨e, he, lookup_of_mem hnodup he, hover_of_mem hnodup he, rfl, fun e' he' hsame => ?_⟩
    exact List.inj_on_of_nodup_map hnodup he' he hsame
  · intro label hlabel
    have hnone := lookup_eq_none hlabel
    exact ⟨hnone, by rw [hover, hnone]; rfl⟩
  · intro context
    rw [complete, List.forall₂_map_right_iff, List.forall₂_same]
    exact fun e he => ⟨rfl, rfl, e.template, hread e he, rfl⟩
  · intro k
    refine ⟨List.filter_sublist, fun e he => ?_⟩
    simpa using (List.mem_filter.1 he).2
  · rw [Help.filter_lines, ← List.map_flatMap]
    exact c.ofCategory_perm.map _

/-- A label of two words leads to its entry, and the page of the shipped catalog has the line of
every construct. -/
theorem surfaces_agree_shipped : build shippedEntries = .ok shipped
    ∧ (∃ e ∈ shipped.entries, shipped.lookup "नहीं तो" = some e ∧ e.label = "नहीं तो")
    ∧ ((Help.lines shipped).filter Help.isBullet).Perm (shipped.entries.map Help.bullet) := by
  have hmem : Text.ofString "नहीं तो" ∈ shipped.labels := by
    rw [labels_of_build build_shippedEntries]
    simp [shippedEntries, labelOf_rawEntry]
  obtain ⟨-, hlookup, -, -, -, -, -, -, hpage⟩ := surfaces_agree build_shippedEntries
  obtain ⟨e, he, hfound, -, hlabel, -⟩ := hlookup _ hmem
  exact ⟨build_shippedEntries, ⟨e, he, hfound, hlabel⟩, hpage⟩

end Catalog

end DhrWorkbench
