import DhrWorkbench.Template
import Mathlib.Data.List.Basic

/-!
# Slots of a template

The slots that reading a text finds stand in it one behind the other and do not overlap
(`inOrder_scan`), so filling them keeps all text between them (`woven_fillFrom`). A text is read
unless the number of one of its slots has too many digits (`exists_parse_iff`), and refused for
these digits (`parse_error`).

Slots of one number disagree when they declare different defaults. No conflict is found exactly
when none do (`conflict?_eq_none_iff`), and then a slot number stands for the default that any of
its slots declares.
-/

namespace DhrWorkbench

theorem Text.head?_dropWhile {p : CodePoint → Bool} {t : Text} :
    ∀ c ∈ (t.dropWhile p).head?, ¬ p c := by
  intro c hc
  have hstop := List.head?_dropWhile_not p t
  rw [Option.mem_def.1 hc] at hstop
  simp [hstop]

namespace Template

/-! ## Where slots stand -/

theorem length_of_braced? {t : Text} {found : Spelling} (h : braced? t = some found) :
    0 < found.length ∧ found.length ≤ t.length + 2 := by
  have hsplit : (t.takeWhile Text.isDigit).length + (t.dropWhile Text.isDigit).length
      = t.length := by
    rw [← List.length_append, List.takeWhile_append_dropWhile]
  unfold braced? at h
  dsimp only at h
  split at h
  · cases h
  · split at h
    · cases h
    · rename_i c rest htail
      rw [htail, List.length_cons] at hsplit
      split_ifs at h with hclose hcolon hdefault
      · cases h
        dsimp only
        omega
      · cases h
        dsimp only
        omega

theorem length_of_bare? {t : Text} {found : Spelling} (h : bare? t = some found) :
    0 < found.length ∧ found.length ≤ t.length + 1 := by
  have hle := (List.takeWhile_prefix Text.isDigit (l := t)).length_le
  unfold bare? at h
  dsimp only at h
  split at h
  · cases h
  · cases h
    dsimp only
    omega

/-- A slot is spelled by at least one code point of the text that starts with it. -/
theorem length_of_slotAt? {t : Text} {found : Spelling} (h : slotAt? t = some found) :
    0 < found.length ∧ found.length ≤ t.length := by
  unfold slotAt? at h
  split at h
  · cases h
  · split at h
    · cases h
    · split at h
      · cases h
      · split at h
        · exact length_of_braced? h
        · exact length_of_bare? h

/-- Slots from `position` on, each behind the one before it and none beyond `limit`. -/
def InOrder (limit : ℕ) : (position : ℕ) → List Slot → Prop
  | position, [] => position ≤ limit
  | position, s :: rest => position ≤ s.start ∧ s.start < s.stop ∧ InOrder limit s.stop rest

theorem InOrder.mono {limit p q : ℕ} (hqp : q ≤ p) : ∀ {slots : List Slot},
    InOrder limit p slots → InOrder limit q slots
  | [], h => Nat.le_trans hqp h
  | _ :: _, ⟨hstart, hstop⟩ => ⟨Nat.le_trans hqp hstart, hstop⟩

theorem InOrder.le {limit : ℕ} : ∀ {slots : List Slot} {p : ℕ}, InOrder limit p slots → p ≤ limit
  | [], _, h => h
  | _ :: _, _, ⟨hstart, hstop, hrest⟩ => by
    have := hrest.le
    omega

/-- What scanning on behind a slot gives, when the number of the slot is read. -/
theorem scan_cons_ok {position : ℕ} {c : CodePoint} {rest : Text} {slots : List Slot}
    (h : scan position 0 (c :: rest) = .ok slots) :
    (slotAt? (c :: rest) = none ∧ scan (position + 1) 0 rest = .ok slots)
    ∨ ∃ found index more, slotAt? (c :: rest) = some found
      ∧ Text.natOfDigits found.digits = .ok index
      ∧ scan (position + 1) (found.length - 1) rest = .ok more
      ∧ slots = ⟨index, found.default, position, position + found.length⟩ :: more := by
  rw [scan] at h
  split at h
  · rename_i hnone
    exact .inl ⟨hnone, h⟩
  · rename_i found hfound
    split at h
    · cases h
    · rename_i index hindex
      cases hmore : scan (position + 1) (found.length - 1) rest with
      | error fault =>
        rw [hmore] at h
        cases h
      | ok more =>
        rw [hmore] at h
        cases h
        exact .inr ⟨found, index, more, hfound, hindex, hmore, rfl⟩

theorem inOrder_scan : ∀ {t : Text} {position skip : ℕ} {slots : List Slot}, skip ≤ t.length →
    scan position skip t = .ok slots → InOrder (position + t.length) (position + skip) slots
  | [], position, skip, slots, hskip, h => by
    rw [scan] at h
    cases h
    exact Nat.add_le_add_left hskip position
  | c :: rest, position, skip + 1, slots, hskip, h => by
    rw [scan] at h
    have ih := inOrder_scan (Nat.le_of_succ_le_succ hskip) h
    rw [List.length_cons]
    rwa [Nat.add_right_comm, Nat.add_assoc, Nat.add_right_comm, Nat.add_assoc] at ih
  | c :: rest, position, 0, slots, _, h => by
    rw [List.length_cons]
    obtain ⟨-, hscan⟩ | ⟨found, index, more, hfound, -, hscan, rfl⟩ := scan_cons_ok h
    · have ih := inOrder_scan (Nat.zero_le _) hscan
      rw [Nat.add_right_comm, Nat.add_assoc] at ih
      exact ih.mono (by omega)
    · obtain ⟨hpos, hle⟩ := length_of_slotAt? hfound
      rw [List.length_cons] at hle
      have ih := inOrder_scan (by omega) hscan
      have hstop : position + 1 + (found.length - 1) = position + found.length := by omega
      rw [hstop, Nat.add_right_comm, Nat.add_assoc] at ih
      exact ⟨Nat.le_refl _, by dsimp only; omega, ih⟩

theorem parse_ok {t : Text} {template : Template} (h : parse t = .ok template) :
    template.text = t ∧ scan 0 0 t = .ok template.slots := by
  unfold parse at h
  cases hscan : scan 0 0 t with
  | error fault =>
    rw [hscan] at h
    cases h
  | ok slots =>
    rw [hscan] at h
    cases h
    exact ⟨rfl, rfl⟩

theorem inOrder_parse {t : Text} {template : Template} (h : parse t = .ok template) :
    InOrder template.text.length 0 template.slots := by
  obtain ⟨htext, hscan⟩ := parse_ok h
  have horder := inOrder_scan (Nat.zero_le _) hscan
  rwa [Nat.zero_add, Nat.zero_add, ← htext] at horder

/-! ## Filling slots -/

/-- A text with slots and the same text with each slot replaced by what its number stands for. The
text before, between and behind the slots is the same in both. -/
inductive Woven (fill : ℕ → Text) : (position : ℕ) → List Slot → Text → Text → Prop
  | tail (position : ℕ) (t : Text) : Woven fill position [] t t
  | slot {position : ℕ} {s : Slot} {rest : List Slot} {gap slice source filled : Text}
    (start : s.start = position + gap.length) (stop : s.stop = s.start + slice.length)
    (spelled : slice ≠ []) (woven : Woven fill s.stop rest source filled) :
    Woven fill position (s :: rest) (gap ++ (slice ++ source)) (gap ++ (fill s.index ++ filled))

theorem woven_fillFrom (text : Text) (fill : ℕ → Text) : ∀ {slots : List Slot} {cursor : ℕ},
    InOrder text.length cursor slots →
    Woven fill cursor slots (text.drop cursor) (fillFrom text fill cursor slots)
  | [], cursor, _ => .tail cursor _
  | s :: rest, cursor, ⟨hstart, hstop, hrest⟩ => by
    have hlimit := hrest.le
    have hgap : ((text.drop cursor).take (s.start - cursor)).length = s.start - cursor := by
      simp
      omega
    have hslice : ((text.drop s.start).take (s.stop - s.start)).length = s.stop - s.start := by
      simp
      omega
    have hsource : text.drop cursor = (text.drop cursor).take (s.start - cursor)
        ++ ((text.drop s.start).take (s.stop - s.start) ++ text.drop s.stop) := by
      have hfirst : text.drop s.start = (text.drop cursor).drop (s.start - cursor) := by
        rw [List.drop_drop, Nat.add_sub_cancel' hstart]
      have hsecond : text.drop s.stop = (text.drop s.start).drop (s.stop - s.start) := by
        rw [List.drop_drop, Nat.add_sub_cancel' (Nat.le_of_lt hstop)]
      rw [hsecond, List.take_append_drop, hfirst, List.take_append_drop]
    have hslot : Woven fill cursor (s :: rest) ((text.drop cursor).take (s.start - cursor)
        ++ ((text.drop s.start).take (s.stop - s.start) ++ text.drop s.stop))
        ((text.drop cursor).take (s.start - cursor)
          ++ (fill s.index ++ fillFrom text fill s.stop rest)) := by
      refine .slot (by omega) (by omega) ?_ (woven_fillFrom text fill hrest)
      rw [← List.length_pos_iff, hslice]
      omega
    rwa [← hsource, ← List.append_assoc] at hslot

/-! ## Numbers that are too long -/

/-- The slots of a text as they are spelled, from the left; the first `skip` code points belong to
a slot already found. -/
def spellings : (skip : ℕ) → Text → List Spelling
  | _, [] => []
  | skip + 1, _ :: rest => spellings skip rest
  | 0, c :: rest =>
    match slotAt? (c :: rest) with
    | none => spellings 0 rest
    | some found => found :: spellings (found.length - 1) rest

/-- The slots of a text are read unless the number of one has too many digits. -/
theorem exists_scan_iff : ∀ (t : Text) (position skip : ℕ),
    (∃ slots, scan position skip t = .ok slots)
      ↔ ∀ found ∈ spellings skip t, found.digits.length ≤ Text.digitLimit
  | [], position, skip => by simp [scan, spellings]
  | c :: rest, position, skip + 1 => by
    rw [scan, spellings]
    exact exists_scan_iff rest (position + 1) skip
  | c :: rest, position, 0 => by
    rw [scan, spellings]
    cases hfound : slotAt? (c :: rest) with
    | none => exact exists_scan_iff rest (position + 1) 0
    | some found =>
      have ih := exists_scan_iff rest (position + 1) (found.length - 1)
      rw [List.forall_mem_cons, ← ih]
      dsimp only
      by_cases hlong : Text.digitLimit < found.digits.length
      · simp [Text.natOfDigits, hlong, Nat.not_le.2 hlong]
      · cases hscan : scan (position + 1) (found.length - 1) rest <;>
          simp [Text.natOfDigits, hlong, Nat.not_lt.1 hlong, Except.map]

theorem exists_parse_iff (t : Text) : (∃ template, parse t = .ok template)
    ↔ ∀ found ∈ spellings 0 t, found.digits.length ≤ Text.digitLimit := by
  rw [← exists_scan_iff t 0 0, parse]
  cases scan 0 0 t <;> simp [Except.map]

/-- A text is refused for the digits of one of its slots. -/
theorem scan_error : ∀ {t : Text} {position skip : ℕ} {fault : IntegerFault},
    scan position skip t = .error fault →
    ∃ found ∈ spellings skip t, Text.digitLimit < found.digits.length
      ∧ fault = .tooLong found.digits.length
  | [], position, skip, fault, h => by
    rw [scan] at h
    cases h
  | c :: rest, position, skip + 1, fault, h => by
    rw [scan] at h
    rw [spellings]
    exact scan_error h
  | c :: rest, position, 0, fault, h => by
    rw [scan] at h
    rw [spellings]
    cases hfound : slotAt? (c :: rest) with
    | none =>
      rw [hfound] at h
      exact scan_error h
    | some found =>
      rw [hfound] at h
      by_cases hlong : Text.digitLimit < found.digits.length
      · simp only [Text.natOfDigits, if_pos hlong] at h
        exact ⟨found, List.mem_cons_self, hlong, (Except.error.inj h).symm⟩
      · simp only [Text.natOfDigits, if_neg hlong] at h
        cases hscan : scan (position + 1) (found.length - 1) rest with
        | error other =>
          rw [hscan] at h
          obtain ⟨k, hk, hdigits, rfl⟩ := scan_error hscan
          exact ⟨k, List.mem_cons_of_mem _ hk, hdigits, (Except.error.inj h).symm⟩
        | ok slots =>
          rw [hscan] at h
          cases h

theorem parse_error {t : Text} {fault : IntegerFault} (h : parse t = .error fault) :
    ∃ found ∈ spellings 0 t, Text.digitLimit < found.digits.length
      ∧ fault = .tooLong found.digits.length := by
  rw [parse] at h
  cases hscan : scan 0 0 t with
  | ok slots =>
    rw [hscan] at h
    cases h
  | error other =>
    rw [hscan] at h
    cases h
    exact scan_error hscan

/-! ## Defaults of linked slots -/

/-- Two slots of a number declare different defaults. -/
def Disagrees (t : Template) (index : ℕ) : Prop :=
  ∃ s ∈ t.slots, ∃ s' ∈ t.slots, s.index = index ∧ s'.index = index
    ∧ s.default ≠ [] ∧ s'.default ≠ [] ∧ s.default ≠ s'.default

theorem mem_slotIndexes {t : Template} {index : ℕ} :
    index ∈ t.slotIndexes ↔ ∃ s ∈ t.slots, s.index = index := by
  have hfold : ∀ (slots : List Slot) (seen : List ℕ),
      index ∈ slots.foldl (fun seen s => if s.index ∈ seen then seen else seen ++ [s.index]) seen
        ↔ index ∈ seen ∨ ∃ s ∈ slots, s.index = index := by
    intro slots
    induction slots with
    | nil => simp
    | cons s rest ih =>
      intro seen
      rw [List.foldl_cons, ih, List.exists_mem_cons_iff]
      split
      · rename_i hseen
        constructor
        · rintro (h | h)
          · exact .inl h
          · exact .inr (.inr h)
        · rintro (h | rfl | h)
          · exact .inl h
          · exact .inl hseen
          · exact .inr h
      · rw [List.mem_append, List.mem_singleton, or_assoc, @eq_comm _ index]
  unfold slotIndexes
  rw [hfold]
  simp

theorem mem_defaultsOf {group : List Slot} {d : Text} :
    d ∈ defaultsOf group ↔ d ≠ [] ∧ ∃ s ∈ group, s.default = d := by
  simp [defaultsOf, and_comm]

theorem nodup_eraseDups {α : Type} [BEq α] [LawfulBEq α] : ∀ l : List α, l.eraseDups.Nodup
  | [] => by simp
  | a :: l => by
    rw [List.eraseDups_cons, List.nodup_cons]
    refine ⟨by simp [List.mem_eraseDups], nodup_eraseDups _⟩
termination_by l => l.length
decreasing_by
  exact Nat.lt_succ_of_le (List.length_filter_le _ _)

theorem nodup_defaultsOf (group : List Slot) : (defaultsOf group).Nodup := by
  unfold defaultsOf
  exact (List.mergeSort_perm _ _).nodup_iff.2 (nodup_eraseDups _)

theorem one_lt_length_of_ne {α : Type} {a b : α} {l : List α} (ha : a ∈ l) (hb : b ∈ l)
    (hne : a ≠ b) : 1 < l.length := by
  match l with
  | [] => simp at ha
  | [c] => exact absurd ((List.mem_singleton.1 ha).trans (List.mem_singleton.1 hb).symm) hne
  | _ :: _ :: _ => simp

theorem disagrees_iff {t : Template} {index : ℕ} :
    t.Disagrees index ↔ 1 < (defaultsOf (t.slotsOf index)).length := by
  have hmem : ∀ d, d ∈ defaultsOf (t.slotsOf index)
      ↔ d ≠ [] ∧ ∃ s ∈ t.slots, s.index = index ∧ s.default = d := by
    simp [mem_defaultsOf, slotsOf, and_assoc]
  constructor
  · rintro ⟨s, hs, s', hs', hi, hi', hd, hd', hne⟩
    exact one_lt_length_of_ne ((hmem _).2 ⟨hd, s, hs, hi, rfl⟩)
      ((hmem _).2 ⟨hd', s', hs', hi', rfl⟩) hne
  · intro h
    have hnodup := nodup_defaultsOf (t.slotsOf index)
    match hds : defaultsOf (t.slotsOf index), h with
    | d :: d' :: rest, _ =>
      rw [hds, List.nodup_cons] at hnodup
      obtain ⟨hd, s, hs, hi, rfl⟩ := (hmem d).1 (by simp [hds])
      obtain ⟨hd', s', hs', hi', rfl⟩ := (hmem d').1 (by simp [hds])
      refine ⟨s, hs, s', hs', hi, hi', hd, hd', fun heq => hnodup.1 ?_⟩
      rw [heq]
      exact List.mem_cons_self

theorem mem_linked {t : Template} {index : ℕ} {group : List Slot} : (index, group) ∈ t.linked
    ↔ group = t.slotsOf index ∧ 1 < group.length := by
  unfold linked
  rw [List.mem_filter, List.mem_map, decide_eq_true_eq]
  constructor
  · rintro ⟨⟨i, -, heq⟩, hshared⟩
    obtain ⟨rfl, rfl⟩ := Prod.mk.inj heq
    exact ⟨rfl, hshared⟩
  · rintro ⟨rfl, hshared⟩
    obtain ⟨s, hs⟩ := List.exists_mem_of_length_pos (Nat.zero_lt_of_lt hshared)
    rw [slotsOf, List.mem_filter, decide_eq_true_eq] at hs
    exact ⟨⟨index, mem_slotIndexes.2 ⟨s, hs⟩, rfl⟩, hshared⟩

theorem conflict?_eq_none_iff {t : Template} :
    t.conflict? = none ↔ ∀ index, ¬ t.Disagrees index := by
  unfold conflict?
  simp only [List.find?_eq_none, List.forall_mem_map, Prod.forall, decide_eq_true_eq, mem_linked]
  constructor
  · intro h index hdisagrees
    have hlength := disagrees_iff.1 hdisagrees
    obtain ⟨s, hs, s', hs', hi, hi', -, -, hne⟩ := hdisagrees
    have hmem : ∀ r ∈ t.slots, r.index = index → r ∈ t.slotsOf index := by
      simp +contextual [slotsOf]
    have hshared : 1 < (t.slotsOf index).length :=
      one_lt_length_of_ne (hmem s hs hi) (hmem s' hs' hi') fun heq => hne (congrArg _ heq)
    exact h index _ ⟨rfl, hshared⟩ hlength
  · rintro h index group ⟨rfl, -⟩ hlength
    exact h index (disagrees_iff.2 hlength)

theorem conflict?_eq_some {t : Template} {index : ℕ} {defaults : List Text}
    (h : t.conflict? = some (index, defaults)) :
    t.Disagrees index ∧ defaults = defaultsOf (t.slotsOf index) := by
  unfold conflict? at h
  have hlength := List.find?_some h
  obtain ⟨⟨i, group⟩, hmem, heq⟩ := List.mem_map.1 (List.mem_of_find?_eq_some h)
  obtain ⟨rfl, rfl⟩ := Prod.mk.inj heq
  obtain ⟨rfl, -⟩ := mem_linked.1 hmem
  exact ⟨disagrees_iff.2 (by simpa using hlength), rfl⟩

/-- Where slots do not disagree, a number stands for the default of any of its slots with one. -/
theorem defaultFor_eq {t : Template} (h : ∀ index, ¬ t.Disagrees index) {s : Slot}
    (hs : s ∈ t.slots) (hd : s.default ≠ []) : t.defaultFor s.index = s.default := by
  unfold defaultFor
  split
  · rename_i r hfind
    have hr := List.find?_some hfind
    rw [Bool.and_eq_true, decide_eq_true_eq, Bool.not_eq_true', List.isEmpty_eq_false_iff] at hr
    by_contra hne
    exact h s.index ⟨r, List.mem_of_find?_eq_some hfind, s, hs, hr.1, rfl, hr.2, hd, hne⟩
  · rename_i hnone
    have hnot := List.find?_eq_none.1 hnone s hs
    simp [hd] at hnot

theorem defaultFor_eq_nil {t : Template} {index : ℕ}
    (h : ∀ s ∈ t.slots, s.index = index → s.default = []) : t.defaultFor index = [] := by
  unfold defaultFor
  split
  · rename_i r hfind
    have hr := List.find?_some hfind
    rw [Bool.and_eq_true, decide_eq_true_eq] at hr
    exact h r (List.mem_of_find?_eq_some hfind) hr.1
  · rfl

end Template

end DhrWorkbench
