import DhrWorkbench.Proofs.Words

/-!
# The word at an offset

The word at an offset is a label of several words or a stretch of the text. The label is the first
of the catalog that occurs around the offset with an end of the text or a word break on both of its
sides (`covers_iff_touches`). Without one, the word is the stretch around the offset that has no
word break and goes as far as it can on both sides (`exists_stretch`), of which there is one only.
-/

namespace DhrWorkbench

namespace Word

variable {t label : Text} {offset i s e : ℕ}

/-! ## Occurrences of a label -/

/-- A label occurs at an offset, and each of its two ends is an end of the text or next to a word
break. -/
structure OccursAt (t label : Text) (i : ℕ) : Prop where
  inside : i + label.length ≤ t.length
  spelled : t.extract i (i + label.length) = label
  opens : i = 0 ∨ ∃ c ∈ t[i - 1]?, isBreak c
  closes : i + label.length = t.length ∨ ∃ c ∈ t[i + label.length]?, isBreak c

/-- A label has such an occurrence around the offset, which may be at one of its ends. -/
def Touches (t label : Text) (offset : ℕ) : Prop :=
  ∃ i, i ≤ offset ∧ offset ≤ i + label.length ∧ OccursAt t label i

theorem opensAt_iff : opensAt t i ↔ i = 0 ∨ ∃ c ∈ t[i - 1]?, isBreak c := by
  unfold opensAt
  split <;> simp_all

theorem closesAt_iff : closesAt t i ↔ i = t.length ∨ ∃ c ∈ t[i]?, isBreak c := by
  unfold closesAt
  split
  · rename_i c hc
    have hlt : i < t.length := (List.getElem?_eq_some_iff.1 hc).1
    simp [hc, Nat.ne_of_lt hlt]
  · simp_all

theorem extract_eq_iff_isPrefix : t.extract i (i + label.length) = label ↔ label <+: t.drop i := by
  rw [List.extract, Nat.add_sub_cancel_left, List.prefix_iff_eq_take, eq_comm]

theorem standsAt_iff_occursAt : standsAt t label i ↔ OccursAt t label i := by
  rw [standsAt, isWhole, Bool.and_eq_true, Bool.and_eq_true, List.isPrefixOf_iff_prefix,
    ← extract_eq_iff_isPrefix, opensAt_iff, closesAt_iff]
  constructor
  · rintro ⟨hspelled, hopens, hcloses⟩
    refine ⟨?_, hspelled, hopens, hcloses⟩
    rcases hcloses with hend | ⟨c, hc, -⟩
    · exact hend.le
    · exact (List.getElem?_eq_some_iff.1 hc).1.le
  · intro h
    exact ⟨h.spelled, h.opens, h.closes⟩

/-- The window in which the search begins leaves no occurrence out that reaches the offset. -/
theorem covers_iff_touches : covers t label offset ↔ Touches t label offset := by
  rw [covers, coversFrom_iff]
  simp only [standsAt_iff_occursAt]
  constructor
  · rintro ⟨i, -, hi⟩
    exact ⟨i, hi⟩
  · rintro ⟨i, hi, hend, hoccurs⟩
    exact ⟨i, by omega, hi, hend, hoccurs⟩

/-! ## Stretches without word breaks -/

/-- A stretch around an offset that has no word break. -/
structure IsStretch (t : Text) (offset s e : ℕ) : Prop where
  start_le : s ≤ offset
  le_stop : offset ≤ e
  inside : e ≤ t.length
  unbroken : ∀ c ∈ t.extract s e, ¬ isBreak c

/-- A stretch without word breaks that is part of no longer one. -/
structure IsMaximal (t : Text) (offset s e : ℕ) : Prop extends IsStretch t offset s e where
  maximal : ∀ s' e', IsStretch t offset s' e' → s' ≤ s → e ≤ e' → s' = s ∧ e' = e

theorem mem_extract {c : CodePoint} (hc : t[i]? = some c) (hs : s ≤ i) (he : i < e) :
    c ∈ t.extract s e := by
  refine List.mem_of_getElem? (i := i - s) ?_
  rw [List.extract, List.getElem?_take_of_lt (by omega), List.getElem?_drop,
    Nat.add_sub_cancel' hs, hc]

theorem letsEnd_dropWhile (t : Text) : LetsEnd (t.dropWhile (!isBreak ·)) :=
  fun c hc => by simpa using Text.head?_dropWhile c hc

/-- The stretches on the two sides of an offset, and what is left of the text outside of them. -/
theorem exists_sides (h : offset ≤ t.length) : ∃ before left right after,
    t = before ++ (left ++ right ++ after) ∧ offset = before.length + left.length
      ∧ (left ++ right).all (!isBreak ·) ∧ LetsBegin before ∧ LetsEnd after := by
  refine ⟨((t.take offset).reverse.dropWhile (!isBreak ·)).reverse,
    ((t.take offset).reverse.takeWhile (!isBreak ·)).reverse,
    (t.drop offset).takeWhile (!isBreak ·), (t.drop offset).dropWhile (!isBreak ·),
    ?_, ?_, ?_, ?_, letsEnd_dropWhile _⟩
  · rw [List.append_assoc, List.takeWhile_append_dropWhile, ← List.append_assoc,
      ← List.reverse_append, List.takeWhile_append_dropWhile, List.reverse_reverse,
      List.take_append_drop]
  · rw [← List.length_append, ← List.reverse_append, List.takeWhile_append_dropWhile]
    simp [h]
  · rw [List.all_append, List.all_reverse, List.all_takeWhile, List.all_takeWhile]
    rfl
  · intro c hc
    rw [List.getLast?_reverse] at hc
    exact letsEnd_dropWhile _ c hc

/-- Between word breaks or ends of the text, a stretch without word breaks goes no further. -/
theorem IsStretch.within {before word after : Text} (hbefore : LetsBegin before)
    (hafter : LetsEnd after) (hfrom : before.length ≤ offset)
    (hto : offset ≤ before.length + word.length)
    (h : IsStretch (before ++ (word ++ after)) offset s e) :
    before.length ≤ s ∧ e ≤ before.length + word.length := by
  have hstart := h.start_le
  have hstop := h.le_stop
  have hinside := h.inside
  constructor
  · -- A stretch that began earlier would have the last code point before the word in it.
    by_contra hlt
    rcases List.eq_nil_or_concat before with rfl | ⟨init, c, rfl⟩
    · simp at hlt
    · simp only [List.concat_eq_append, List.length_append, List.length_singleton] at hlt hfrom
      exact h.unbroken c (mem_extract (i := init.length) (by simp) (by omega) (by omega))
        (hbefore c (by simp))
  · by_contra hlt
    rcases after with _ | ⟨c, rest⟩
    · simp only [List.append_nil, List.length_append] at hinside
      omega
    · exact h.unbroken c (mem_extract (i := before.length + word.length) (by simp) (by omega)
        (by omega)) (hafter c rfl)

/-- The word around an offset is a stretch without word breaks that holds all others. -/
theorem exists_stretch (h : offset ≤ t.length) : ∃ s e, IsStretch t offset s e
    ∧ around t offset = t.extract s e
    ∧ ∀ s' e', IsStretch t offset s' e' → s ≤ s' ∧ e' ≤ e := by
  obtain ⟨before, left, right, after, rfl, rfl, hplain, hbefore, hafter⟩ := exists_sides h
  have hslice : (before ++ (left ++ right ++ after)).extract before.length
      (before.length + (left ++ right).length) = left ++ right := by
    rw [extract_eq_iff_isPrefix, List.drop_left]
    exact List.prefix_append _ _
  have hto : before.length + left.length ≤ before.length + (left ++ right).length := by simp
  refine ⟨before.length, before.length + (left ++ right).length, ⟨by omega, hto, ?_, ?_⟩, ?_,
    fun s' e' => IsStretch.within hbefore hafter (by omega) hto⟩
  · simp only [List.length_append]
    omega
  · rw [hslice]
    exact fun c hc => by simpa using List.all_eq_true.1 hplain c hc
  · rw [hslice, around_append hbefore hafter (by simp), around_of_plain hplain]

/-- There is one longest stretch without word breaks around an offset, and the word is that. -/
theorem exists_maximal (h : offset ≤ t.length) : ∃ s e, IsMaximal t offset s e
    ∧ around t offset = t.extract s e
    ∧ ∀ s' e', IsMaximal t offset s' e' → s' = s ∧ e' = e := by
  obtain ⟨s, e, hstretch, haround, hall⟩ := exists_stretch h
  refine ⟨s, e, ⟨hstretch, fun s' e' h' hs he => ?_⟩, haround, fun s' e' h' => ?_⟩
  · have hwithin := hall s' e' h'
    omega
  · have hwithin := hall s' e' h'.toIsStretch
    have hsame := h'.maximal s e hstretch hwithin.1 hwithin.2
    omega

end Word

namespace Catalog

/-- The word at an offset is the first label of several words that touches it, or else the stretch
around it. -/
theorem wordAt_cases (c : Catalog) (t : Text) (offset : ℤ) {pos : ℕ}
    (hpos : pos = min offset.toNat t.length) :
    (∃ earlier label later, c.labels = earlier ++ label :: later ∧ IsMultiWord label
      ∧ Word.Touches t label pos
      ∧ (∀ other ∈ earlier, IsMultiWord other → ¬ Word.Touches t other pos)
      ∧ c.wordAt t offset = label)
    ∨ ((∀ label ∈ c.labels, IsMultiWord label → ¬ Word.Touches t label pos)
      ∧ c.wordAt t offset = Word.around t pos) := by
  have hwordAt : c.wordAt t offset
      = ((c.multiWordLabels.find? fun label => Word.covers t label pos).getD
        (Word.around t pos)) := by
    unfold wordAt
    rw [← hpos]
    dsimp only
    cases c.multiWordLabels.find? _ <;> rfl
  have hmeets : ∀ label, (IsMultiWord label ∧ Word.covers t label pos)
      ↔ IsMultiWord label ∧ Word.Touches t label pos :=
    fun label => and_congr_right fun _ => Word.covers_iff_touches
  rw [hwordAt, multiWordLabels, List.find?_filter]
  cases hfind : c.labels.find? _ with
  | none =>
    refine .inr ⟨fun label hlabel hwords htouches => ?_, rfl⟩
    exact List.find?_eq_none.1 hfind label hlabel
      (decide_eq_true ((hmeets label).2 ⟨hwords, htouches⟩))
  | some label =>
    obtain ⟨hmeet, earlier, later, hlabels, hearlier⟩ := List.find?_eq_some_iff_append.1 hfind
    obtain ⟨hwords, htouches⟩ := (hmeets label).1 (of_decide_eq_true hmeet)
    refine .inl ⟨earlier, label, later, hlabels, hwords, htouches, ?_, rfl⟩
    intro other hother hmulti htouch
    have hnot := hearlier other hother
    rw [Bool.not_eq_true', decide_eq_false_iff_not] at hnot
    exact hnot ((hmeets other).2 ⟨hmulti, htouch⟩)

theorem wordAt_nil (c : Catalog) (offset : ℤ) : c.wordAt [] offset = [] := by
  obtain ⟨_, label, _, _, hwords, ⟨i, _, _, hoccurs⟩, _, hword⟩ | ⟨_, hword⟩ :=
    c.wordAt_cases [] offset rfl
  · have hinside := hoccurs.inside
    rw [hword, ← List.length_eq_zero_iff]
    simp only [List.length_nil] at hinside
    omega
  · simp [hword, Word.around]

/-- The word at an offset is the first label of several words that touches it as a whole word, and
else the one stretch of the text around it that has no word break and is part of no longer one. -/
theorem wordAt_exact (c : Catalog) (t : Text) (offset : ℤ) :
    ∃ pos : ℕ, (pos : ℤ) = max 0 (min offset t.length)
      ∧ c.wordAtValue t (.int offset) = .ok (c.wordAt t offset)
      ∧ ((∃ earlier label later, c.labels = earlier ++ label :: later ∧ IsMultiWord label
          ∧ Word.Touches t label pos
          ∧ (∀ other ∈ earlier, IsMultiWord other → ¬ Word.Touches t other pos)
          ∧ c.wordAt t offset = label)
        ∨ ((∀ label ∈ c.labels, IsMultiWord label → ¬ Word.Touches t label pos)
          ∧ ∃ s e, Word.IsMaximal t pos s e
            ∧ (∀ s' e', Word.IsMaximal t pos s' e' → s' = s ∧ e' = e)
            ∧ c.wordAt t offset = t.extract s e)) := by
  refine ⟨min offset.toNat t.length, by omega, ?_, ?_⟩
  · unfold wordAtValue
    split_ifs with hempty
    · rw [List.isEmpty_iff.1 hempty, wordAt_nil]
    · rfl
  · refine (c.wordAt_cases t offset rfl).imp_right ?_
    rintro ⟨hnone, hword⟩
    refine ⟨hnone, ?_⟩
    obtain ⟨s, e, hmaximal, haround, hunique⟩ := Word.exists_maximal (Nat.min_le_right _ t.length)
    exact ⟨s, e, hmaximal, hunique, hword.trans haround⟩

end Catalog

end DhrWorkbench
