import DhrWorkbench.Catalog.Shipped
import DhrWorkbench.Pack
import DhrWorkbench.Proofs.CatalogFaults
import DhrWorkbench.Proofs.Positions
import Mathlib.Data.List.Nodup
import Mathlib.Order.Bounds.Basic

/-!
# Whole words

A label that stands as a whole word has nothing but word breaks next to it, and the search from one
occurrence to the next misses none that covers an offset (`coversFrom_iff`). The stretch without
word breaks around an offset that it covers is then a stretch of the label alone (`around_append`),
so labels that share no such stretch never cover the same offset. In a catalog of such labels the
word at each offset of a whole label is the label (`wordAt_of_hasOwnWords`), and the shipped one is
such a catalog (`hover_whole_word`).
-/

namespace DhrWorkbench

namespace Text

/-- The code points of a literal, which evaluate faster than the literal. -/
theorem ofString_ofList (l : List Char) :
    ofString (String.ofList l) = l.map CodePoint.ofChar := by
  simp [ofString]

/-! ## Occurrences -/

variable {part t : Text} {start i : ℕ}

theorem find?_of_isPrefix (h : part <+: t.drop start) : find? part start t = some start := by
  rw [← List.isPrefixOf_iff_prefix] at h
  unfold find?
  cases hrest : t.drop start with
  | nil => simp_all [find?.go]
  | cons c rest => rw [find?.go, if_pos (hrest ▸ h)]

theorem find?_of_not_isPrefix (h : ¬ part <+: t.drop start) :
    find? part start t = find? part (start + 1) t := by
  rw [← List.isPrefixOf_iff_prefix] at h
  have htail : t.drop (start + 1) = (t.drop start).tail := by rw [List.tail_drop]
  unfold find?
  rw [htail]
  cases hrest : t.drop start with
  | nil => simp_all [find?.go]
  | cons c rest => rw [find?.go, if_neg (hrest ▸ h), List.tail_cons]

theorem isLeast_of_find? (h : find? part start t = some i) :
    IsLeast {j | start ≤ j ∧ part <+: t.drop j} i := by
  obtain ⟨n, rfl⟩ := Nat.exists_eq_add_of_le (le_of_find? h)
  induction n generalizing start with
  | zero =>
    rw [Nat.add_zero] at h ⊢
    refine ⟨⟨le_rfl, ?_⟩, fun j hj => hj.1⟩
    by_contra hnot
    rw [find?_of_not_isPrefix hnot] at h
    exact absurd (le_of_find? h) (by omega)
  | succ n ih =>
    have hnot : ¬ part <+: t.drop start := by
      intro hpart
      rw [find?_of_isPrefix hpart, Option.some.injEq] at h
      omega
    have hsum : start + (n + 1) = start + 1 + n := by omega
    rw [find?_of_not_isPrefix hnot, hsum] at h
    obtain ⟨⟨hle, hpart⟩, hleast⟩ := ih h
    rw [hsum]
    refine ⟨⟨by omega, hpart⟩, fun j hj => hleast ⟨Nat.lt_of_le_of_ne hj.1 ?_, hj.2⟩⟩
    rintro rfl
    exact hnot hj.2

theorem not_isPrefix_of_find? (h : find? part start t = none) (hi : start ≤ i) :
    ¬ part <+: t.drop i := by
  intro hpart
  obtain ⟨n, rfl⟩ := Nat.exists_eq_add_of_le hi
  induction n generalizing start with
  | zero =>
    rw [Nat.add_zero] at hpart
    simp [find?_of_isPrefix hpart] at h
  | succ n ih =>
    by_cases hstart : part <+: t.drop start
    · simp [find?_of_isPrefix hstart] at h
    · rw [find?_of_not_isPrefix hstart] at h
      have hsum : start + (n + 1) = start + 1 + n := by omega
      rw [hsum] at hpart
      exact ih h (by omega) hpart

end Text

namespace Word

/-- A word may begin behind a text. -/
def LetsBegin (t : Text) : Prop := ∀ c ∈ t.getLast?, isBreak c

/-- A word may end before a text. -/
def LetsEnd (t : Text) : Prop := ∀ c ∈ t.head?, isBreak c

/-! ## Stretches without word breaks -/

theorem takeWhile_append_of_letsEnd {s t : Text} (h : LetsEnd t) :
    (s ++ t).takeWhile (!isBreak ·) = s.takeWhile (!isBreak ·) := by
  have hstop : t.takeWhile (!isBreak ·) = [] := by
    cases t with
    | nil => rfl
    | cons c rest => simp [h c rfl]
  rw [List.takeWhile_append, hstop, List.append_nil]
  split
  · rename_i hlength
    exact ((List.takeWhile_prefix _).eq_of_length hlength).symm
  · rfl

/-- What stands outside of a whole word does not count. -/
theorem around_append {before label after : Text} (hbefore : LetsBegin before)
    (hafter : LetsEnd after) {k : ℕ} (hk : k ≤ label.length) :
    around (before ++ (label ++ after)) (before.length + k) = around label k := by
  have hreverse : LetsEnd before.reverse := by
    intro c hc
    rw [List.head?_reverse] at hc
    exact hbefore c hc
  unfold around
  rw [List.take_length_add_append, List.drop_length_add_append, List.take_append_of_le_length hk,
    List.drop_append_of_le_length hk, List.reverse_append, takeWhile_append_of_letsEnd hreverse,
    takeWhile_append_of_letsEnd hafter]

theorem around_of_plain {label : Text} (h : label.all (!isBreak ·)) (k : ℕ) :
    around label k = label := by
  rw [List.all_eq_true] at h
  unfold around
  rw [List.takeWhile_eq_self_iff.2, List.takeWhile_eq_self_iff.2, List.reverse_reverse,
    List.take_append_drop]
  · exact fun c hc => h c (List.mem_of_mem_drop hc)
  · exact fun c hc => h c (List.mem_of_mem_take (List.mem_reverse.1 hc))

/-! ## Labels that cover an offset -/

theorem opensAt_append (before rest : Text) :
    opensAt (before ++ rest) before.length ↔ LetsBegin before := by
  rcases List.eq_nil_or_concat before with rfl | ⟨init, c, rfl⟩
  · cases rest <;> simp [opensAt, LetsBegin]
  · simp [opensAt, LetsBegin]

theorem closesAt_append (s after : Text) : closesAt (s ++ after) s.length ↔ LetsEnd after := by
  cases after <;> simp [closesAt, LetsEnd]

/-- Whether `label` stands at `start` and is not part of a longer word. -/
def standsAt (t label : Text) (start : ℕ) : Bool :=
  label.isPrefixOf (t.drop start) && isWhole t start (start + label.length)

/-- A label stands at an offset when it is a whole word of the text there. -/
theorem standsAt_iff {t label : Text} {start : ℕ} : standsAt t label start
    ↔ ∃ before after, t = before ++ (label ++ after) ∧ before.length = start
      ∧ LetsBegin before ∧ LetsEnd after := by
  constructor
  · intro h
    rw [standsAt, isWhole, Bool.and_eq_true, Bool.and_eq_true, List.isPrefixOf_iff_prefix] at h
    obtain ⟨⟨after, hafter⟩, hopens, hcloses⟩ := h
    have hstart : start ≤ t.length := by
      by_contra hlong
      have hnone : t[start - 1]? = none := List.getElem?_eq_none (by omega)
      rw [opensAt, hnone, decide_eq_true_eq] at hopens
      omega
    obtain ⟨before, hbefore⟩ : ∃ before, before = t.take start := ⟨_, rfl⟩
    have hlength : before.length = start := by simp [hbefore, hstart]
    have ht : t = before ++ (label ++ after) := by
      rw [hafter, hbefore, List.take_append_drop]
    subst hlength ht
    refine ⟨before, after, rfl, rfl, (opensAt_append _ _).1 hopens, ?_⟩
    rw [← List.append_assoc, ← List.length_append] at hcloses
    exact (closesAt_append _ _).1 hcloses
  · rintro ⟨before, after, rfl, rfl, hbefore, hafter⟩
    rw [standsAt, isWhole, Bool.and_eq_true, Bool.and_eq_true, List.isPrefixOf_iff_prefix]
    refine ⟨by simp, (opensAt_append _ _).2 hbefore, ?_⟩
    rw [← List.append_assoc, ← List.length_append]
    exact (closesAt_append _ _).2 hafter

/-- The search over the occurrences of a label, from one to the next that starts behind it, misses
none that begins at `start` or later and no later than the offset. -/
theorem coversFrom_iff {t label : Text} {offset start : ℕ} : coversFrom t label offset start
    ↔ ∃ i, start ≤ i ∧ i ≤ offset ∧ offset ≤ i + label.length ∧ standsAt t label i := by
  have hspelled : ∀ {i}, standsAt t label i → label <+: t.drop i := by
    intro i hi
    rw [standsAt, Bool.and_eq_true, List.isPrefixOf_iff_prefix] at hi
    exact hi.1
  fun_induction coversFrom t label offset start with
  | case1 start hnone =>
    simp only [Bool.false_eq_true, false_iff]
    rintro ⟨i, hi, -, -, hstands⟩
    exact Text.not_isPrefix_of_find? hnone hi (hspelled hstands)
  | case2 start i hfind hpast =>
    simp only [Bool.false_eq_true, false_iff]
    rintro ⟨j, hj, hoffset, -, hstands⟩
    have hle := (Text.isLeast_of_find? hfind).2 ⟨hj, hspelled hstands⟩
    omega
  | case3 start i hfind hreached htest =>
    rw [Bool.and_eq_true, decide_eq_true_eq] at htest
    obtain ⟨⟨hstart, hlabel⟩, -⟩ := Text.isLeast_of_find? hfind
    refine iff_of_true rfl ⟨i, hstart, by omega, htest.1, ?_⟩
    rw [standsAt, Bool.and_eq_true, List.isPrefixOf_iff_prefix]
    exact ⟨hlabel, htest.2⟩
  | case4 start i hfind hreached htest ih =>
    obtain ⟨⟨hstart, -⟩, hleast⟩ := Text.isLeast_of_find? hfind
    refine Iff.trans ih ⟨?_, ?_⟩
    · rintro ⟨j, hj, hrest⟩
      exact ⟨j, by omega, hrest⟩
    · rintro ⟨j, hj, hoffset, hend, hstands⟩
      refine ⟨j, ?_, hoffset, hend, hstands⟩
      have hle := hleast ⟨hj, hspelled hstands⟩
      have hne : i ≠ j := by
        rintro rfl
        rw [standsAt, Bool.and_eq_true] at hstands
        exact htest (by simp [hend, hstands.2])
      omega

theorem covers_iff {t label : Text} {offset : ℕ} : covers t label offset
    ↔ ∃ before after k, t = before ++ (label ++ after) ∧ offset = before.length + k
      ∧ k ≤ label.length ∧ LetsBegin before ∧ LetsEnd after := by
  rw [covers, coversFrom_iff]
  constructor
  · rintro ⟨i, -, hi, hend, hstands⟩
    obtain ⟨before, after, ht, hlength, hbefore, hafter⟩ := standsAt_iff.1 hstands
    exact ⟨before, after, offset - before.length, ht, by omega, by omega, hbefore, hafter⟩
  · rintro ⟨before, after, k, ht, rfl, hk, hbefore, hafter⟩
    refine ⟨before.length, by omega, by omega, by omega, ?_⟩
    exact standsAt_iff.2 ⟨before, after, ht, rfl, hbefore, hafter⟩

theorem around_of_covers {t label : Text} {offset : ℕ} (h : covers t label offset) :
    ∃ k ≤ label.length, around t offset = around label k := by
  obtain ⟨before, after, k, rfl, rfl, hk, hbefore, hafter⟩ := covers_iff.1 h
  exact ⟨k, hk, around_append hbefore hafter hk⟩

end Word

/-- What is shown of a construct: its documentation, or its description where there is none. -/
def Entry.card (e : Entry) : HoverCard where
  label := e.label
  markdown := "**" ++ e.label ++ "**\n\n"
    ++ (if e.documentation.isEmpty then e.description else e.documentation)
  category := e.category

namespace Catalog

/-! ## Words of a catalog -/

def IsMultiWord (label : Text) : Prop := label.any fun c : CodePoint => c = ' '

instance (label : Text) : Decidable (IsMultiWord label) := inferInstanceAs (Decidable (_ = true))

/-- The words that stand around the offsets of a label. A label of one word is the only one. -/
def stretches (label : Text) : List Text :=
  if IsMultiWord label then (List.range (label.length + 1)).map (Word.around label) else [label]

/-- Labels of one word have no word breaks, and a label of several words has no word in common with
another label. -/
def HasOwnWords (labels : List Text) : Prop :=
  (∀ label ∈ labels, IsMultiWord label ∨ label.all (!Word.isBreak ·))
  ∧ ∀ other ∈ labels, IsMultiWord other → ∀ word ∈ stretches other,
    ∀ label ∈ labels, other ≠ label → word ∉ stretches label

theorem HasOwnWords.mem_stretches {labels : List Text} (h : HasOwnWords labels) {label : Text}
    (hlabel : label ∈ labels) {k : ℕ} (hk : k ≤ label.length) :
    Word.around label k ∈ stretches label := by
  unfold stretches
  split
  · exact List.mem_map.2 ⟨k, List.mem_range.2 (Nat.lt_succ_of_le hk), rfl⟩
  · rename_i hone
    rw [Word.around_of_plain ((h.1 label hlabel).resolve_left hone), List.mem_singleton]

theorem wordAt_of_hasOwnWords {c : Catalog} (hwords : HasOwnWords c.labels) {label : Text}
    (hlabel : label ∈ c.labels) {before after : Text} (hbefore : Word.LetsBegin before)
    (hafter : Word.LetsEnd after) {k : ℕ} (hk : k ≤ label.length) :
    c.wordAt (before ++ (label ++ after)) (before.length + k : ℕ) = label := by
  have hinside : min ((before.length + k : ℕ) : ℤ).toNat (before ++ (label ++ after)).length
      = before.length + k := by
    simp only [List.length_append]
    omega
  have haround := Word.around_append hbefore hafter hk
  unfold wordAt
  rw [hinside]
  dsimp only
  split
  · rename_i found hfind
    obtain ⟨hfound, hspace⟩ := List.mem_filter.1 (List.mem_of_find?_eq_some hfind)
    have hcovers := List.find?_some hfind
    obtain ⟨j, hj, hcovered⟩ := Word.around_of_covers hcovers
    -- Two labels that cover one offset have the stretch around it in common.
    by_contra hne
    refine hwords.2 found hfound hspace _ (hwords.mem_stretches hfound hj) label hlabel hne ?_
    rw [← hcovered, haround]
    exact hwords.mem_stretches hlabel hk
  · rename_i hnone
    rw [haround]
    rcases hwords.1 label hlabel with hspace | hplain
    · have hcovers := Word.covers_iff.2 ⟨before, after, k, rfl, rfl, hk, hbefore, hafter⟩
      exact absurd hcovers (List.find?_eq_none.1 hnone label (List.mem_filter.2 ⟨hlabel, hspace⟩))
    · exact Word.around_of_plain hplain k

theorem lookup_of_mem {c : Catalog} (hnodup : c.labels.Nodup) {e : Entry} (he : e ∈ c.entries) :
    c.lookup e.label = some e := by
  unfold lookup
  cases hfind : c.entries.find? (·.label = e.label) with
  | none =>
    have hnot := List.find?_eq_none.1 hfind e he
    simp at hnot
  | some found =>
    have hlabel : found.label = e.label := by simpa using List.find?_some hfind
    rw [List.inj_on_of_nodup_map hnodup (List.mem_of_find?_eq_some hfind) he hlabel]

/-! ## The shipped catalog -/

theorem labelOf_rawEntry (label : Text) (category : Category)
    (kind description documentation template : Text) :
    labelOf (rawEntry label category kind description documentation template) = label := by
  cases label <;> rfl

theorem build_shippedEntries : build shippedEntries = .ok shipped := by
  have hok : (build shippedEntries).isOk := by
    unfold shippedEntries
    repeat rw [Text.ofString_ofList]
    decide +kernel
  unfold shipped
  generalize build shippedEntries = result at hok ⊢
  cases result with
  | error failure => cases hok
  | ok c => rfl

theorem hasOwnWords_shipped : HasOwnWords shipped.labels := by
  rw [labels_of_build build_shippedEntries]
  simp only [shippedEntries, List.map_cons, List.map_nil, labelOf_rawEntry]
  unfold HasOwnWords stretches Word.around Word.isBreak Word.breaks
  repeat rw [Text.ofString_ofList]
  decide

theorem hover_of_mem {c : Catalog} (hnodup : c.labels.Nodup) {e : Entry} (he : e ∈ c.entries) :
    c.hover e.label = some e.card := by
  rw [hover, lookup_of_mem hnodup he]
  rfl

theorem label_ne_nil_of_build {raw : List Value} {c : Catalog} (h : build raw = .ok c) {e : Entry}
    (he : e ∈ c.entries) : e.label ≠ [] := by
  obtain ⟨v, -, hentry⟩ := exists_of_mem_entries (build_ok h).1 e he
  intro hnil
  rw [hentry.label] at hnil
  exact hentry.sound (.inr (.inl (by simp [hnil])))

end Catalog

/-- A request without a word is about the word at its position. -/
theorem Pack.wordOf_position (p : Pack) (file token : Value) {t : Text} (ht : t ≠ []) {offset : ℕ}
    (hoffset : offset ≤ t.length) :
    p.wordOf ⟨file, .str t, .int (Position.lineOf t offset), .int (Position.columnOf t offset),
      token, .null⟩ = .ok (p.catalog.wordAt t offset) := by
  have htext : (Value.str t).textOr [] = t := by
    cases t <;> rfl
  have hposition : Position.offsetOf t (.int (Position.lineOf t offset))
      (.int (Position.columnOf t offset)) = .ok offset := by
    rw [Position.offsetOf_int t (by simp [Position.lineOf]; omega),
      Position.offset_lineOf_columnOf hoffset]
  simp [wordOf, offsetOf, htext, hposition, ht, Except.mapError, Except.map]

theorem Pack.hover_of_card {p : Pack} {r : HoverRequest} {word : Text} {n : ℤ} {card : HoverCard}
    (hword : p.wordOf r = .ok word) (htoken : r.token.toInt = .ok n)
    (hcard : p.catalog.hover word = some card) : p.hover r
      = .ok ⟨r.file.textOr [], max 1 n, word, card.label, card.markdown, backend⟩ := by
  have hnumber : tokenOf r.token = .ok (max 1 n) := by rw [tokenOf, htoken]
  rw [hover, hword, hnumber]
  simp only [bind, Except.bind, hcard]
  rfl

/-- Every shipped construct that stands as a whole word is the one that is documented there, at each
of its offsets and whatever stands around it. -/
theorem Catalog.hover_whole_word {e : Entry} (he : e ∈ shipped.entries) {before after : Text}
    (hbefore : Word.LetsBegin before) (hafter : Word.LetsEnd after) {k : ℕ}
    (hk : k ≤ e.label.length) {t : Text} (ht : t = before ++ (e.label ++ after)) {offset : ℕ}
    (hoffset : offset = before.length + k) :
    Position.offset t (Position.lineOf t offset) (Position.columnOf t offset) = offset
    ∧ shipped.wordAt t offset = e.label
    ∧ shipped.hover (shipped.wordAt t offset) = some e.card
    ∧ ∀ (p : Pack) (file token : Value) (n : ℤ), p.catalog = shipped → token.toInt = .ok n →
      p.hover ⟨file, .str t, .int (Position.lineOf t offset), .int (Position.columnOf t offset),
        token, .null⟩
        = .ok ⟨file.textOr [], max 1 n, e.label, e.label, e.card.markdown, Pack.backend⟩ := by
  have hlabel := label_ne_nil_of_build build_shippedEntries he
  have hle : offset ≤ t.length := by
    simp only [ht, hoffset, List.length_append]
    omega
  have hword : shipped.wordAt t offset = e.label := by
    rw [ht, hoffset]
    exact wordAt_of_hasOwnWords hasOwnWords_shipped (List.mem_map_of_mem he) hbefore hafter hk
  have hcard : shipped.hover e.label = some e.card :=
    hover_of_mem (build_ok build_shippedEntries).2 he
  refine ⟨Position.offset_lineOf_columnOf hle, hword, by rw [hword, hcard], ?_⟩
  intro p file token n hcatalog htoken
  have hwordOf := p.wordOf_position file token (t := t) (by simp [ht, hlabel]) hle
  rw [hcatalog, hword] at hwordOf
  exact Pack.hover_of_card hwordOf htoken (by rw [hcatalog, hcard])

/-- A label of two words between two other constructs: the request is about the third code point of
the second line. -/
theorem Catalog.hover_whole_word_else : ∃ e ∈ shipped.entries, e.label = "नहीं तो"
    ∧ shipped.wordAt "अगर\nनहीं तो(चार" 6 = e.label
    ∧ Pack.hover ⟨shipped, []⟩ ⟨.str "a", .str "अगर\nनहीं तो(चार", .int 2, .int 2, .int 7, .null⟩
      = .ok ⟨"a", 7, e.label, e.label, e.card.markdown, Pack.backend⟩ := by
  have hmem : ("नहीं तो" : Text) ∈ shipped.labels := by
    rw [labels_of_build build_shippedEntries]
    simp [shippedEntries, labelOf_rawEntry]
  obtain ⟨e, he, hlabel⟩ := List.mem_map.1 hmem
  have hbefore : Word.LetsBegin "अगर\n" := by
    intro c hc
    cases (hc : some (CodePoint.ofChar '\n') = some c)
    decide
  have hafter : Word.LetsEnd "(चार" := by
    intro c hc
    cases (hc : some (CodePoint.ofChar '(') = some c)
    decide
  have hk : 2 ≤ e.label.length := by
    rw [hlabel]
    decide
  have ht : Text.ofString "अगर\nनहीं तो(चार" = "अगर\n" ++ (e.label ++ "(चार") := by
    rw [hlabel]
    decide
  have hoffset : 6 = (Text.ofString "अगर\n").length + 2 := by decide
  have hline : (Position.lineOf "अगर\nनहीं तो(चार" 6 : ℤ) = 2 := by decide
  have hcolumn : (Position.columnOf "अगर\nनहीं तो(चार" 6 : ℤ) = 2 := by decide
  obtain ⟨-, hword, -, hanswer⟩ := hover_whole_word he hbefore hafter hk ht hoffset
  rw [hline, hcolumn] at hanswer
  exact ⟨e, he, hlabel, hword, hanswer ⟨shipped, []⟩ (.str "a") (.int 7) 7 (by dsimp only) rfl⟩

end DhrWorkbench
