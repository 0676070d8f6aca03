import DhrWorkbench.Position
import Mathlib.Data.Int.Notation
import Mathlib.Data.List.TakeWhile

/-!
# Lines and columns of offsets

An offset of a text has a line, which counts the newlines before it, and a column, which counts the
code points after the last of them. The offset of that line and column is the one they were taken
from (`offset_lineOf_columnOf`).

A line is what stands between two newlines, or a newline and an end of the text (`IsLine`). The
offset of a position is that of its column in its line, or of the end of the line when the column is
beyond it; behind the last line it is the end of the text (`offsetOf_position`).
-/

namespace DhrWorkbench

namespace Position

abbrev newline : CodePoint := '\n'

/-- The line of an offset, from 1. -/
def lineOf (t : Text) (offset : ℕ) : ℕ := (t.take offset).count newline + 1

/-- The column of an offset, from 0. -/
def columnOf (t : Text) (offset : ℕ) : ℕ := (Text.afterLast newline (t.take offset)).length

theorem afterNewlines_newline (n : ℕ) (t : Text) :
    afterNewlines (n + 1) (newline :: t) = afterNewlines n t := by
  simp [afterNewlines]

theorem afterNewlines_cons {c : CodePoint} (hc : c ≠ newline) (n : ℕ) (t : Text) :
    afterNewlines (n + 1) (c :: t) = afterNewlines (n + 1) t := by
  simp [afterNewlines, hc]

theorem ne_newline_of_notMem {t : Text} (h : newline ∉ t) :
    ∀ c ∈ t.reverse, decide (c ≠ newline) := by
  intro c hc
  exact decide_eq_true fun heq => h (heq ▸ List.mem_reverse.1 hc)

theorem afterLast_of_notMem {t : Text} (h : newline ∉ t) : Text.afterLast newline t = t := by
  rw [Text.afterLast, List.takeWhile_eq_self_iff.2 (ne_newline_of_notMem h), List.reverse_reverse]

theorem afterLast_newline_cons {t : Text} (h : newline ∉ t) :
    Text.afterLast newline (newline :: t) = t := by
  rw [Text.afterLast, List.reverse_cons, List.takeWhile_append_of_pos (ne_newline_of_notMem h)]
  simp

theorem afterLast_cons {c : CodePoint} {t : Text} (h : newline ∈ t) :
    Text.afterLast newline (c :: t) = Text.afterLast newline t := by
  have hstops : (t.reverse.takeWhile (· ≠ newline)).length ≠ t.reverse.length := by
    intro hlength
    have heq := (List.takeWhile_prefix (· ≠ newline)).eq_of_length hlength
    simpa using List.takeWhile_eq_self_iff.1 heq newline (List.mem_reverse.2 h)
  rw [Text.afterLast, List.reverse_cons, List.takeWhile_append, if_neg hstops, Text.afterLast]

/-- What follows the newlines of `s` in a text that starts with `s` is what follows the last of
them. -/
theorem afterNewlines_count (rest : Text) : ∀ s : Text,
    afterNewlines (s.count newline) (s ++ rest) = some (Text.afterLast newline s ++ rest)
  | [] => rfl
  | c :: s => by
    have ih := afterNewlines_count rest s
    by_cases hc : c = newline
    · subst hc
      rw [List.count_cons_self, List.cons_append, afterNewlines_newline, ih]
      by_cases hs : newline ∈ s
      · rw [afterLast_cons hs]
      · rw [afterLast_of_notMem hs, afterLast_newline_cons hs]
    · rw [List.count_cons_of_ne hc, List.cons_append]
      by_cases hs : newline ∈ s
      · obtain ⟨n, hn⟩ : ∃ n, s.count newline = n + 1 :=
          Nat.exists_eq_add_one_of_ne_zero (Nat.ne_of_gt (List.count_pos_iff.2 hs))
        rw [hn] at ih ⊢
        rw [afterNewlines_cons hc, ih, afterLast_cons hs]
      · have hnone : newline ∉ c :: s := List.not_mem_cons_of_ne_of_not_mem (Ne.symm hc) hs
        rw [List.count_eq_zero_of_not_mem hs, afterLast_of_notMem hnone]
        rfl

/-- What is left of a text from the line of an offset on. -/
theorem fromLine_lineOf {t : Text} {o : ℕ} (ho : o ≤ t.length) :
    ∃ rest, fromLine t (lineOf t o) = some rest ∧ t.length - rest.length + columnOf t o = o
      ∧ columnOf t o ≤ (rest.takeWhile fun c : CodePoint => c ≠ newline).length := by
  obtain ⟨s, rest, rfl, rfl⟩ : ∃ s rest, t = s ++ rest ∧ o = s.length :=
    ⟨t.take o, t.drop o, by simp, by simp [ho]⟩
  have hs : (s ++ rest).take s.length = s := List.take_left
  have hline : (max 1 ((s.count newline + 1 : ℕ) : ℤ) - 1).toNat = s.count newline := by omega
  have hplain : ∀ c ∈ Text.afterLast newline s, decide (c ≠ newline) := by
    intro c hc
    rw [Text.afterLast, List.mem_reverse] at hc
    exact List.mem_takeWhile_imp (p := (· ≠ newline)) hc
  have hle : (Text.afterLast newline s).length ≤ s.length := by
    simpa [Text.afterLast] using
      (List.takeWhile_prefix (· ≠ newline) (l := s.reverse)).length_le
  refine ⟨Text.afterLast newline s ++ rest, ?_, ?_, ?_⟩
  · rw [fromLine, lineOf, hs, hline, afterNewlines_count]
  · rw [columnOf, hs]
    simp only [List.length_append]
    omega
  · rw [columnOf, hs, List.takeWhile_append_of_pos hplain]
    simp

/-- The offset of the line and the column of an offset is that offset. -/
theorem offset_lineOf_columnOf {t : Text} {o : ℕ} (ho : o ≤ t.length) :
    offset t (lineOf t o) (columnOf t o) = o := by
  obtain ⟨rest, hrest, hsum, hle⟩ := fromLine_lineOf ho
  rw [offset, hrest]
  change t.length - rest.length + min (columnOf t o) _ = o
  rw [Nat.min_eq_left hle, hsum]

/-- Integers that are given as values are the position that they say. -/
theorem offsetOf_int (t : Text) {line : ℤ} (hline : line ≠ 0) (column : ℤ) :
    offsetOf t (.int line) (.int column) = .ok (offset t line column) := by
  have hvalue : integerOr 1 (.int line) = .ok line := by
    simp [integerOr, Value.truthy, hline, Value.toInt]
  have hcolumn : integerOr 0 (.int column) = .ok column := by
    by_cases hzero : column = 0
    · simp [integerOr, Value.truthy, hzero]
    · simp [integerOr, Value.truthy, hzero, Value.toInt]
  simp only [offsetOf, hvalue, hcolumn, offset]
  cases fromLine t line <;> rfl

/-! ## Lines -/

/-- The line of a number, from 1, with the offset at which it starts. It has no newline; one stands
before it unless it starts the text, and one behind it unless it ends the text. -/
def IsLine (t : Text) (number start : ℕ) (line : Text) : Prop :=
  ∃ before after, t = before ++ (line ++ after) ∧ before.length = start
    ∧ before.count newline + 1 = number ∧ (∀ c ∈ before.getLast?, c = newline)
    ∧ newline ∉ line ∧ ∀ c ∈ after.head?, c = newline

theorem afterNewlines_append {first : Text} (h : newline ∉ first) (n : ℕ) (rest : Text) :
    afterNewlines (n + 1) (first ++ newline :: rest) = afterNewlines n rest := by
  induction first with
  | nil => exact afterNewlines_newline n rest
  | cons c first ih =>
    rw [List.mem_cons, not_or] at h
    rw [List.cons_append, afterNewlines_cons (Ne.symm h.1), ih h.2]

theorem afterNewlines_eq_none : ∀ (n : ℕ) {t : Text}, t.count newline < n →
    afterNewlines n t = none
  | n + 1, t, h => by
    by_cases hmem : newline ∈ t
    · obtain ⟨first, rest, rfl, hfirst⟩ := List.eq_append_cons_of_mem hmem
      rw [List.count_append, List.count_cons_self] at h
      rw [afterNewlines_append hfirst, afterNewlines_eq_none n (by omega)]
    · have hall : t.dropWhile (fun c : CodePoint => c ≠ newline) = [] :=
        List.dropWhile_eq_nil_iff.2 fun c hc => decide_eq_true fun heq => hmem (heq ▸ hc)
      rw [afterNewlines, hall]

theorem afterLast_eq_nil {t : Text} (h : ∀ c ∈ t.getLast?, c = newline) :
    Text.afterLast newline t = [] := by
  rw [List.getLast?_eq_head?_reverse] at h
  unfold Text.afterLast
  cases hrev : t.reverse with
  | nil => rfl
  | cons c rest =>
    obtain rfl : c = newline := h c (by rw [hrev]; rfl)
    simp

theorem IsLine.exists_fromLine {t line : Text} {number start : ℕ} (h : IsLine t number start line)
    {n : ℤ} (hn : max 1 n = number) :
    ∃ rest, fromLine t n = some rest ∧ t.length - rest.length = start
      ∧ rest.takeWhile (fun c : CodePoint => c ≠ newline) = line := by
  obtain ⟨before, after, rfl, rfl, hcount, hbefore, hline, hafter⟩ := h
  refine ⟨line ++ after, ?_, by simp, ?_⟩
  · have hnumber : (max 1 n - 1).toNat = before.count newline := by omega
    rw [Position.fromLine, hnumber, afterNewlines_count, afterLast_eq_nil hbefore, List.nil_append]
  · have hall : ∀ c ∈ line, decide (c ≠ newline) := fun c hc =>
      decide_eq_true fun heq => hline (heq ▸ hc)
    rw [List.takeWhile_append_of_pos hall]
    cases after with
    | nil => simp
    | cons c rest =>
      obtain rfl : c = newline := hafter c rfl
      simp

theorem exists_isLine : ∀ (n : ℕ) (t : Text), n ≤ t.count newline →
    ∃ start line, IsLine t (n + 1) start line
  | 0, t, _ => by
    refine ⟨0, t.takeWhile (· ≠ newline), [], t.dropWhile (· ≠ newline), ?_, rfl, rfl, nofun,
      ?_, ?_⟩
    · simp
    · intro hmem
      simpa using List.mem_takeWhile_imp hmem
    · intro c hc
      have hstop := List.head?_dropWhile_not (· ≠ newline) t
      rw [Option.mem_def.1 hc] at hstop
      simpa using hstop
  | n + 1, t, h => by
    have hmem : newline ∈ t := List.count_pos_iff.1 (by omega)
    obtain ⟨first, rest, rfl, hfirst⟩ := List.eq_append_cons_of_mem hmem
    rw [List.count_append, List.count_cons_self, List.count_eq_zero_of_not_mem hfirst] at h
    obtain ⟨_, line, before, after, rfl, -, hcount, hbefore, hline, hafter⟩ :=
      exists_isLine n rest (by omega)
    refine ⟨_, line, first ++ newline :: before, after, by simp, rfl, ?_, ?_, hline, hafter⟩
    · rw [List.count_append, List.count_cons_self, List.count_eq_zero_of_not_mem hfirst]
      omega
    · intro c hc
      cases before with
      | nil => simpa using hc.symm
      | cons d before => exact hbefore c (by simpa using hc)

/-- A line of zero counts as absent, and is the first line like any number below it. -/
theorem offsetOf_integers (t : Text) (line column : ℤ) :
    offsetOf t (.int line) (.int column) = .ok (offset t line column) := by
  by_cases hzero : line = 0
  · subst hzero
    exact offsetOf_int t (show (1 : ℤ) ≠ 0 by decide) column
  · exact offsetOf_int t hzero column

/-- The offset of the line and the column of an offset is that offset. A text has one line more than
it has newlines. The offset of a column is in its line, no farther than the end of the line; a line
or column below the first counts as the first, and behind the last line is the end of the text. -/
theorem offsetOf_position (t : Text) :
    (∀ o ≤ t.length, offsetOf t (.int (lineOf t o)) (.int (columnOf t o)) = .ok o)
    ∧ ∀ number column : ℤ,
      (max 1 number ≤ t.count newline + 1 →
        ∃ start line, IsLine t (max 1 number).toNat start line)
      ∧ (∀ start line, IsLine t (max 1 number).toNat start line →
        offsetOf t (.int number) (.int column)
          = .ok (start + min (max 0 column).toNat line.length))
      ∧ (t.count newline + 1 < max 1 number →
        offsetOf t (.int number) (.int column) = .ok t.length) := by
  refine ⟨fun o ho => ?_, fun number column => ⟨fun h => ?_, fun start line h => ?_, fun h => ?_⟩⟩
  · rw [offsetOf_integers, offset_lineOf_columnOf ho]
  · obtain ⟨n, hn⟩ : ∃ n : ℕ, max 1 number = n + 1 := ⟨(max 1 number - 1).toNat, by omega⟩
    obtain ⟨start, line, hline⟩ := exists_isLine n t (by omega)
    exact ⟨start, line, by rwa [hn]⟩
  · obtain ⟨rest, hrest, rfl, rfl⟩ := h.exists_fromLine (n := number) (by omega)
    have hcolumn : (max 0 column).toNat = column.toNat := by omega
    rw [offsetOf_integers, offset, hrest, hcolumn]
    rfl
  · have hnone : fromLine t number = none := afterNewlines_eq_none _ (by omega)
    rw [offsetOf_integers, offset, hnone]

/-- Behind a newline at the end of a text is one more line, which is empty. -/
theorem offsetOf_position_last :
    IsLine "a\n\nb\n" 4 5 [] ∧ offsetOf "a\n\nb\n" (.int 4) (.int 9) = .ok 5
    ∧ offsetOf "a\n\nb\n" (.int (lineOf "a\n\nb\n" 2)) (.int (columnOf "a\n\nb\n" 2)) = .ok 2
    ∧ offsetOf "a\n\nb\n" (.int 5) (.int 0) = .ok 5 := by
  obtain ⟨hoffset, hposition⟩ := offsetOf_position "a\n\nb\n"
  have hlast : IsLine "a\n\nb\n" 4 5 [] :=
    ⟨"a\n\nb\n", [], rfl, rfl, rfl, fun c hc => (Option.some.inj hc).symm, List.not_mem_nil, nofun⟩
  exact ⟨hlast, (hposition 4 9).2.1 5 [] hlast, hoffset 2 (by decide),
    (hposition 5 0).2.2 (by decide)⟩

end Position

end DhrWorkbench
