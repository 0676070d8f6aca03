import DhrWorkbench.Host
import Mathlib.Data.List.Lex
import Mathlib.Order.Fin.Basic

/-!
# Paths and their texts

The order on texts is the lexicographic one. The names of a path have no slash in them, so the
text of a path that starts with a name is read back with that name first. Only a path that starts
with a tilde is changed when the home directory is filled in, and whether a path does is seen from
its text again.
-/

namespace DhrWorkbench

namespace Text

theorem le_iff_lex {s t : Text} : s ≤ t ↔ s = t ∨ List.Lex (· < ·) s t := Iff.rfl

theorem atMost_iff : ∀ {s t : Text}, atMost s t ↔ s ≤ t
  | [], [] => by simp [atMost]
  | [], _ :: _ => by simp [atMost, le_iff_lex]
  | _ :: _, [] => by simp [atMost, le_iff_lex]
  | a :: s, b :: t => by
    have ih : atMost s t ↔ s ≤ t := atMost_iff
    rw [atMost, le_iff_lex, List.cons_lex_cons_iff]
    split
    · subst b
      simpa [le_iff_lex] using ih
    · simp [*]

theorem pairwise_mergeSort (texts : List Text) : (texts.mergeSort atMost).Pairwise (· ≤ ·) := by
  have h : (texts.mergeSort atMost).Pairwise fun s t => atMost s t := by
    apply List.pairwise_mergeSort
    · intro s t u hst htu
      exact atMost_iff.2 (le_trans (atMost_iff.1 hst) (atMost_iff.1 htu))
    · intro s t
      simpa [atMost_iff] using le_total s t
  exact h.imp atMost_iff.1

theorem splitOn_eq (c : CodePoint) : ∀ t : Text, splitOn c t = List.splitOn c t
  | [] => rfl
  | a :: t => by
    rw [splitOn, List.splitOn_cons_eq_if_modifyHead, splitOn_eq c t]
    split
    · simp [*]
    · cases h : List.splitOn c t with
      | nil => exact absurd h (List.splitOn_ne_nil c t)
      | cons part parts => simp [*]

theorem notMem_of_mem_splitOn {c : CodePoint} :
    ∀ {t part : Text}, part ∈ splitOn c t → c ∉ part
  | [], part, h => by simp_all [splitOn]
  | a :: t, part, h => by
    have ih : ∀ part ∈ splitOn c t, c ∉ part := fun _ => notMem_of_mem_splitOn
    rw [splitOn] at h
    split at h
    · rcases List.mem_cons.1 h with rfl | h
      · exact List.not_mem_nil
      · exact ih part h
    · rename_i ha
      split at h
      · rw [List.mem_singleton.1 h]
        simpa using Ne.symm ha
      · rename_i first parts hs
        rw [hs] at ih
        rcases List.mem_cons.1 h with rfl | h
        · simpa [Ne.symm ha] using ih first List.mem_cons_self
        · exact ih part (List.mem_cons_of_mem _ h)

end Text

namespace Path

/-- A text that can be a name in a path. -/
def IsName (t : Text) : Prop := t ≠ [] ∧ t ≠ Text.ofString "." ∧ CodePoint.ofChar '/' ∉ t

theorem isName_of_mem_namesOf {t name : Text} (h : name ∈ namesOf t) : IsName name := by
  simp only [namesOf, List.mem_filter, decide_eq_true_eq] at h
  exact ⟨h.2.1, h.2.2, Text.notMem_of_mem_splitOn h.1⟩

theorem splitOn_join_cons {first : Text} (h : CodePoint.ofChar '/' ∉ first) (second : Text)
    (rest : List Text) : Text.splitOn '/' (Text.join "/" (first :: second :: rest))
      = first :: Text.splitOn '/' (Text.join "/" (second :: rest)) := by
  rw [Text.splitOn_eq, Text.splitOn_eq]
  exact List.splitOn_append_cons_self_of_not_mem h _

theorem namesOf_join_cons {first : Text} (h : IsName first) :
    ∀ rest, namesOf (Text.join "/" (first :: rest)) = first :: namesOf (Text.join "/" rest)
  | [] => by
    have hs : Text.splitOn '/' first = [first] := by
      rw [Text.splitOn_eq, List.splitOn_eq_singleton h.2.2]
    simp [h.1, h.2.1, Text.join, namesOf, hs, Text.splitOn]
  | second :: rest => by
    rw [namesOf, splitOn_join_cons h.2.2]
    simp [h.1, h.2.1, namesOf]

theorem anchorOf_join_cons {first : Text} (h : IsName first) (rest : List Text) :
    anchorOf (Text.join "/" (first :: rest)) = .here := by
  obtain ⟨c, t, rfl⟩ := List.exists_cons_of_ne_nil h.1
  have hc : c ≠ CodePoint.ofChar '/' := fun hc => h.2.2 (by simp [hc])
  have hl : leadingSlashes (Text.join "/" ((c :: t) :: rest)) = 0 := by
    cases rest <;> simp [leadingSlashes, Text.join, hc]
  simp [anchorOf, hl]

/-- The first name of a path starts with a tilde, and nothing stands before it. -/
def StartsWithTilde (p : Path) : Prop :=
  p.anchor = .here ∧ p.parts.head?.bind List.head? = some (CodePoint.ofChar '~')

instance (p : Path) : Decidable p.StartsWithTilde := inferInstanceAs (Decidable (_ ∧ _))

theorem text_of_here {first : Text} (h : IsName first) (rest : List Text) :
    (Path.mk .here (first :: rest)).text = Text.join "/" (first :: rest) := by
  obtain ⟨c, t, rfl⟩ := List.exists_cons_of_ne_nil h.1
  cases rest <;> rfl

theorem anchorOf_slash (t : Text) : anchorOf (CodePoint.ofChar '/' :: t) ≠ .here := by
  unfold anchorOf
  split
  · rename_i h
    simp [leadingSlashes] at h
  · simp
  · simp

theorem anchor_ofText_text {p : Path} (h : p.anchor ≠ .here) : (ofText p.text).anchor ≠ .here := by
  obtain ⟨anchor, parts⟩ := p
  cases anchor with
  | here => exact absurd rfl h
  | root => exact anchorOf_slash _
  | doubleRoot => exact anchorOf_slash _

/-- Reading the text of a path tells whether the path starts with a tilde. -/
theorem startsWithTilde_ofText_text {p : Path} (h : ∀ first ∈ p.parts.head?, IsName first) :
    (ofText p.text).StartsWithTilde ↔ p.StartsWithTilde := by
  by_cases ha : p.anchor = .here
  · obtain ⟨_, parts⟩ := p
    obtain rfl : _ = Anchor.here := ha
    cases parts with
    | nil => decide
    | cons first rest =>
      have hf := h first rfl
      simp [StartsWithTilde, ofText, text_of_here hf, anchorOf_join_cons hf,
        namesOf_join_cons hf]
  · simp [StartsWithTilde, ha, anchor_ofText_text ha]

theorem not_startsWithTilde_append {p q : Path} (hp : ¬ p.StartsWithTilde)
    (hq : ¬ q.StartsWithTilde) : ¬ (p / q).StartsWithTilde := by
  change ¬ (append p q).StartsWithTilde
  unfold append
  split
  · exact hq
  · rename_i ha
    rintro ⟨hanchor, hhead⟩
    cases hparts : p.parts with
    | nil => exact hq ⟨by simpa [isAbsolute] using ha, by simpa [hparts] using hhead⟩
    | cons first rest => exact hp ⟨hanchor, by simpa [hparts] using hhead⟩

theorem append_of_isAbsolute {p q : Path} (h : q.isAbsolute) : p / q = q := if_pos h

end Path

theorem PathFault.check_ne_noHome (t : Text) : PathFault.check t ≠ .error .noHome := by
  unfold PathFault.check
  split
  · simp
  · split_ifs <;> simp

namespace Host

theorem expandHome_eq (h : Host) {p : Path} (hp : ¬ p.StartsWithTilde) :
    h.expandHome p = .ok p := by
  unfold expandHome
  split
  · rename_i first rest ha hparts
    simp_all [Path.StartsWithTilde]
  · rfl

end Host

end DhrWorkbench
