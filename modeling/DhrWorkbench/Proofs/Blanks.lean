import DhrWorkbench.Text.Blank
import Mathlib.Data.List.DropRight

/-!
# Texts without blanks around them

Stripping a text takes off what is blank at its two ends (`exists_strip`) and leaves a text with no
blank at either end, which is the only one between blanks (`strip_between`).
-/

namespace DhrWorkbench

namespace Text

/-- No blank stands at either end. -/
def IsTrim (t : Text) : Prop :=
  (∀ c ∈ t.head?, isBlank c = false) ∧ ∀ c ∈ t.getLast?, isBlank c = false

theorem strip_eq (t : Text) : strip t = (t.dropWhile isBlank).rdropWhile isBlank := rfl

theorem isTrim_strip (t : Text) : IsTrim (strip t) := by
  rw [strip_eq]
  refine ⟨fun c hc => ?_, fun c hc => ?_⟩
  · obtain ⟨rest, hrest⟩ := List.rdropWhile_prefix isBlank (t.dropWhile isBlank)
    have hhead : (t.dropWhile isBlank).head? = some c := by
      rw [← hrest, List.head?_append, hc]
      rfl
    have hblank := List.head?_dropWhile_not isBlank t
    rw [hhead] at hblank
    exact hblank
  · obtain ⟨hne, hlast⟩ := List.mem_getLast?_eq_getLast hc
    rw [hlast]
    simpa using List.rdropWhile_last_not isBlank (t.dropWhile isBlank) hne

theorem strip_eq_self {t : Text} (h : IsTrim t) : strip t = t := by
  obtain ⟨hhead, hlast⟩ := h
  have hdrop : t.dropWhile isBlank = t := by
    cases t with
    | nil => rfl
    | cons c rest => rw [List.dropWhile_cons_of_neg (by simpa using hhead c rfl)]
  rw [strip_eq, hdrop, List.rdropWhile_eq_self_iff]
  intro hne
  simpa using hlast _ (List.getLast_mem_getLast? hne)

theorem strip_eq_nil_iff {t : Text} : strip t = [] ↔ ∀ c ∈ t, isBlank c := by
  rw [strip_eq, List.rdropWhile_eq_nil_iff]
  constructor
  · intro h c hc
    by_contra hblank
    have hne : t.dropWhile isBlank ≠ [] := fun hnil =>
      hblank (List.dropWhile_eq_nil_iff.1 hnil c hc)
    have hhead := List.head_dropWhile_not isBlank hne
    rw [h _ (List.head_mem hne)] at hhead
    cases hhead
  · intro h
    simp [List.dropWhile_eq_nil_iff.2 h]

/-- A text is its stripped form between blanks. -/
theorem exists_strip (t : Text) : ∃ before after, t = before ++ (strip t ++ after)
    ∧ (∀ c ∈ before, isBlank c) ∧ ∀ c ∈ after, isBlank c := by
  refine ⟨t.takeWhile isBlank, (t.dropWhile isBlank).rtakeWhile isBlank, ?_,
    fun c hc => List.mem_takeWhile_imp hc, fun c hc => List.mem_rtakeWhile_imp hc⟩
  rw [strip_eq, List.rdropWhile, List.rtakeWhile, ← List.reverse_append,
    List.takeWhile_append_dropWhile, List.reverse_reverse, List.takeWhile_append_dropWhile]

theorem strip_between {before t after : Text} (ht : IsTrim t) (hbefore : ∀ c ∈ before, isBlank c)
    (hafter : ∀ c ∈ after, isBlank c) : strip (before ++ (t ++ after)) = t := by
  obtain rfl | hne := eq_or_ne t []
  · refine strip_eq_nil_iff.2 ?_
    simpa [or_imp, forall_and] using ⟨hbefore, hafter⟩
  · have hdrop : (before ++ (t ++ after)).dropWhile isBlank = t ++ after := by
      rw [List.dropWhile_append_of_pos hbefore]
      obtain ⟨c, rest, rfl⟩ := List.exists_cons_of_ne_nil hne
      exact List.dropWhile_cons_of_neg (by simpa using ht.1 c rfl)
    have hlast : t.rdropWhile isBlank = t :=
      List.rdropWhile_eq_self_iff.2 fun hl => by simpa using ht.2 _ (List.getLast_mem_getLast? hl)
    have hreverse : ∀ c ∈ after.reverse, isBlank c := fun c hc => hafter c (List.mem_reverse.1 hc)
    rw [strip_eq, hdrop, List.rdropWhile, List.reverse_append,
      List.dropWhile_append_of_pos hreverse]
    exact hlast

end Text

end DhrWorkbench
