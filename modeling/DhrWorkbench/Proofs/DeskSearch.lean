import DhrWorkbench.Proofs.Memo
import DhrWorkbench.Session.Desk

/-!
# The desk asks for the toolchain

A desk asks its locator in the surroundings of its session, which do not depend on the locator. So
its call goes as that of a caller alone, and nothing of the desk changes but the locator
(`resolve_alone`). With no other call under way, what the desk is told and what the locator says
afterwards agree (`status_of_resolve`).
-/

namespace DhrWorkbench

open Toolchain (Solo Call Memo)

theorem Toolchain.Memo.search_cases (m : Memo) (w : Surroundings) :
    (∃ outcome, (m.search w).answer = .ok outcome ∧ (m.search w).after.memory = .ofOutcome outcome)
      ∨ ∃ failure, (m.search w).answer = .error failure ∧ (m.search w).after = m := by
  unfold search
  split
  · exact .inr ⟨_, rfl, rfl⟩
  · exact .inr ⟨_, rfl, rfl⟩
  · dsimp only
    split
    · exact .inr ⟨_, rfl, rfl⟩
    · exact .inl ⟨_, rfl, rfl⟩

/-- A memo answers with what it remembers afterwards, or fails and remembers what it did. -/
theorem Toolchain.Memo.resolve_cases (m : Memo) (w : Surroundings) :
    (∃ outcome, (m.resolve w).answer = .ok outcome
        ∧ (m.resolve w).after.memory = .ofOutcome outcome)
      ∨ ∃ failure, (m.resolve w).answer = .error failure ∧ (m.resolve w).after = m := by
  unfold resolve
  split
  · rename_i t hm
    split_ifs
    · exact .inl ⟨some t, rfl, hm⟩
    · exact m.search_cases w
  · exact m.search_cases w

theorem Toolchain.Solo.steps_around (w : Surroundings) : ∀ (n : ℕ) (call : Call) (l : Locator)
    (p : List Text), (stand.steps n call ⟨w, l, p⟩).2.around = w
  | 0, _, _, _ => rfl
  | n + 1, call, l, p => by
    rw [steps_succ]
    exact steps_around w n _ _ _

namespace Desk

theorem step_alone (s : Session) (e : Execution) (call : Call) (p : List Text) :
    (stand s).step call e = (((Solo.stand).step call ⟨around s e, e.locator, p⟩).1,
      { e with locator := ((Solo.stand).step call ⟨around s e, e.locator, p⟩).2.locator }) := by
  rw [Solo.step_eq]
  rcases hp : call.probe? with _ | path <;> simp [Toolchain.Stand.step, stand, hp]

theorem steps_alone (s : Session) : ∀ (n : ℕ) (e : Execution) (call : Call) (p : List Text),
    (stand s).steps n call e = (((Solo.stand).steps n call ⟨around s e, e.locator, p⟩).1,
      { e with locator := ((Solo.stand).steps n call ⟨around s e, e.locator, p⟩).2.locator })
  | 0, e, call, p => rfl
  | n + 1, e, call, p => by
    rw [Toolchain.Stand.steps, step_alone s e call p, Solo.steps_succ]
    dsimp only
    rw [steps_alone s n _ _ (p ++ call.probe?.toList), Solo.step_eq]
    rfl

end Desk

namespace Session

variable (s : Session) (e : Execution)

/-- A caller in the place of the desk. -/
def caller : Solo := ⟨Desk.around s e, e.locator, []⟩

theorem resolve_alone : s.resolve e = ((Solo.stand.resolve (s.caller e)).1,
    { e with locator := (Solo.stand.resolve (s.caller e)).2.locator }) := by
  unfold resolve Toolchain.Stand.resolve Toolchain.Stand.finish
  dsimp only
  rw [Desk.steps_alone s _ e _ [], caller]
  have haround := Solo.steps_around (Desk.around s e) Call.stepsToSearch .entering e.locator []
  generalize Solo.stand.steps Call.stepsToSearch .entering ⟨Desk.around s e, e.locator, []⟩ = r
    at haround
  obtain ⟨call, w, l, p⟩ := r
  dsimp only at haround
  subst haround
  dsimp only
  rw [Desk.steps_alone s _ _ _ p]
  rfl

variable {s e}

/-- Only the locator of a desk changes when it asks. -/
theorem resolve_snd : (s.resolve e).2 = { e with locator := (s.resolve e).2.locator } := by
  rw [resolve_alone]

/-- No call is under way on the locator of a desk. -/
def IsQuiet (e : Execution) : Prop := ∃ m : Memo, m.IsShownBy e.locator

/-- What a desk is told is what its locator says afterwards; a search that fails leaves it. -/
theorem status_of_resolve (h : IsQuiet e) : IsQuiet (s.resolve e).2
    ∧ ((∃ found, (s.resolve e).1 = .ok found
        ∧ (s.resolve e).2.locator.status = if found.isSome then .resolved else .unresolved)
      ∨ ∃ failure, (s.resolve e).1 = .error failure
        ∧ (s.resolve e).2.locator.status = e.locator.status) := by
  obtain ⟨m, hm⟩ := h
  obtain ⟨l, hl, hshown⟩ := Solo.resolve_eq (Desk.around s e) [] hm
  rw [resolve_alone, caller, hl]
  refine ⟨⟨_, hshown⟩, ?_⟩
  rcases m.resolve_cases (Desk.around s e)
    with ⟨found, hanswer, hmemory⟩ | ⟨failure, hanswer, hsame⟩
  · refine .inl ⟨found, hanswer, ?_⟩
    rw [hshown.status, hmemory, Toolchain.Memory.status_ofOutcome]
  · refine .inr ⟨failure, hanswer, ?_⟩
    rw [hshown.status, hsame, hm.status]

end Session

end DhrWorkbench
