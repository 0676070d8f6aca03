import DhrWorkbench.Proofs.Crowd
import Mathlib.Algebra.Order.BigOperators.Group.Finset
import Mathlib.Order.WellFounded

/-!
# Every call returns

As long as some call has no answer, some call is ready: the one that is in, or any other when none
is (`exists_ready`). A step of a call that is ready takes it to a later stage or brings its search
closer to the end, whatever the surroundings are, and all other turns leave the calls alone. So if
only finitely many calls begin and every caller gets its turn again and again, all calls return
(`all_return`). Waiting callers need not be let in in the order in which they came.
-/

namespace DhrWorkbench

namespace Toolchain

namespace Call

/-- Whether a step of a call would change it. -/
def ready (busy : Bool) : Call → Bool
  | .queued _ => !busy
  | .finished _ => false
  | _ => true

theorem stage_le_nine (c : Call) : c.stage ≤ 9 := by
  cases c <;> simp [stage]

/-- A step of a call that is ready takes it to a later stage or brings its search closer to the
end; a step of any other changes nothing. -/
theorem Move.progress {w : Surroundings} {l l' : Locator} {c c' : Call} (h : Move w l c l' c') :
    (c.ready l.busy = false ∧ c' = c ∧ l'.busy = l.busy)
      ∨ c.stage < c'.stage ∨ (c.stage = c'.stage ∧ c'.rank < c.rank) := by
  cases h with
  | wait h => exact .inl ⟨by simp [ready, h], rfl, rfl⟩
  | rest => exact .inl ⟨rfl, rfl, rfl⟩
  | search hc hn h₁ h₂ h₃ => exact .inr h₃
  | fail hc h => exact .inr (.inl (h.trans (by simp [stage])))
  | _ => exact .inr (.inl (by simp [stage]))

end Call

namespace Schedule

variable (σ : Schedule)

def stagesLeft (t i : Nat) : Nat := ((σ.call t i).map fun c => 9 - c.stage).getD 0

/-- The steps that the search of a call still has before it, once it is under way. -/
def searchLeft (t i : Nat) : Nat := ((σ.call t i).map Call.rank).getD 0

def left (n t : Nat) : Nat × Nat :=
  (∑ i ∈ Finset.range n, σ.stagesLeft t i, ∑ i ∈ Finset.range n, σ.searchLeft t i)

/-- A turn in which no call begins changes no call and does not concern one that is ready, or it
lessens what the calls have before them. -/
theorem left_turn {n t : Nat} (hn : σ.begun t ≤ n) (hb : σ.begun (t + 1) = σ.begun t) :
    ((∀ i, σ.call (t + 1) i = σ.call t i) ∧ (σ.locator (t + 1)).busy = (σ.locator t).busy
        ∧ ∀ i w c, σ t = .advance i w → σ.call t i = some c →
          c.ready (σ.locator t).busy = false)
      ∨ Prod.Lex (· < ·) (· < ·) (σ.left n (t + 1)) (σ.left n t) := by
  rcases σ.turn_cases t with ⟨-, -, hb', -⟩ | ⟨ht, hl, -, hj⟩ | ⟨hs, j, w, ht, hnone⟩
    | ⟨i, w, c, c', ht, hc, hc', hm, -, hj⟩
  · omega
  · exact .inl ⟨hj, by rw [hl]; rfl, by simp [ht]⟩
  · refine .inl ⟨fun i => by simp only [call, hs], by simp only [locator, hs], ?_⟩
    rintro i w' c hw hc
    rw [ht, Turn.advance.injEq] at hw
    rw [hw.1, hc] at hnone
    cases hnone
  · have hi : i ∈ Finset.range n := by
      have := σ.begun_of_call hc
      simp only [Finset.mem_range]
      omega
    have hstage : σ.stagesLeft t i = 9 - c.stage ∧ σ.stagesLeft (t + 1) i = 9 - c'.stage := by
      simp [stagesLeft, hc, hc']
    have hrank : σ.searchLeft t i = c.rank ∧ σ.searchLeft (t + 1) i = c'.rank := by
      simp [searchLeft, hc, hc']
    have hother : ∀ j, j ≠ i → σ.stagesLeft (t + 1) j = σ.stagesLeft t j
        ∧ σ.searchLeft (t + 1) j = σ.searchLeft t j := fun j h => by
      simp only [stagesLeft, searchLeft, hj j h, and_self]
    have h9 := c'.stage_le_nine
    rcases hm.progress with ⟨hr, rfl, hbusy⟩ | hlt | ⟨heq, hlt⟩
    · refine .inl ⟨fun j => ?_, hbusy, ?_⟩
      · by_cases h : j = i
        · rw [h, hc', hc]
        · exact hj j h
      · rintro j w' d hw hd
        rw [ht, Turn.advance.injEq] at hw
        rw [← hw.1, hc, Option.some.injEq] at hd
        exact hd ▸ hr
    · refine .inr (Prod.Lex.left _ _ (Finset.sum_lt_sum (fun j _ => ?_) ⟨i, hi, by omega⟩))
      by_cases h : j = i
      · subst h
        omega
      · exact (hother j h).1.le
    · have hfst : (σ.left n (t + 1)).1 = (σ.left n t).1 := by
        simp only [left]
        refine Finset.sum_congr rfl fun j _ => ?_
        by_cases h : j = i
        · subst h
          omega
        · exact (hother j h).1
      have hsnd : (σ.left n (t + 1)).2 < (σ.left n t).2 := by
        simp only [left]
        refine Finset.sum_lt_sum (fun j _ => ?_) ⟨i, hi, by omega⟩
        by_cases h : j = i
        · subst h
          omega
        · exact (hother j h).2.le
      refine .inr (Prod.lex_def.2 (.inr ⟨hfst, hsnd⟩))

theorem exists_ready {t i : Nat} {c : Call} (hc : σ.call t i = some c)
    (hopen : ∀ a, c ≠ .finished a) :
    ∃ j d, σ.call t j = some d ∧ d.ready (σ.locator t).busy = true := by
  by_cases hb : (σ.locator t).busy = true
  · obtain ⟨j, d, hd, hin⟩ := (σ.isIn_exclusive t).2.1 hb
    refine ⟨j, d, hd, ?_⟩
    cases d <;> simp_all [Call.isIn, Call.generation?, Call.ready]
  · refine ⟨i, c, hc, ?_⟩
    cases c <;> simp_all [Call.ready]

theorem left_descends {n t m i : Nat} {w : Surroundings} {c : Call} (htm : t ≤ m)
    (hn : ∀ u, σ.begun u ≤ n) (hb : ∀ u, t ≤ u → σ.begun (u + 1) = σ.begun u)
    (hc : σ.call t i = some c) (hr : c.ready (σ.locator t).busy = true)
    (hm : σ m = .advance i w) :
    ∃ u, t ≤ u ∧ Prod.Lex (· < ·) (· < ·) (σ.left n (u + 1)) (σ.left n t) := by
  by_contra hno
  push Not at hno
  have same : ∀ u, t ≤ u → (∀ j, σ.call u j = σ.call t j)
      ∧ (σ.locator u).busy = (σ.locator t).busy := by
    intro u hu
    induction u, hu using Nat.le_induction with
    | base => exact ⟨fun _ => rfl, rfl⟩
    | succ u hu ih =>
      rcases σ.left_turn (hn u) (hb u hu) with ⟨h₁, h₂, -⟩ | hlex
      · exact ⟨fun j => (h₁ j).trans (ih.1 j), h₂.trans ih.2⟩
      · have hleft : σ.left n u = σ.left n t := by
          simp only [left, stagesLeft, searchLeft, ih.1]
        exact absurd (hleft ▸ hlex) (hno u hu)
  obtain ⟨h₁, h₂⟩ := same m htm
  rcases σ.left_turn (hn m) (hb m htm) with ⟨-, -, h⟩ | hlex
  · have := h i w c hm ((h₁ i).trans hc)
    rw [h₂, hr] at this
    cases this
  · have hleft : σ.left n m = σ.left n t := by
      simp only [left, stagesLeft, searchLeft, h₁]
    exact hno m htm (hleft ▸ hlex)

theorem begun_settles {n : Nat} (hn : ∀ t, σ.begun t ≤ n) :
    ∃ s, ∀ t, s ≤ t → σ.begun t = σ.begun s := by
  by_contra hno
  push Not at hno
  have grow : ∀ k, ∃ t, k ≤ σ.begun t := by
    intro k
    induction k with
    | zero => exact ⟨0, Nat.zero_le _⟩
    | succ k ih =>
      obtain ⟨s, hs⟩ := ih
      obtain ⟨t, hst, hne⟩ := hno s
      have := σ.begun_mono hst
      exact ⟨t, by omega⟩
  obtain ⟨t, ht⟩ := grow (n + 1)
  have := hn t
  omega

/-- If only finitely many calls begin and every caller gets its turn again and again, then from
some turn on all calls have their answers. -/
theorem all_return {n : Nat} (hn : ∀ t, σ.begun t ≤ n)
    (hfair : ∀ i t, i < σ.begun t → ∃ m, t ≤ m ∧ ∃ w, σ m = .advance i w) :
    ∃ s, ∀ t, s ≤ t → ∀ i c, σ.call t i = some c → ∃ a, c = .finished a := by
  obtain ⟨s, hs⟩ := σ.begun_settles hn
  have hb : ∀ u, s ≤ u → σ.begun (u + 1) = σ.begun u := fun u hu => by
    rw [hs u hu, hs (u + 1) (by omega)]
  -- what is left lessens until no call is ready
  have reach : ∀ p : Nat × Nat, ∀ t, s ≤ t → σ.left n t = p →
      ∃ u, t ≤ u ∧ ∀ i c, σ.call u i = some c → ∃ a, c = .finished a := by
    intro p
    induction p using (Prod.lex ⟨_, Nat.lt_wfRel.wf⟩ ⟨_, Nat.lt_wfRel.wf⟩).wf.induction with
    | _ p ih =>
      intro t hst hp
      by_cases hall : ∀ i c, σ.call t i = some c → ∃ a, c = .finished a
      · exact ⟨t, le_rfl, hall⟩
      · push Not at hall
        obtain ⟨i, c, hc, hopen⟩ := hall
        obtain ⟨j, d, hd, hr⟩ := σ.exists_ready hc hopen
        obtain ⟨m, htm, w, hm⟩ := hfair j t (σ.begun_of_call hd)
        obtain ⟨u, htu, hlex⟩ := σ.left_descends htm hn (fun u hu => hb u (hst.trans hu)) hd hr hm
        obtain ⟨v, huv, hv⟩ := ih _ (hp ▸ hlex) (u + 1) (by omega) rfl
        exact ⟨v, by omega, hv⟩
  obtain ⟨u, hsu, hu⟩ := reach _ s le_rfl rfl
  refine ⟨u, fun t hut i c hc => ?_⟩
  have hi : i < σ.begun u := by
    have := σ.begun_of_call hc
    rw [hs u hsu]
    rw [hs t (hsu.trans hut)] at this
    exact this
  rcases hd : σ.call u i with _ | d
  · rw [σ.call_eq_none] at hd
    omega
  · obtain ⟨a, rfl⟩ := hu i d hd
    rw [σ.call_finished hut hd, Option.some.injEq] at hc
    exact ⟨a, hc.symm⟩

end Schedule

end Toolchain

end DhrWorkbench
