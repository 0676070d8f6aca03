import DhrWorkbench.Proofs.SingleFlight

/-!
# Calls that fail

A call fails while it is in: its configuration or its roots cannot be had, or its search does not
complete. It hands the failure on, lets go of the locator and leaves no trace
(`failure_leaves_no_trace`). What the others see of it is nothing: to them the crowd is as if the
call had only begun (`Crowd.hide`), and the schedule without its steps takes them through the same
stages (`crowd_without`). In it the turns in which others wait for the call that fails are idle.
-/

namespace DhrWorkbench

namespace Toolchain

namespace Locator

/-- The locator, busy or not. -/
def withBusy (l : Locator) (busy : Bool) : Locator := { l with busy }

@[simp] theorem withBusy_busy (l : Locator) : l.withBusy l.busy = l := rfl

end Locator

namespace Call

/-- The next step of a call fails: its configuration or its roots cannot be had, or its search does
not complete. -/
def Fails (w : Surroundings) (failure : Failure) : Call → Prop
  | .configuring _ => w.config = .error failure
  | .rooting _ _ => w.roots.bind cleanRoots = .error failure
  | .searching _ search => ∃ lines,
      search.step w.host w.install w.probe = .inr (.error failure, lines)
  | _ => False

/-- A call that waits until no other call is in. -/
def waits : Call → Bool
  | .queued _ => true
  | _ => false

variable {w : Surroundings} {l l' : Locator} {c c' : Call}

theorem Fails.advance_eq {failure : Failure} (h : c.Fails w failure) (l : Locator) :
    c.advance w l = (l.release, .finished (.error failure)) := by
  cases c with
  | configuring g =>
    have hconfig : w.config = .error failure := h
    simp only [advance, hconfig, fail]
  | rooting g config =>
    have hroots : w.roots.bind cleanRoots = .error failure := h
    simp only [advance, hroots, fail]
  | searching g search =>
    obtain ⟨lines, hstep⟩ := h
    simp only [advance, hstep, fail]
  | _ => exact h.elim

/-- Of the locator a step changes only whether it is busy, unless the call stores an outcome. -/
theorem Move.stores_or_same (h : Move w l c l' c') :
    (∃ g outcome lines, c = .storing g outcome lines) ∨ l' = l.withBusy l'.busy := by
  cases h with
  | @store g outcome lines => exact .inl ⟨g, outcome, lines, rfl⟩
  | _ => exact .inr rfl

/-- A call that has not been let in and does not wait takes no notice of whether the locator is
busy, and changes nothing. -/
theorem advance_outside (hin : c.isIn = false) (hwaits : c.waits = false)
    (w : Surroundings) (l : Locator) (busy : Bool) :
    c.advance w (l.withBusy busy) = (l.withBusy busy, (c.advance w l).2) := by
  cases c with
  | entering => rfl
  | probing seen cached => rfl
  | confirming seen cached => rfl
  | queued seen => cases hwaits
  | finished answer => rfl
  | _ => cases hin

end Call

namespace Crowd

/-- The crowd as it is if a call has only begun: it is not in, and nobody waits for it. -/
def hide (c : Crowd) (i : ℕ) : Crowd where
  locator := c.locator.withBusy (c.locator.busy && !(c.calls[i]?).any Call.isIn)
  calls := c.calls.set i .entering

variable {c : Crowd} {i j : ℕ} {call : Call}

theorem take_advance (h : c.calls[j]? = some call) (w : Surroundings) :
    c.take (.advance j w)
      = ⟨(call.advance w c.locator).1, c.calls.set j (call.advance w c.locator).2⟩ := by
  simp only [take, h]

theorem take_idle (hj : c.calls.length ≤ j) (w : Surroundings) : c.take (.advance j w) = c := by
  simp only [take, List.getElem?_eq_none hj]

theorem hide_begin : (c.take .begin).hide i = (c.hide i).take .begin := by
  have hany : ((c.calls ++ [Call.entering])[i]?).any Call.isIn = (c.calls[i]?).any Call.isIn := by
    rcases Nat.lt_trichotomy i c.calls.length with hi | rfl | hi
    · rw [List.getElem?_append_left hi]
    · simp [Call.isIn, Call.generation?]
    · rw [List.getElem?_eq_none (by simp; omega), List.getElem?_eq_none (by omega)]
  have hset : (c.calls ++ [Call.entering]).set i .entering
      = c.calls.set i .entering ++ [Call.entering] := by
    rcases Nat.lt_or_ge i c.calls.length with hi | hi
    · rw [List.set_append_left _ _ hi]
    · rw [List.set_append_right _ _ hi, List.set_eq_of_length_le hi]
      cases i - c.calls.length <;> rfl
  simp only [take, hide, hany, hset]

theorem hide_invalidate : (c.take .invalidate).hide i = (c.hide i).take .invalidate := rfl

/-- A step of the call itself is not seen, unless it stores an outcome. -/
theorem hide_own (hc : c.calls[i]? = some call) (hstores : ∀ g v lines, call ≠ .storing g v lines)
    (w : Surroundings) : (c.take (.advance i w)).hide i = c.hide i := by
  have hi : i < c.calls.length := (List.getElem?_eq_some_iff.1 hc).1
  have hmove := Call.move_advance w c.locator call
  rw [take_advance hc]
  generalize call.advance w c.locator = next at hmove
  have hbusy : (next.1.busy && !next.2.isIn) = (c.locator.busy && !call.isIn) := by
    rcases hmove.isIn_cases with ⟨h₁, h₂⟩ | ⟨h₁, h₂, h₃, h₄⟩ | ⟨h₁, h₂, h₃⟩
    · rw [h₁, h₂]
    · rw [h₂, h₃, h₄]
      rfl
    · rw [h₁, h₂, h₃]
      simp
  have hsame : next.1 = c.locator.withBusy next.1.busy :=
    hmove.stores_or_same.resolve_left fun ⟨g, v, lines, h⟩ => hstores g v lines h
  simp only [hide, List.set_set, hc, List.getElem?_set_self hi, Option.any_some, hbusy]
  rw [hsame]
  rfl

/-- While the locator is busy, a call that waits stays where it is. -/
theorem take_wait (hc : c.calls[j]? = some call) (hwaits : call.waits = true)
    (hbusy : c.locator.busy = true) (w : Surroundings) : c.take (.advance j w) = c := by
  obtain ⟨hj, hget⟩ := List.getElem?_eq_some_iff.1 hc
  have hstays : call.advance w c.locator = (c.locator, call) := by
    cases call with
    | queued seen => simp only [Call.advance, hbusy, if_true]
    | _ => cases hwaits
  rw [take_advance hc, hstays, ← hget, List.set_getElem_self]

theorem hide_other (hij : j ≠ i) (hc : c.calls[j]? = some call)
    (hout : (c.calls[i]?).any Call.isIn = true →
      call.isIn = false ∧ call.waits = false) (w : Surroundings) :
    (c.take (.advance j w)).hide i = (c.hide i).take (.advance j w) := by
  have hc' : (c.hide i).calls[j]? = some call := by
    rw [hide, List.getElem?_set_ne (Ne.symm hij), hc]
  rw [take_advance hc, take_advance hc']
  simp only [hide, List.getElem?_set_ne hij, List.set_comm _ _ (Ne.symm hij)]
  cases hin : (c.calls[i]?).any Call.isIn with
  | true =>
    obtain ⟨h₁, h₂⟩ := hout hin
    have hsame := Call.advance_outside h₁ h₂ w c.locator c.locator.busy
    rw [Locator.withBusy_busy] at hsame
    rw [Call.advance_outside h₁ h₂ w c.locator, hsame]
  | false => simp

end Crowd

namespace Schedule

variable (σ : Schedule)

/-- In the turn a call fails. -/
def FailsAt (i t : ℕ) (failure : Failure) : Prop :=
  ∃ w c, σ t = .advance i w ∧ σ.call t i = some c ∧ c.Fails w failure

/-- The schedule without the steps of a call. The turns in which others would wait for it pass
without a step too; no call has the number of the one that begins next. -/
def without (i : ℕ) : Schedule := fun t =>
  match σ t with
  | .advance j w =>
    if j = i ∨ (σ.call t i).any Call.isIn ∧ (σ.call t j).any Call.waits then
      .advance (σ.begun t) w
    else .advance j w
  | turn => turn

variable {σ} {i d : ℕ} {failure : Failure}

theorem FailsAt.turn (h : σ.FailsAt i d failure) :
    σ.locator (d + 1) = (σ.locator d).release
      ∧ σ.call (d + 1) i = some (.finished (.error failure)) := by
  obtain ⟨w, c, ht, hc, hfails⟩ := h
  refine ⟨?_, ?_⟩
  · rw [locator, crowd, ht, Crowd.take_advance hc]
    exact congrArg Prod.fst (hfails.advance_eq _)
  · rw [call_advance ht hc, hfails.advance_eq]

theorem FailsAt.not_completes (h : σ.FailsAt i d failure) (t : ℕ) (v : Option Toolchain) :
    ¬ σ.Completes i t v := by
  intro hdone
  have hanswer := (σ.completes_serial hdone).2
  rcases Nat.le_total (d + 1) (t + 1) with hle | hle
  · rw [σ.call_finished hle h.turn.2] at hanswer
    cases hanswer
  · have hfailed := h.turn.2
    rw [σ.call_finished hle hanswer] at hfailed
    cases hfailed

theorem isIn_of_any {t : ℕ} (h : (σ.call t i).any Call.isIn = true) : σ.IsIn t i := by
  rcases hc : σ.call t i with _ | c
  · simp [hc] at h
  · exact ⟨c, hc, by simpa [hc] using h⟩

/-- Without a call that never completes a search the crowd is the same at any time, but for that
call. -/
theorem crowd_without (hi : ∀ t v, ¬ σ.Completes i t v) :
    ∀ t, (σ.without i).crowd t = (σ.crowd t).hide i
  | 0 => rfl
  | t + 1 => by
    -- A turn is either not seen, and then it is idle without the call, or it is the same there.
    rw [crowd, crowd_without hi t, crowd]
    rcases hturn : σ t with _ | ⟨j, w⟩ | _
    · have hsame : σ.without i t = .begin := by simp only [without, hturn]
      rw [hsame, Crowd.hide_begin]
    · by_cases hskip : j = i ∨ (σ.call t i).any Call.isIn ∧ (σ.call t j).any Call.waits
      · have hidle : σ.without i t = .advance (σ.begun t) w := by
          simp only [without, hturn, if_pos hskip]
        rw [hidle, Crowd.take_idle (by simp [Crowd.hide, begun])]
        rcases hskip with rfl | ⟨hin, hwaits⟩
        · rcases hc : σ.call t j with _ | c
          · rw [Crowd.take_idle (σ.call_eq_none.1 hc)]
          · have hstores : ∀ g v lines, c ≠ .storing g v lines := fun g v lines h =>
              hi t v ⟨w, g, lines, hturn, h ▸ hc⟩
            exact (Crowd.hide_own hc hstores w).symm
        · rcases hc : σ.call t j with _ | c
          · simp [hc] at hwaits
          · have hbusy := (σ.isIn_exclusive t).2.2 ⟨i, isIn_of_any hin⟩
            rw [Crowd.take_wait hc (by simpa [hc] using hwaits) hbusy]
      · have hsame : σ.without i t = .advance j w := by
          simp only [without, hturn, if_neg hskip]
        rw [not_or, not_and] at hskip
        rw [hsame]
        rcases hc : σ.call t j with _ | c
        · have hj := σ.call_eq_none.1 hc
          rw [Crowd.take_idle hj, Crowd.take_idle (by simpa [Crowd.hide, begun] using hj)]
        · refine (Crowd.hide_other hskip.1 hc (fun hin => ⟨?_, ?_⟩) w).symm
          -- while the hidden call is in no other is
          · by_contra hcin
            have hj : σ.IsIn t j := ⟨c, hc, by simpa using hcin⟩
            exact hskip.1 (σ.holder_unique hj (isIn_of_any hin))
          · simpa [hc] using hskip.2 hin
    · have hsame : σ.without i t = .invalidate := by simp only [without, hturn]
      rw [hsame, Crowd.hide_invalidate]

/-- No step of a call that never completes a search changes what the locator remembers or counts. -/
theorem locator_own (hi : ∀ t v, ¬ σ.Completes i t v) {t : ℕ} {w : Surroundings}
    (ht : σ t = .advance i w) :
    σ.locator (t + 1) = (σ.locator t).withBusy (σ.locator (t + 1)).busy := by
  rcases hc : σ.call t i with _ | c
  · have hsame : σ.crowd (t + 1) = σ.crowd t := by
      rw [crowd, ht, Crowd.take_idle (σ.call_eq_none.1 hc)]
    rw [locator, hsame]
    rfl
  · obtain ⟨c', -, hmove, -⟩ := σ.advance_turn ht hc
    refine hmove.stores_or_same.resolve_left ?_
    rintro ⟨g, v, lines, rfl⟩
    exact hi t v ⟨w, g, lines, ht, hc⟩

/-- A call that is let in searches, unless some search completed since its first read. -/
theorem searches_or_completed {j a t : ℕ} {w : Surroundings} {seen : Seen}
    (ha : σ.FirstReads j a) (ht : σ t = .advance j w) (hc : σ.call t j = some (.admitted seen)) :
    σ.call (t + 1) j = some (.configuring (σ.locator t).generation)
      ∨ ∃ k r v, a ≤ r ∧ r < t ∧ σ.Completes k r v
        ∧ σ.call (t + 1) j = some (.finished (.ok (σ.locator t).cached)) := by
  have hat : a < t := by
    by_contra hle
    obtain ⟨c, hc', hstage⟩ := σ.stage_mono (Nat.le_of_not_lt hle) hc
    rw [ha.2, Option.some.injEq] at hc'
    subst hc'
    cases hstage
  obtain ⟨c', hc', hmove, -⟩ := σ.advance_turn ht hc
  rcases hmove.of_admitted with ⟨hshares, rfl⟩ | ⟨-, rfl⟩
  · have hne := (Locator.shares_iff.1 hshares).1
    rw [σ.seen_serial ha hat hc rfl] at hne
    obtain ⟨k, r, v, har, hrt, hdone⟩ := σ.completes_of_serial_ne hat.le hne
    exact .inr ⟨k, r, v, har, hrt, hdone, hc'⟩
  · exact .inl hc'

/-- A call that fails hands its failure on and leaves no trace. No step of it changes what the
locator remembers or counts, also not its record, and the locator is free again after it. All
others are at any time where they are in the schedule without it; one that waits is let in in its
next turn if it is the next to ask, and searches itself unless another call completed a search
since its first read. And all calls return, if only each gets its turn again and again. -/
theorem failure_leaves_no_trace (h : σ.FailsAt i d failure) :
    (∀ t, d < t → σ.call t i = some (.finished (.error failure)))
      ∧ (∀ t w, σ t = .advance i w →
        σ.locator (t + 1) = (σ.locator t).withBusy (σ.locator (t + 1)).busy)
      ∧ (σ.locator (d + 1)).busy = false
      ∧ (∀ t c, (σ.without i).call t i = some c → c = .entering)
      ∧ (∀ t, (∀ j, j ≠ i → (σ.without i).call t j = σ.call t j)
        ∧ (σ.without i).locator t
          = (σ.locator t).withBusy ((σ.locator t).busy && !(σ.call t i).any Call.isIn))
      ∧ (∀ t, d < t → (σ.without i).locator t = σ.locator t)
      ∧ (∀ j w seen, σ (d + 1) = .advance j w → σ.call (d + 1) j = some (.queued seen) →
        σ.call (d + 2) j = some (.admitted seen))
      ∧ (∀ j a t w seen, σ.FirstReads j a → σ t = .advance j w →
        σ.call t j = some (.admitted seen) →
        σ.call (t + 1) j = some (.configuring (σ.locator t).generation)
          ∨ ∃ k r v, k ≠ i ∧ a ≤ r ∧ r < t ∧ σ.Completes k r v
            ∧ σ.call (t + 1) j = some (.finished (.ok (σ.locator t).cached)))
      ∧ ∀ n, (∀ t, σ.begun t ≤ n) →
        (∀ j t, j < σ.begun t → ∃ m, t ≤ m ∧ ∃ w, σ m = .advance j w) →
        ∃ u, ∀ t, u ≤ t → ∀ j c, σ.call t j = some c → ∃ a, c = .finished a := by
  have hi := h.not_completes
  have hlocator : ∀ t, (σ.without i).locator t
      = (σ.locator t).withBusy ((σ.locator t).busy && !(σ.call t i).any Call.isIn) := by
    intro t
    rw [locator, crowd_without hi t]
    rfl
  have hends : ∀ t, d < t → σ.call t i = some (.finished (.error failure)) := fun t hdt =>
    σ.call_finished hdt h.turn.2
  refine ⟨hends, fun t w ht => locator_own hi ht, ?_, fun t c hc => ?_,
    fun t => ⟨fun j hj => ?_, hlocator t⟩, fun t hdt => ?_, fun j w seen ht hc => ?_, ?_,
    fun n hn hfair => σ.all_return hn hfair⟩
  · rw [h.turn.1]
    rfl
  · rw [call, crowd_without hi t] at hc
    obtain ⟨_, rfl⟩ := List.getElem?_eq_some_iff.1 hc
    exact List.getElem_set_self _
  · rw [call, crowd_without hi t]
    exact List.getElem?_set_ne (Ne.symm hj)
  · rw [hlocator t, hends t hdt]
    simp [Call.isIn, Call.generation?]
  · obtain ⟨c', hc', hmove, -⟩ := σ.advance_turn ht hc
    rw [hmove.of_queued (by rw [h.turn.1]; rfl)] at hc'
    exact hc'
  · intro j a t w seen ha ht hc
    rcases searches_or_completed ha ht hc with hsearch | ⟨k, r, v, har, hrt, hdone, hshared⟩
    · exact .inl hsearch
    · exact .inr ⟨k, r, v, fun hk => hi r v (hk ▸ hdone), har, hrt, hdone, hshared⟩

/-- A search for the jar of somebody unknown. -/
def strangers : Surroundings := { settled with config := .ok ⟨"java", "~nosuchuser/x.jar", false⟩ }

/-- The second call waits while the search of the first one fails. -/
def crossed : Schedule := fun t =>
  ([Turn.begin, .begin, .advance 0 strangers, .advance 1 settled, .advance 0 strangers,
    .advance 1 settled] ++ List.replicate 5 (Turn.advance 0 strangers)
    ++ stepsOf 1 7).getD t .begin

theorem crossed_failsAt : crossed.FailsAt 0 10 (.path .noHome) := by
  have hc : crossed.call 10 0 = some (.searching 0 _) := rfl
  exact ⟨strangers, _, rfl, hc, _, rfl⟩

theorem crossed_leaves_no_trace : crossed.FailsAt 0 10 (.path .noHome)
    ∧ (∀ t, 10 < t → crossed.call t 0 = some (.finished (.error (.path .noHome))))
    ∧ crossed.call 11 1 = some (.queued ⟨0, 0⟩) ∧ crossed.call 12 1 = some (.admitted ⟨0, 0⟩)
    ∧ crossed.call 13 1 = some (.configuring 0)
    ∧ (crossed.without 0).call 18 1
      = some (.finished (.ok (some ⟨"/d.jar", .override, "java"⟩))) := by
  obtain ⟨hends, -, -, -, hsame, -, hletIn, -, -⟩ := failure_leaves_no_trace crossed_failsAt
  refine ⟨crossed_failsAt, hends, rfl, hletIn 1 settled ⟨0, 0⟩ rfl rfl, rfl, ?_⟩
  rw [(hsame 18).1 1 (by decide)]
  rfl

end Schedule
end Toolchain
end DhrWorkbench
