import DhrWorkbench.Proofs.CallProgress
import DhrWorkbench.Proofs.Provenance
import Mathlib.Tactic.IntervalCases

/-!
# One search for all

In a calm stretch of turns, which starts with no call under way and has no invalidation, every
search is let in at the one generation there is, so every search that completes is stored and stays
stored until the next one completes (`Calm.remembered`). A call that is let in after a search
completed since its first read finds the count of completed searches changed, and what is stored
current; so it shares that outcome and does not search, also when the outcome is that there is no
toolchain (`Calm.shares`). Where all first reads come before the first search completes, only one
search runs (`Calm.reads_unique`), and where no call is answered from the cache, all answers are
its outcome.
-/

namespace DhrWorkbench

namespace Toolchain

namespace Call.Move

variable {w : Surroundings} {l l' : Locator} {c c' : Call}

theorem seen_cases {seen : Seen} (h : Move w l c l' c') (hs : c'.seen? = some seen) :
    c.seen? = some seen ∨ (c = .entering ∧ seen = ⟨l.serial, l.generation⟩) := by
  cases h with
  | read h => exact .inr ⟨rfl, by simpa [seen?] using hs.symm⟩
  | readNone h => exact .inr ⟨rfl, by simpa [seen?] using hs.symm⟩
  | search hc hn => cases c' <;> simp_all [seen?, generation?]
  | probe => exact .inl hs
  | missing => exact .inl hs
  | overtaken => exact .inl hs
  | wait => exact .inl hs
  | acquire => exact .inl hs
  | _ => cases hs

theorem of_entering (h : Move w l .entering l' c') : 0 < c'.stage := by
  cases h with
  | read => simp [stage]
  | readNone => simp [stage]
  | search hc => cases hc
  | fail hc => cases hc

theorem of_admitted {seen : Seen} (h : Move w l (.admitted seen) l' c') :
    (l.shares seen.serial = true ∧ c' = .finished (.ok l.cached))
      ∨ (l.shares seen.serial = false ∧ c' = .configuring l.generation) := by
  cases h with
  | share h => exact .inl ⟨h, rfl⟩
  | letIn h => exact .inr ⟨h, rfl⟩
  | search hc => cases hc
  | fail hc => cases hc

theorem of_queued {seen : Seen} (h : Move w l (.queued seen) l' c') (hb : l.busy = false) :
    c' = .admitted seen := by
  cases h with
  | wait h => simp [hb] at h
  | acquire => rfl
  | search hc => cases hc
  | fail hc => cases hc

theorem of_configuring {g : Nat} (h : Move w l (.configuring g) l' c') :
    (Call.configuring g).stage < c'.stage := by
  cases h with
  | configure => simp [stage]
  | search hc hn h₁ => simp [stage] at h₁
  | fail => simp [stage]

theorem answer_cases {v : Option Toolchain} (h : Move w l c l' (.finished (.ok v))) :
    c = .finished (.ok v)
      ∨ (∃ seen cached, c = .confirming seen cached ∧ v = some cached)
      ∨ (∃ seen, c = .admitted seen ∧ l.shares seen.serial = true ∧ v = l.cached)
      ∨ ∃ g lines, c = .storing g v lines := by
  cases h with
  | confirm => exact .inr (.inl ⟨_, _, rfl, rfl⟩)
  | share h => exact .inr (.inr (.inl ⟨_, rfl, h, rfl⟩))
  | search hc hn => cases hn
  | store => exact .inr (.inr (.inr ⟨_, _, rfl⟩))
  | rest => exact .inl rfl

end Call.Move

def Turn.caller? : Turn → Option Nat
  | .advance caller _ => some caller
  | _ => none

namespace Schedule

variable (σ : Schedule)

/-- In the turn a call makes its first read. -/
def FirstReads (i t : Nat) : Prop := (∃ w, σ t = .advance i w) ∧ σ.call t i = some .entering

/-- In the turn a call that waits is let in. -/
def IsLetIn (i t : Nat) : Prop :=
  ∃ w seen, σ t = .advance i w ∧ σ.call t i = some (.queued seen) ∧ (σ.locator t).busy = false

/-- In the turn a call returns the toolchain that it read at first. -/
def AnsweredFromCache (i t : Nat) : Prop :=
  ∃ w seen cached, σ t = .advance i w ∧ σ.call t i = some (.confirming seen cached)
    ∧ σ.call (t + 1) i = some (.finished (.ok (some cached)))

/-- From turn `s` to turn `e` nothing is invalidated, and at its start no call is under way. -/
structure Calm (s e : Nat) : Prop where
  quiet : ∀ i c, σ.call s i = some c → ∃ a, c = .finished a
  still : ∀ t, s ≤ t → t < e → σ t ≠ .invalidate

theorem completes_serial {i t : Nat} {v : Option Toolchain} (h : σ.Completes i t v) :
    (σ.locator (t + 1)).serial = (σ.locator t).serial + 1
      ∧ σ.call (t + 1) i = some (.finished (.ok v)) := by
  obtain ⟨w, g, lines, ht, hc⟩ := h
  obtain ⟨c', hc', hm, -⟩ := σ.advance_turn ht hc
  obtain ⟨hl, rfl⟩ := hm.of_storing
  exact ⟨by rw [hl, Locator.store_serial], hc'⟩

theorem serial_succ (t : Nat) :
    (σ.locator (t + 1)).serial = (σ.locator t).serial ∨ ∃ i v, σ.Completes i t v := by
  rcases σ.locator_turn t with ⟨i, w, g, outcome, lines, ht, hc, -⟩ | ⟨-, hl⟩ | hk
  · exact .inr ⟨i, outcome, w, g, lines, ht, hc⟩
  · exact .inl (by rw [hl]; rfl)
  · exact .inl hk.serial

theorem serial_mono {s t : Nat} (h : s ≤ t) :
    (σ.locator s).serial ≤ (σ.locator t).serial := by
  induction t, h using Nat.le_induction with
  | base => exact le_rfl
  | succ t _ ih =>
    rcases σ.serial_succ t with h | ⟨i, v, h⟩
    · rwa [h]
    · rw [(σ.completes_serial h).1]
      omega

theorem completes_of_serial_ne {s t : Nat} (h : s ≤ t)
    (hne : (σ.locator t).serial ≠ (σ.locator s).serial) :
    ∃ i r v, s ≤ r ∧ r < t ∧ σ.Completes i r v := by
  induction t, h using Nat.le_induction with
  | base => exact absurd rfl hne
  | succ t hst ih =>
    rcases σ.serial_succ t with h | ⟨i, v, h⟩
    · obtain ⟨i, r, v, h₁, h₂, h₃⟩ := ih (h ▸ hne)
      exact ⟨i, r, v, h₁, by omega, h₃⟩
    · exact ⟨i, t, v, hst, by omega, h⟩

theorem seen_serial {i a t : Nat} {c : Call} {seen : Seen} (ha : σ.FirstReads i a) (hat : a < t)
    (hc : σ.call t i = some c) (hs : c.seen? = some seen) :
    seen.serial = (σ.locator a).serial := by
  obtain ⟨⟨w, hw⟩, hcall⟩ := ha
  induction t, hat using Nat.le_induction generalizing c with
  | base =>
    obtain ⟨c', hc', hm, -⟩ := σ.advance_turn hw hcall
    rw [Nat.succ_eq_add_one, hc', Option.some.injEq] at hc
    subst hc
    rcases hm.seen_cases hs with h | ⟨-, rfl⟩
    · cases h
    · rfl
  | succ t hat ih =>
    rcases σ.call_succ hc with ⟨-, hi, rfl⟩ | h | ⟨w', d, -, hd, hm⟩
    · cases hs
    · exact ih h hs
    · rcases hm.seen_cases hs with h | ⟨rfl, -⟩
      · exact ih hd h
      · -- after its first read a call is no longer entering
        obtain ⟨c', hc', hm', -⟩ := σ.advance_turn hw hcall
        obtain ⟨e, he, hle⟩ := σ.stage_mono hat hc'
        rw [hd, Option.some.injEq] at he
        subst he
        exact absurd hm'.of_entering (Nat.not_lt.2 hle)

theorem completes_functional {i t u : Nat} {v v' : Option Toolchain} (ht : σ.Completes i t v)
    (hu : σ.Completes i u v') : v = v' := by
  have key : ∀ {t u v v'}, σ.Completes i t v → σ.Completes i u v' → t ≤ u → v = v' := by
    intro t u v v' ht hu htu
    obtain ⟨_, _, _, -, hc⟩ := hu
    rcases Nat.eq_or_lt_of_le htu with rfl | hlt
    · obtain ⟨_, _, _, -, hc'⟩ := ht
      rw [hc', Option.some.injEq, Call.storing.injEq] at hc
      exact hc.2.1
    · rw [σ.call_finished hlt (σ.completes_serial ht).2] at hc
      cases hc
  rcases Nat.le_total t u with h | h
  · exact key ht hu h
  · exact (key hu ht h).symm

theorem not_searches_of_letIn {i q t : Nat} (hq : σ.IsLetIn i q) (htq : t ≤ q) :
    ¬ σ.Searches t i := by
  rintro ⟨c, hc, hg⟩
  obtain ⟨w, seen, -, hcall, -⟩ := hq
  obtain ⟨d, hd, hle⟩ := σ.stage_mono htq hc
  rw [hcall, Option.some.injEq] at hd
  subst hd
  cases c <;> simp [Call.generation?, Call.stage] at hg hle

namespace Calm

variable {σ} {s e : Nat} (h : σ.Calm s e)
include h

theorem generation?_eq {t i g : Nat} {c : Call} (hst : s ≤ t) (hte : t ≤ e)
    (hc : σ.call t i = some c) (hg : c.generation? = some g) : g = (σ.locator t).generation := by
  induction t, hst using Nat.le_induction generalizing c with
  | base =>
    obtain ⟨a, rfl⟩ := h.quiet i c hc
    cases hg
  | succ t hst ih =>
    rw [σ.generation_succ (h.still t hst hte)]
    rcases σ.call_succ hc with ⟨-, -, rfl⟩ | hc | ⟨w, d, -, hd, hm⟩
    · cases hg
    · exact ih (by omega) hc hg
    · rcases hm.generation_cases hg with ⟨_, -, -, -, hg⟩ | ⟨config, rfl, -⟩ | ⟨hg, -⟩
      · exact hg
      · exact ih (by omega) hd rfl
      · exact ih (by omega) hd hg

theorem stores {i r : Nat} {v : Option Toolchain} (hsr : s ≤ r) (hre : r < e)
    (hr : σ.Completes i r v) :
    (σ.locator (r + 1)).cached = v
      ∧ (σ.locator (r + 1)).storedGeneration = some (σ.locator (r + 1)).generation := by
  obtain ⟨w, g, lines, ht, hc⟩ := hr
  obtain ⟨c', -, hm, -⟩ := σ.advance_turn ht hc
  obtain rfl := h.generation?_eq hsr hre.le hc rfl
  obtain ⟨h₁, -, h₂⟩ := (σ.locator r).store_current v lines
  rw [hm.of_storing.1, Locator.store_generation]
  exact ⟨h₁, h₂⟩

/-- Once a search has completed in a calm stretch, what is stored is current, and is the outcome
of that search or a later one. -/
theorem remembered {i r t : Nat} {v : Option Toolchain} (hsr : s ≤ r) (hrt : r < t) (hte : t ≤ e)
    (hr : σ.Completes i r v) :
    (σ.locator t).storedGeneration = some (σ.locator t).generation
      ∧ ∃ j r', r ≤ r' ∧ r' < t ∧ σ.Completes j r' (σ.locator t).cached := by
  induction t, hrt using Nat.le_induction with
  | base =>
    obtain ⟨h₁, h₂⟩ := h.stores hsr (by omega) hr
    exact ⟨h₂, i, r, le_rfl, by omega, by rwa [Nat.succ_eq_add_one, h₁]⟩
  | succ t hrt ih =>
    have hst : s ≤ t := by omega
    obtain ⟨hg, j, r', hrr, hrt', hj⟩ := ih (by omega)
    rcases σ.locator_turn t with ⟨k, w, g, outcome, lines, ht, hc, -⟩ | ⟨ht, -⟩ | hk
    · have hk : σ.Completes k t outcome := ⟨w, g, lines, ht, hc⟩
      obtain ⟨h₁, h₂⟩ := h.stores hst (by omega) hk
      exact ⟨h₂, k, t, by omega, by omega, by rwa [h₁]⟩
    · exact absurd ht (h.still t hst hte)
    · rw [hk.storedGeneration, hk.generation, hk.cached]
      exact ⟨hg, j, r', hrr, by omega, hj⟩

/-- A call that is let in after a search completed since its first read answers in its next step,
with the outcome of that search or a later one. -/
theorem shares {i a r q j t : Nat} {v : Option Toolchain} (hsa : s ≤ a) (har : a < r)
    (hrq : r < q) (hqt : q < t) (hte : t ≤ e) (ha : σ.FirstReads i a) (hr : σ.Completes j r v)
    (hq : σ.IsLetIn i q) :
    ((∃ seen, σ.call t i = some (.admitted seen)) ∧ ∀ m, q < m → m < t → ∀ w, σ m ≠ .advance i w)
      ∨ ∃ k r' v', r ≤ r' ∧ r' < t ∧ σ.Completes k r' v'
        ∧ σ.call t i = some (.finished (.ok v')) := by
  induction t, hqt using Nat.le_induction with
  | base =>
    obtain ⟨w, seen, ht, hc, hb⟩ := hq
    obtain ⟨c', hc', hm, -⟩ := σ.advance_turn ht hc
    obtain rfl := hm.of_queued hb
    exact .inl ⟨⟨seen, hc'⟩, fun m h₁ h₂ => by omega⟩
  | succ t hqt ih =>
    rcases ih (by omega) with ⟨⟨seen, hc⟩, hno⟩ | ⟨k, r', v', h₁, h₂, h₃, h₄⟩
    · obtain ⟨c', hc', ⟨hne, rfl⟩ | ⟨w, -, hm⟩⟩ := σ.call_forward hc
      · refine .inl ⟨⟨seen, hc'⟩, fun m h₁ h₂ => ?_⟩
        rcases Nat.lt_or_ge m t with hmt | hmt
        · exact hno m h₁ hmt
        · obtain rfl : m = t := by omega
          exact hne
      · -- the count has changed and what is stored is current, so the call shares it
        obtain ⟨hg, k, r', h₁, h₂, h₃⟩ := h.remembered (by omega) (by omega : r < t) (by omega) hr
        have hseen := σ.seen_serial ha (by omega) hc rfl
        have hlt : (σ.locator a).serial < (σ.locator t).serial :=
          calc (σ.locator a).serial ≤ (σ.locator r).serial := σ.serial_mono har.le
            _ < (σ.locator (r + 1)).serial := by rw [(σ.completes_serial hr).1]; omega
            _ ≤ (σ.locator t).serial := σ.serial_mono (by omega)
        have hshares : (σ.locator t).shares seen.serial = true :=
          Locator.shares_iff.2 ⟨by omega, hg⟩
        rcases hm.of_admitted with ⟨-, rfl⟩ | ⟨hn, -⟩
        · exact .inr ⟨k, r', _, h₁, by omega, h₃, hc'⟩
        · rw [hshares] at hn
          cases hn
    · exact .inr ⟨k, r', v', h₁, by omega, h₃, σ.call_finished (Nat.le_succ t) h₄⟩

theorem begun_le {t i : Nat} {c : Call} (hst : s ≤ t) (hc : σ.call t i = some c)
    (hopen : ∀ a, c ≠ .finished a) : σ.begun s ≤ i := by
  by_contra hi
  rcases hd : σ.call s i with _ | d
  · rw [σ.call_eq_none] at hd
    exact hi hd
  · obtain ⟨a, rfl⟩ := h.quiet i d hd
    rw [σ.call_finished hst hd, Option.some.injEq] at hc
    exact hopen a hc.symm

theorem run_of_completes {i r : Nat} {v : Option Toolchain} (hsr : s ≤ r)
    (hr : σ.Completes i r v) : ∃ start, s ≤ start ∧ σ.SearchRun i start r v := by
  obtain ⟨w, g, lines, ht, hc⟩ := hr
  obtain ⟨start, hrun, -⟩ := σ.run_of_storing ht hc
  refine ⟨start, ?_, hrun⟩
  by_contra hlt
  obtain ⟨c, hc, hg⟩ := hrun.searches s (by omega) hsr
  obtain ⟨a, rfl⟩ := h.quiet i c hc
  cases hg

end Calm

/-- A calm stretch in which every call that begins returns a value, makes its first read before any
search completes, and is not answered from the cache. -/
structure Joint (s e : Nat) : Prop extends σ.Calm s e where
  returned : ∀ i, σ.begun s ≤ i → i < σ.begun e → ∃ v, σ.call e i = some (.finished (.ok v))
  firstReads : ∀ i a j r v, s ≤ a → a < e → σ.FirstReads i a → s ≤ r → r < e →
    σ.Completes j r v → a < r
  uncached : ∀ i t, s ≤ t → t < e → ¬ σ.AnsweredFromCache i t

namespace Joint

variable {σ} {s e : Nat} (h : σ.Joint s e)
include h

theorem seen_serial {t i : Nat} {c : Call} {seen : Seen} (hst : s ≤ t) (hte : t ≤ e)
    (hc : σ.call t i = some c) (hs : c.seen? = some seen) :
    seen.serial = (σ.locator s).serial := by
  induction t, hst using Nat.le_induction generalizing c with
  | base =>
    obtain ⟨a, rfl⟩ := h.quiet i c hc
    cases hs
  | succ t hst ih =>
    rcases σ.call_succ hc with ⟨-, -, rfl⟩ | hc | ⟨w, d, ht, hd, hm⟩
    · cases hs
    · exact ih (by omega) hc hs
    · rcases hm.seen_cases hs with hs | ⟨rfl, rfl⟩
      · exact ih (by omega) hd hs
      · by_contra hne
        obtain ⟨j, r, v, hsr, hrt, hr⟩ := σ.completes_of_serial_ne hst hne
        have := h.firstReads i t j r v hst (by omega) ⟨⟨w, ht⟩, hd⟩ hsr (by omega) hr
        omega

/-- While a call searches, no search has completed yet. -/
theorem serial_of_searches {t i : Nat} (hst : s ≤ t) (hte : t ≤ e) (hi : σ.Searches t i) :
    (σ.locator t).serial = (σ.locator s).serial := by
  induction t, hst using Nat.le_induction generalizing i with
  | base => rfl
  | succ t hst ih =>
    obtain ⟨c, hc, hsome⟩ := hi
    -- the call that searches is the only one that could have completed, and it has not
    have hsame : (σ.locator (t + 1)).serial = (σ.locator t).serial ∨ ¬ σ.Searches t i := by
      rcases σ.serial_succ t with h | ⟨j, v, hj⟩
      · exact .inl h
      · refine .inr fun hi => ?_
        obtain rfl := σ.holder_unique (σ.isIn_of_searches hi)
          (σ.isIn_of_searches (σ.searches_of_completes hj))
        rw [(σ.completes_serial hj).2, Option.some.injEq] at hc
        subst hc
        cases hsome
    rcases σ.call_succ hc with ⟨-, -, rfl⟩ | hc' | ⟨w, d, ht, hd, hm⟩
    · cases hsome
    · have hi : σ.Searches t i := ⟨c, hc', hsome⟩
      rw [hsame.resolve_right (not_not.2 hi), ih (by omega) hi]
    · obtain ⟨g, hg⟩ := Option.isSome_iff_exists.1 hsome
      rcases hm.generation_cases hg with ⟨seen, rfl, hno, rfl, -⟩ | ⟨config, rfl, -⟩ | ⟨hg', -⟩
      · -- were the count another one, the call would have shared what is stored
        have hkeep : (σ.locator (t + 1)).serial = (σ.locator t).serial := by
          rcases hm.stores_or_keeps with ⟨_, _, _, h, -⟩ | hk
          · cases h
          · exact hk.serial
        rw [hkeep]
        by_contra hne
        obtain ⟨j, r, v, hsr, hrt, hr⟩ := σ.completes_of_serial_ne hst hne
        obtain ⟨hcur, -⟩ := h.remembered hsr hrt (by omega) hr
        have hseen := h.seen_serial hst (by omega) hd rfl
        rw [Locator.shares_iff.2 ⟨by rw [hseen]; exact hne, hcur⟩] at hno
        cases hno
      · have hi : σ.Searches t i := ⟨_, hd, rfl⟩
        rw [hsame.resolve_right (not_not.2 hi), ih (by omega) hi]
      · have hi : σ.Searches t i := ⟨d, hd, by simp [hg']⟩
        rw [hsame.resolve_right (not_not.2 hi), ih (by omega) hi]

theorem no_failure {t i : Nat} {f : Failure} (hte : t ≤ e) (hi : σ.begun s ≤ i) :
    σ.call t i ≠ some (.finished (.error f)) := by
  intro hc
  have he := σ.call_finished hte hc
  obtain ⟨v, hv⟩ := h.returned i hi (σ.begun_of_call he)
  rw [he] at hv
  cases hv

/-- Only one call reads a configuration, and only once. -/
theorem reads_unique {i j a b : Nat} (hsa : s ≤ a) (hab : a ≤ b) (hbe : b < e)
    (hi : σ.ReadsConfig i a) (hj : σ.ReadsConfig j b) : i = j ∧ a = b := by
  obtain ⟨w, config, g, ht, hw, hc⟩ := hi
  obtain ⟨_, _, g', -, -, hd⟩ := hj
  have hsb : σ.Searches b j := ⟨_, hd, rfl⟩
  have hserial := h.serial_of_searches (by omega) hbe.le hsb
  have hbegun : σ.begun s ≤ i := h.begun_le hsa hc (by simp)
  obtain ⟨c', hc', hgo | ⟨f, rfl⟩ | ⟨v, d, had, hdb, hdone, rfl⟩⟩ := σ.searches_until hab hc rfl
  · obtain rfl := σ.holder_unique (σ.isIn_of_searches ⟨c', hc', by simp [hgo]⟩)
      (σ.isIn_of_searches hsb)
    refine ⟨rfl, ?_⟩
    by_contra hne
    -- past its reading, the call is at a later stage
    obtain ⟨n, hn, hm, -⟩ := σ.advance_turn ht hc
    obtain ⟨n', hn', hle⟩ := σ.stage_mono (by omega : a + 1 ≤ b) hn
    rw [hd, Option.some.injEq] at hn'
    subst hn'
    exact absurd (hm.of_configuring) (Nat.not_lt.2 hle)
  · exact absurd hc' (h.no_failure hbe.le hbegun)
  · -- a search that completed before would show in the count
    have h₁ := (σ.completes_serial hdone).1
    have h₂ := σ.serial_mono (by omega : d + 1 ≤ b)
    have h₃ := σ.serial_mono (by omega : s ≤ d)
    omega

theorem answer_run {t i : Nat} {v : Option Toolchain} (hst : s ≤ t) (hte : t ≤ e)
    (hi : σ.begun s ≤ i) (hc : σ.call t i = some (.finished (.ok v))) :
    ∃ j start stop, s ≤ start ∧ stop < e ∧ σ.SearchRun j start stop v := by
  induction t, hst using Nat.le_induction with
  | base =>
    have := σ.begun_of_call hc
    omega
  | succ t hst ih =>
    rcases σ.call_succ hc with ⟨-, -, h'⟩ | hc | ⟨w, d, ht, hd, hm⟩
    · cases h'
    · exact ih (by omega) hc
    · rcases hm.answer_cases with rfl | ⟨seen, cached, rfl, rfl⟩ | ⟨seen, rfl, hshare, rfl⟩
        | ⟨g, lines, rfl⟩
      · exact ih (by omega) hd
      · exact absurd ⟨w, seen, cached, ht, hd, hc⟩ (h.uncached i t hst (by omega))
      · have hseen := h.seen_serial hst (by omega) hd rfl
        have hne := (Locator.shares_iff.1 hshare).1
        rw [hseen] at hne
        obtain ⟨j, r, v, hsr, hrt, hr⟩ := σ.completes_of_serial_ne hst hne
        obtain ⟨-, k, r', hrr, hrt', hk⟩ := h.remembered hsr hrt (by omega) hr
        obtain ⟨start, hstart, hrun⟩ := h.run_of_completes (by omega) hk
        exact ⟨k, start, r', hstart, by omega, hrun⟩
      · obtain ⟨start, hstart, hrun⟩ := h.run_of_completes hst ⟨w, g, lines, ht, hd⟩
        exact ⟨i, start, t, hstart, by omega, hrun⟩

theorem one_search (hsome : σ.begun s < σ.begun e) :
    ∃ j start stop v, s ≤ start ∧ stop < e ∧ σ.SearchRun j start stop v
      ∧ (∀ i a, s ≤ a → a < e → σ.ReadsConfig i a → i = j ∧ a = start)
      ∧ ∀ i, σ.begun s ≤ i → i < σ.begun e → σ.call e i = some (.finished (.ok v)) := by
  have hse : s ≤ e := by
    by_contra hlt
    have := σ.begun_mono (Nat.le_of_not_le hlt)
    omega
  have unique : ∀ i j a b, s ≤ a → a < e → s ≤ b → b < e → σ.ReadsConfig i a →
      σ.ReadsConfig j b → i = j ∧ a = b := by
    intro i j a b hsa hae hsb hbe hi hj
    rcases Nat.le_total a b with hab | hba
    · exact h.reads_unique hsa hab hbe hi hj
    · obtain ⟨h₁, h₂⟩ := h.reads_unique hsb hba hae hj hi
      exact ⟨h₁.symm, h₂.symm⟩
  obtain ⟨v, hv⟩ := h.returned (σ.begun s) le_rfl hsome
  obtain ⟨j, start, stop, hstart, hstop, hrun⟩ := h.answer_run hse le_rfl le_rfl hv
  refine ⟨j, start, stop, v, hstart, hstop, hrun, fun i a hsa hae hi => ?_, fun i hi hie => ?_⟩
  · exact unique i j a start hsa hae hstart (hrun.lt.trans hstop) hi hrun.reads
  · obtain ⟨v', hv'⟩ := h.returned i hi hie
    obtain ⟨j', start', stop', hstart', hstop', hrun'⟩ := h.answer_run hse le_rfl hi hv'
    obtain ⟨rfl, -⟩ := unique j' j start' start hstart' (hrun'.lt.trans hstop') hstart
      (hrun.lt.trans hstop) hrun'.reads hrun.reads
    rw [hv', σ.completes_functional hrun'.completes hrun.completes]

end Joint

/-- Single flight. In a calm stretch, a call that is let in after a search completed since its first
read never searches, and its next step answers with the stored outcome of that search or a later
one. Hence where all calls of the stretch return, make their first reads before any search
completes, and none is answered from the cache, exactly one search runs and all calls return its
outcome. And calls do return, if only each that has begun gets its turn again and again. -/
theorem single_flight {s e : Nat} (h : σ.Calm s e) :
    (∀ i a j r v q, s ≤ a → a < r → r < q → q < e → σ.FirstReads i a → σ.Completes j r v →
        σ.IsLetIn i q →
      (∀ t, t ≤ e → ¬ σ.Searches t i) ∧ ∀ t, q < t → t ≤ e →
        ((∃ seen, σ.call t i = some (.admitted seen))
            ∧ ∀ m, q < m → m < t → ∀ w, σ m ≠ .advance i w)
          ∨ ∃ k r' v', r ≤ r' ∧ r' < t ∧ σ.Completes k r' v'
            ∧ (σ.locator (r' + 1)).cached = v' ∧ σ.call t i = some (.finished (.ok v')))
      ∧ (σ.Joint s e → σ.begun s < σ.begun e →
        ∃ j start stop v, s ≤ start ∧ stop < e ∧ σ.SearchRun j start stop v
          ∧ (∀ i a, s ≤ a → a < e → σ.ReadsConfig i a → i = j ∧ a = start)
          ∧ ∀ i, σ.begun s ≤ i → i < σ.begun e → σ.call e i = some (.finished (.ok v)))
      ∧ ∀ n, (∀ t, σ.begun t ≤ n) →
        (∀ i t, i < σ.begun t → ∃ m, t ≤ m ∧ ∃ w, σ m = .advance i w) →
        ∃ u, ∀ t, u ≤ t → ∀ i c, σ.call t i = some c → ∃ a, c = .finished a := by
  refine ⟨fun i a j r v q hsa har hrq hqe ha hr hq => ?_, fun hj => hj.one_search,
    fun n hn hfair => σ.all_return hn hfair⟩
  refine ⟨fun t hte => ?_, fun t hqt hte => ?_⟩
  · rcases Nat.lt_or_ge q t with hqt | htq
    · rintro ⟨c, hc, hg⟩
      rcases h.shares hsa har hrq hqt hte ha hr hq with ⟨⟨seen, hc'⟩, -⟩ | ⟨_, _, _, -, -, -, hc'⟩
        <;> rw [hc', Option.some.injEq] at hc <;> subst hc <;> cases hg
    · exact σ.not_searches_of_letIn hq htq
  · rcases h.shares hsa har hrq hqt hte ha hr hq with hin | ⟨k, r', v', h₁, h₂, h₃, h₄⟩
    · exact .inl hin
    · exact .inr ⟨k, r', v', h₁, h₂, h₃, (h.stores (by omega) (by omega) h₃).1, h₄⟩

def barren : Surroundings := { settled with config := .ok ⟨"java", "", false⟩ }

/-- Two calls, of which the second waits while the first searches in vain. -/
def pair : Schedule := fun t =>
  if t < 2 then .begin
  else .advance (([0, 1, 0, 0, 1, 0, 0, 0, 0, 0, 1, 1] : List Nat).getD (t - 2) (t % 2)) barren

theorem pair_stages : ∀ t ∈ List.range 14, ∀ i ∈ List.range 2, (pair t).caller? = some i →
    ((pair.call t i).map Call.stage = some 0 → t < 4)
      ∧ ((pair.call t i).map Call.stage = some 8 → t = 11)
      ∧ (pair.call t i).map Call.stage ≠ some 2 := by
  decide

theorem pair_joint : pair.Joint 0 14 := by
  have stages : ∀ {t i w c}, t < 14 → pair t = .advance i w → pair.call t i = some c →
      (c.stage = 0 → t < 4) ∧ (c.stage = 8 → t = 11) ∧ c.stage ≠ 2 := by
    intro t i w c ht hw hc
    have hi : i < 2 := (pair.begun_of_call hc).trans_le (pair.begun_mono ht.le)
    have := pair_stages t (List.mem_range.2 ht) i (List.mem_range.2 hi) (by rw [hw]; rfl)
    simpa [hc] using this
  refine ⟨⟨fun i c hc => ?_, fun t _ _ => ?_⟩, fun i _ hi => ?_, ?_, ?_⟩
  · cases hc
  · simp only [pair]
    split <;> simp
  · have hi : i < 2 := hi
    interval_cases i
    · exact ⟨none, rfl⟩
    · exact ⟨none, rfl⟩
  · rintro i a j r v - ha ⟨⟨w, hw⟩, hc⟩ - hr ⟨w', g, lines, hw', hc'⟩
    have h₁ := (stages ha hw hc).1 rfl
    have h₂ := (stages hr hw' hc').2.1 rfl
    omega
  · rintro i t - ht ⟨w, seen, cached, hw, hc, -⟩
    exact (stages ht hw hc).2.2 rfl

theorem pair_one_search : pair.Joint 0 14 ∧ pair.begun 0 < pair.begun 14
    ∧ ∃ j start stop v, 0 ≤ start ∧ stop < 14 ∧ pair.SearchRun j start stop v
      ∧ (∀ i a, 0 ≤ a → a < 14 → pair.ReadsConfig i a → i = j ∧ a = start)
      ∧ ∀ i, pair.begun 0 ≤ i → i < pair.begun 14 → pair.call 14 i = some (.finished (.ok v)) :=
  ⟨pair_joint, by decide, (single_flight pair pair_joint.toCalm).2.1 pair_joint (by decide)⟩

end Schedule

end Toolchain

end DhrWorkbench
