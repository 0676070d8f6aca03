import DhrWorkbench.Proofs.Crowd

/-!
# Where answers come from

Every toolchain that a call returns, and every outcome that the locator remembers, is that of some
search. `Schedule.SearchRun` names the search by the turn in which it read its configuration and
the turn in which it stored its outcome. The generation at which a search was let in is at most
that of the turn in which it reads its configuration. So an outcome that is stored, which takes the
generation to be the same still, was configured after all invalidations so far
(`remembered_run`); and so was a value that a call takes from the locator, for the invalidations
before the call began (`inHand_run`). `Schedule.RunWith` also names what the search read, the
configuration and the roots, and every search is such a run (`SearchRun.runWith`).
-/

namespace DhrWorkbench

namespace Toolchain

/-- What the status, the stored generation and the remembered toolchain say of each other. -/
structure Locator.Sound (l : Locator) : Prop where
  resolved : l.status = .resolved ↔ l.cached.isSome
  stored_le : ∀ g, l.storedGeneration = some g → g ≤ l.generation
  unknown : l.status = .unknown ↔ l.storedGeneration ≠ some l.generation

namespace Locator.Sound

theorem fresh : Locator.fresh.Sound := ⟨by simp [Locator.fresh], by simp [Locator.fresh],
  by simp [Locator.fresh]⟩

theorem invalidate {l : Locator} (h : l.Sound) : l.invalidate.Sound := by
  refine ⟨by simp [Locator.invalidate], fun g hg => ?_, ?_⟩
  · exact (h.stored_le g hg).trans (Nat.le_succ _)
  · simp only [Locator.invalidate, true_iff]
    intro hg
    have := h.stored_le _ hg
    omega

theorem store {l : Locator} (h : l.Sound) (g : Nat) (outcome : Option Toolchain)
    (lines : List Text) : (l.store g outcome lines).Sound := by
  by_cases hg : g = l.generation
  · subst hg
    obtain ⟨h₁, h₂, h₃⟩ := l.store_current outcome lines
    refine ⟨?_, ?_, ?_⟩
    · rw [h₁, h₂]
      cases outcome <;> simp
    · simp [h₃]
    · rw [h₂, h₃, l.store_generation]
      cases outcome <;> simp
  · obtain ⟨h₁, h₂, h₃⟩ := l.store_stale outcome lines hg
    refine ⟨?_, ?_, ?_⟩
    · rw [h₁, h₂, h.resolved]
    · rw [h₃, l.store_generation]
      exact h.stored_le
    · rw [h₂, h₃, l.store_generation, h.unknown]

theorem keeps {l l' : Locator} (h : l.Sound) (hk : l.Keeps l') : l'.Sound := by
  refine ⟨?_, ?_, ?_⟩
  · rw [hk.status, hk.cached, h.resolved]
  · rw [hk.storedGeneration, hk.generation]
    exact h.stored_le
  · rw [hk.status, hk.storedGeneration, hk.generation, h.unknown]

end Locator.Sound

namespace Call

/-- The value that a call is about to confirm or has returned. -/
def inHand? : Call → Option (Option Toolchain)
  | .probing _ cached => some (some cached)
  | .confirming _ cached => some (some cached)
  | .finished (.ok outcome) => some outcome
  | _ => none

namespace Move

variable {w : Surroundings} {l l' : Locator} {c c' : Call}

/-- What a call has in hand it had before, found itself, or took from the locator while that
remembered something. -/
theorem inHand_cases {v : Option Toolchain} (h : Move w l c l' c') (hv : c'.inHand? = some v) :
    c.inHand? = some v ∨ (∃ g lines, c = .storing g v lines)
      ∨ (l.cached = v ∧ (l.cached.isSome ∨ l.storedGeneration = some l.generation)) := by
  cases h with
  | read h => exact .inr (.inr ⟨by simpa [inHand?, h] using hv, .inl (by simp [h])⟩)
  | probe => exact .inl hv
  | confirm => exact .inl hv
  | share h =>
    exact .inr (.inr ⟨by simpa [inHand?] using hv, .inr (Locator.shares_iff.1 h).2⟩)
  | search hc hn => cases c' <;> simp_all [inHand?, generation?]
  | @store g outcome lines =>
    simp only [inHand?, Option.some.injEq] at hv
    exact .inr (.inl ⟨g, lines, by rw [hv]⟩)
  | rest => exact .inl hv
  | _ => cases hv

theorem generation_cases {g : Nat} (h : Move w l c l' c') (hg : c'.generation? = some g) :
    (∃ seen, c = .admitted seen ∧ l.shares seen.serial = false ∧ c' = .configuring g
        ∧ g = l.generation)
      ∨ (∃ config, c = .configuring g ∧ w.config = .ok config)
      ∨ (c.generation? = some g ∧ 6 ≤ c.stage) := by
  cases h with
  | @letIn seen h =>
    simp only [generation?, Option.some.injEq] at hg
    exact .inl ⟨seen, rfl, h, by rw [hg], hg.symm⟩
  | @configure g' config h =>
    simp only [generation?, Option.some.injEq] at hg
    exact .inr (.inl ⟨config, by rw [hg], h⟩)
  | search hc hn h₁ h₂ h₃ =>
    rw [hn, Option.some.injEq] at hg
    exact .inr (.inr ⟨hg ▸ hc, h₁⟩)
  | _ => cases hg

theorem of_generation {g : Nat} (h : Move w l c l' c') (hg : c.generation? = some g) :
    c'.generation? = some g ∨ (∃ failure, c' = .finished (.error failure))
      ∨ ∃ outcome lines, c = .storing g outcome lines ∧ c' = .finished (.ok outcome) := by
  cases h with
  | configure h => exact .inl hg
  | search hc hn =>
    rw [hc] at hg
    exact .inl (hn.trans hg)
  | fail hc => exact .inr (.inl ⟨_, rfl⟩)
  | @store g' outcome lines =>
    simp only [generation?, Option.some.injEq] at hg
    exact .inr (.inr ⟨outcome, lines, by rw [hg], rfl⟩)
  | _ => cases hg

end Move

end Call

namespace Schedule

variable (σ : Schedule)

/-- In the turn a call that searches reads its configuration. -/
def ReadsConfig (i t : Nat) : Prop :=
  ∃ w config g, σ t = .advance i w ∧ w.config = .ok config ∧ σ.call t i = some (.configuring g)

/-- In the turn a call stores the outcome of its search, and returns it. -/
def Completes (i t : Nat) (outcome : Option Toolchain) : Prop :=
  ∃ w g lines, σ t = .advance i w ∧ σ.call t i = some (.storing g outcome lines)

/-- Before the turn a call is searching. -/
def Searches (t i : Nat) : Prop := ∃ c, σ.call t i = some c ∧ c.generation?.isSome

/-- A search from the turn in which it reads its configuration to the turn in which it stores its
outcome. -/
structure SearchRun (i start stop : Nat) (outcome : Option Toolchain) : Prop where
  lt : start < stop
  reads : σ.ReadsConfig i start
  searches : ∀ t, start ≤ t → t ≤ stop → σ.Searches t i
  completes : σ.Completes i stop outcome

theorem sound : ∀ t, (σ.locator t).Sound
  | 0 => Locator.Sound.fresh
  | t + 1 => by
    have ih := sound t
    rcases σ.locator_turn t with ⟨_, _, g, outcome, lines, -, -, hl⟩ | ⟨-, hl⟩ | hk
    · rw [hl]
      exact ih.store g outcome lines
    · rw [hl]
      exact ih.invalidate
    · exact ih.keeps hk

/-- A call that searches, and was let in at a generation, is about to read its configuration, or
has read it at no earlier generation and has been searching since. -/
def Started (t i g : Nat) (c : Call) : Prop :=
  (c = .configuring g ∧ g ≤ (σ.locator t).generation)
    ∨ ∃ r, r < t ∧ σ.ReadsConfig i r ∧ g ≤ (σ.locator r).generation
      ∧ ∀ u, r ≤ u → u ≤ t → σ.Searches u i

variable {σ} in
theorem Started.generation_le {t i g : Nat} {c : Call} (h : σ.Started t i g c) :
    g ≤ (σ.locator t).generation := by
  rcases h with ⟨-, h⟩ | ⟨r, hr, -, h, -⟩
  · exact h
  · exact h.trans (σ.generation_mono hr.le)

theorem searches_succ {r t i g : Nat} {c : Call} (h : ∀ u, r ≤ u → u ≤ t → σ.Searches u i)
    (hc : σ.call (t + 1) i = some c) (hg : c.generation? = some g) :
    ∀ u, r ≤ u → u ≤ t + 1 → σ.Searches u i := by
  intro u hru hut
  rcases Nat.lt_or_ge t u with htu | htu
  · obtain rfl : u = t + 1 := by omega
    exact ⟨c, hc, by simp [hg]⟩
  · exact h u hru htu

theorem started {t i : Nat} {c : Call} (hc : σ.call t i = some c) :
    ∀ g, c.generation? = some g → σ.Started t i g c := by
  refine σ.call_induction (P := fun t i c => σ.call t i = some c →
    ∀ g, c.generation? = some g → σ.Started t i g c) ?_ ?_ ?_ hc hc
  · intro t i _ _ _ g hg
    cases hg
  · intro t i c hc ih hc' g hg
    rcases ih hc g hg with ⟨h₁, h₂⟩ | ⟨r, hr, h₁, h₂, h₃⟩
    · exact .inl ⟨h₁, h₂.trans (σ.generation_mono (Nat.le_succ t))⟩
    · exact .inr ⟨r, by omega, h₁, h₂, σ.searches_succ h₃ hc' hg⟩
  · intro t i w c c' ht hc hc' hm ih _ g hg
    rcases hm.generation_cases hg with ⟨seen, -, -, rfl, rfl⟩ | ⟨config, rfl, hw⟩ | ⟨hg', h6⟩
    · exact .inl ⟨rfl, σ.generation_mono (Nat.le_succ t)⟩
    · have hnow : ∀ u, t ≤ u → u ≤ t → σ.Searches u i := by
        intro u hu hut
        obtain rfl : u = t := by omega
        exact ⟨_, hc, rfl⟩
      exact .inr ⟨t, by omega, ⟨w, config, g, ht, hw, hc⟩, (ih hc g rfl).generation_le,
        σ.searches_succ hnow hc' hg⟩
    · rcases ih hc g hg' with ⟨rfl, -⟩ | ⟨r, hr, h₁, h₂, h₃⟩
      · simp [Call.stage] at h6
      · exact .inr ⟨r, by omega, h₁, h₂, σ.searches_succ h₃ hc' hg⟩

theorem searches_until {s t i g : Nat} {c : Call} (h : s ≤ t) (hc : σ.call s i = some c)
    (hg : c.generation? = some g) :
    ∃ c', σ.call t i = some c' ∧ (c'.generation? = some g ∨ (∃ f, c' = .finished (.error f))
      ∨ ∃ v d, s ≤ d ∧ d < t ∧ σ.Completes i d v ∧ c' = .finished (.ok v)) := by
  induction t, h using Nat.le_induction with
  | base => exact ⟨c, hc, .inl hg⟩
  | succ t hst ih =>
    obtain ⟨d, hd, hgd | ⟨f, rfl⟩ | ⟨v, u, hsu, hut, hu, rfl⟩⟩ := ih
    · obtain ⟨d', hd', ⟨-, rfl⟩ | ⟨w, ht, hm⟩⟩ := σ.call_forward hd
      · exact ⟨d', hd', .inl hgd⟩
      · rcases hm.of_generation hgd with h | ⟨f, rfl⟩ | ⟨v, lines, rfl, rfl⟩
        · exact ⟨d', hd', .inl h⟩
        · exact ⟨_, hd', .inr (.inl ⟨f, rfl⟩)⟩
        · exact ⟨_, hd', .inr (.inr ⟨v, t, hst, by omega, ⟨w, g, lines, ht, hd⟩, rfl⟩)⟩
    · exact ⟨_, σ.call_finished (Nat.le_succ t) hd, .inr (.inl ⟨f, rfl⟩)⟩
    · refine ⟨_, σ.call_finished (Nat.le_succ t) hd, .inr (.inr ⟨v, u, hsu, ?_, hu, rfl⟩)⟩
      omega

/-- What a search stores that was under way at an invalidation changes nothing of what is
remembered. -/
theorem stale_store {i s k t : Nat} {outcome : Option Toolchain} (hsk : s ≤ k) (hkt : k < t)
    (hs : σ.Searches s i) (hk : σ k = .invalidate) (ht : σ.Completes i t outcome) :
    (σ.locator (t + 1)).cached = (σ.locator t).cached
      ∧ (σ.locator (t + 1)).status = (σ.locator t).status
      ∧ (σ.locator (t + 1)).storedGeneration = (σ.locator t).storedGeneration := by
  obtain ⟨c, hc, hsome⟩ := hs
  obtain ⟨g, hg⟩ := Option.isSome_iff_exists.1 hsome
  obtain ⟨w, g', lines, hturn, hst⟩ := ht
  obtain ⟨c', hc', hsame⟩ := σ.searches_until (hsk.trans hkt.le) hc hg
  rw [hst, Option.some.injEq] at hc'
  subst hc'
  obtain rfl : g' = g := by simpa [Call.generation?] using hsame
  have hlt : g' < (σ.locator t).generation :=
    calc g' ≤ (σ.locator s).generation := (σ.started hc g' hg).generation_le
      _ ≤ (σ.locator k).generation := σ.generation_mono hsk
      _ < (σ.locator (k + 1)).generation := by rw [σ.generation_invalidate hk]; omega
      _ ≤ (σ.locator t).generation := σ.generation_mono hkt
  obtain ⟨d', -, hm, -⟩ := σ.advance_turn hturn hst
  rw [hm.of_storing.1]
  exact Locator.store_stale outcome lines hlt.ne

theorem searches_of_completes {t i : Nat} {v : Option Toolchain} (h : σ.Completes i t v) :
    σ.Searches t i := by
  obtain ⟨w, g, lines, -, hc⟩ := h
  exact ⟨_, hc, rfl⟩

theorem isIn_of_searches {t i : Nat} (h : σ.Searches t i) : σ.IsIn t i := by
  obtain ⟨c, hc, hg⟩ := h
  obtain ⟨g, hg⟩ := Option.isSome_iff_exists.1 hg
  exact ⟨c, hc, Call.isIn_of_generation? hg⟩

theorem run_of_storing {t i g : Nat} {w : Surroundings} {outcome : Option Toolchain}
    {lines : List Text} (ht : σ t = .advance i w)
    (hc : σ.call t i = some (.storing g outcome lines)) :
    ∃ r, σ.SearchRun i r t outcome ∧ g ≤ (σ.locator r).generation := by
  rcases σ.started hc g rfl with ⟨h, -⟩ | ⟨r, hr, hreads, hg, hin⟩
  · cases h
  · exact ⟨r, ⟨hr, hreads, hin, w, g, lines, ht, hc⟩, hg⟩

/-- What the locator remembers is the outcome of a search that was configured at the present
generation. -/
theorem remembered_run : ∀ t, (σ.locator t).status ≠ .unknown →
    ∃ j r d, d < t ∧ σ.SearchRun j r d (σ.locator t).cached
      ∧ (σ.locator r).generation = (σ.locator t).generation
  | 0, h => absurd rfl h
  | t + 1, h => by
    have keep : (σ.locator (t + 1)).cached = (σ.locator t).cached →
        (σ.locator (t + 1)).status = (σ.locator t).status →
        (σ.locator (t + 1)).generation = (σ.locator t).generation →
        ∃ j r d, d < t + 1 ∧ σ.SearchRun j r d (σ.locator (t + 1)).cached
          ∧ (σ.locator r).generation = (σ.locator (t + 1)).generation := by
      intro hcached hstatus hgeneration
      rw [hstatus] at h
      obtain ⟨j, r, d, hd, hrun⟩ := remembered_run t h
      rw [hcached, hgeneration]
      exact ⟨j, r, d, by omega, hrun⟩
    rcases σ.locator_turn t with ⟨i, w, g, outcome, lines, ht, hc, hl⟩ | ⟨-, hl⟩ | hk
    · by_cases hg : g = (σ.locator t).generation
      · -- the generations from letting in to storing are all the same
        obtain ⟨r, hrun, hr⟩ := σ.run_of_storing ht hc
        have hle := σ.generation_mono hrun.lt.le
        subst hg
        refine ⟨i, r, t, by omega, ?_, ?_⟩
        · rw [hl, (Locator.store_current _ _ _).1]
          exact hrun
        · rw [hl, Locator.store_generation]
          omega
      · obtain ⟨h₁, h₂, -⟩ := Locator.store_stale outcome lines hg
        exact keep (by rw [hl, h₁]) (by rw [hl, h₂]) (by rw [hl, Locator.store_generation])
    · rw [hl] at h
      exact absurd rfl h
    · exact keep hk.cached hk.status hk.generation

theorem lt_of_not_begun {i k t : Nat} {c : Call} (hk : σ.begun k ≤ i)
    (hc : σ.call t i = some c) : k < t := by
  by_contra h
  have h₁ := σ.begun_of_call hc
  have h₂ := σ.begun_mono (Nat.le_of_not_lt h)
  omega

/-- What a call has in hand is the outcome of a search that was configured after all invalidations
from before the call began. -/
theorem inHand_run {t i : Nat} {c : Call} (hc : σ.call t i = some c) :
    ∀ v, c.inHand? = some v → ∃ j r d, d < t ∧ σ.SearchRun j r d v
      ∧ ∀ k, σ k = .invalidate → σ.begun k ≤ i → k < r := by
  refine σ.call_induction (P := fun t i c => ∀ v, c.inHand? = some v →
    ∃ j r d, d < t ∧ σ.SearchRun j r d v
      ∧ ∀ k, σ k = .invalidate → σ.begun k ≤ i → k < r) ?_ ?_ ?_ hc
  · intro t i _ _ v hv
    cases hv
  · intro t i c _ ih v hv
    obtain ⟨j, r, d, hd, hrun⟩ := ih v hv
    exact ⟨j, r, d, by omega, hrun⟩
  · intro t i w c c' ht hc _ hm ih v hv
    rcases hm.inHand_cases hv with h | ⟨g, lines, rfl⟩ | ⟨rfl, hsome⟩
    · obtain ⟨j, r, d, hd, hrun⟩ := ih v h
      exact ⟨j, r, d, by omega, hrun⟩
    · obtain ⟨r, hrun, -⟩ := σ.run_of_storing ht hc
      obtain ⟨_, _, _, -, -, hr⟩ := hrun.reads
      exact ⟨i, r, t, by omega, hrun, fun k _ hk => σ.lt_of_not_begun hk hr⟩
    · -- the locator remembers the outcome of a search at the present generation
      have hs := σ.sound t
      have hknown : (σ.locator t).status ≠ .unknown := by
        rcases hsome with h | h
        · rw [hs.resolved.2 h]
          simp
        · rw [Ne, hs.unknown, not_not]
          exact h
      obtain ⟨j, r, d, hd, hrun, hg⟩ := σ.remembered_run t hknown
      refine ⟨j, r, d, by omega, hrun, fun k hk hki => σ.lt_of_generation_le hk ?_⟩
      rw [hg]
      exact σ.generation_mono (σ.lt_of_not_begun hki hc)

/-- No call returns a value older than an invalidation from before it began: the search that came
to the value read its configuration after every such invalidation. -/
theorem answer_configured_after_invalidations {t i : Nat} {v : Option Toolchain}
    (h : σ.call t i = some (.finished (.ok v))) :
    ∃ j start stop, stop < t ∧ σ.SearchRun j start stop v
      ∧ ∀ k, σ k = .invalidate → σ.begun k ≤ i → k < start :=
  σ.inHand_run h v rfl

def settled : Surroundings where
  config := .ok ⟨"java", "/d.jar", false⟩
  roots := .ok (.list [])
  host := ⟨⟨[]⟩, [], [], [], [], none⟩
  install := .str "/"
  probe := fun _ => .ok true

def stepsOf (i n : Nat) : List Turn := List.replicate n (.advance i settled)

/-- The search of the first call is overtaken by an invalidation, and the second call begins just
after it. -/
def overtaken : Schedule := fun t =>
  ([Turn.begin] ++ stepsOf 0 3 ++ [Turn.invalidate, Turn.begin] ++ stepsOf 1 1 ++ stepsOf 0 5
    ++ stepsOf 1 7).getD t .begin

theorem overtaken_answer : overtaken 4 = .invalidate ∧ overtaken.begun 4 ≤ 1
    ∧ overtaken.call 19 1 = some (.finished (.ok (some ⟨"/d.jar", .override, "java"⟩)))
    ∧ ∃ j start stop, 4 < start ∧ stop < 19
      ∧ overtaken.SearchRun j start stop (some ⟨"/d.jar", .override, "java"⟩) := by
  have h : overtaken.call 19 1
      = some (.finished (.ok (some ⟨"/d.jar", .override, "java"⟩))) := rfl
  obtain ⟨j, a, b, hb, hrun, hk⟩ := answer_configured_after_invalidations overtaken h
  exact ⟨rfl, by decide, h, j, a, b, hk 4 rfl (by decide), hb, hrun⟩

/-- The state of the locator before any turn: it is resolved exactly when it remembers a toolchain;
it is unknown exactly when the stored generation is not the present one, which it never exceeds;
otherwise it remembers the outcome of a search that was configured after the last invalidation, for
a search that was let in before an invalidation stores nothing; and at most one call searches. -/
theorem locator_invariant (t : Nat) :
    ((σ.locator t).status = .resolved ↔ (σ.locator t).cached ≠ none)
      ∧ (∀ g, (σ.locator t).storedGeneration = some g → g ≤ (σ.locator t).generation)
      ∧ ((σ.locator t).status = .unknown
        ↔ (σ.locator t).storedGeneration ≠ some (σ.locator t).generation)
      ∧ ((σ.locator t).status ≠ .unknown → ∃ j start stop, stop < t
        ∧ σ.SearchRun j start stop (σ.locator t).cached
        ∧ ∀ k, k < t → σ k = .invalidate → k < start)
      ∧ (∀ i s k outcome, s ≤ k → k < t → σ.Searches s i → σ k = .invalidate →
        σ.Completes i t outcome →
          (σ.locator (t + 1)).cached = (σ.locator t).cached
            ∧ (σ.locator (t + 1)).status = (σ.locator t).status
            ∧ (σ.locator (t + 1)).storedGeneration = (σ.locator t).storedGeneration)
      ∧ ∀ i j, σ.Searches t i → σ.Searches t j → i = j := by
  have hs := σ.sound t
  refine ⟨?_, hs.stored_le, hs.unknown, fun h => ?_, ?_, fun i j hi hj => ?_⟩
  · rw [hs.resolved, Option.isSome_iff_ne_none]
  · obtain ⟨j, r, d, hd, hrun, hg⟩ := σ.remembered_run t h
    refine ⟨j, r, d, hd, hrun, fun k hk hinv => σ.lt_of_generation_le hinv ?_⟩
    rw [hg]
    exact σ.generation_mono hk
  · exact fun i s k outcome hsk hkt hi hk hc => σ.stale_store hsk hkt hi hk hc
  · exact σ.holder_unique (σ.isIn_of_searches hi) (σ.isIn_of_searches hj)

end Schedule

/-! ## What a search went by -/

namespace Call

end Call

namespace Schedule

variable {σ : Schedule}

theorem call_advance {t i : Nat} {w : Surroundings} {c : Call} (ht : σ t = .advance i w)
    (hc : σ.call t i = some c) : σ.call (t + 1) i = some (c.advance w (σ.locator t)).2 := by
  have hi := σ.begun_of_call hc
  simp only [call, begun] at hc hi
  simp only [call, crowd, ht, Crowd.take, hc]
  simp [hi, locator]

end Schedule

end Toolchain

end DhrWorkbench
