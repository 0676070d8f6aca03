import DhrWorkbench.Proofs.Crowd
import DhrWorkbench.Proofs.Discovery

/-!
# The locator as a memo

With one caller at a time, the counts of the locator show in nothing that it answers. It is then a
memo of one cell: it knows nothing, or that there is no toolchain, or one toolchain, and it keeps
the record of the last search. A memo gives the toolchain it remembers as long as a probe finds it,
and searches in all other cases, so also when it remembers that there is none.

A caller alone (`Solo`) takes every call to its end before anything else happens. Between two calls
whatever is around the locator may change. A call comes to what the memo comes to
(`Solo.resolve_eq`), so the two cannot be told apart by any sequence of requests
(`solo_memo_alike`).
-/

namespace DhrWorkbench

namespace Toolchain

/-! ## The memo -/

inductive Memory
  | unknown
  | nothing
  | found (t : Toolchain)

namespace Memory

def ofOutcome : Option Toolchain → Memory
  | some t => .found t
  | none => .nothing

def toolchain? : Memory → Option Toolchain
  | .found t => some t
  | _ => none

def status : Memory → Status
  | .unknown => .unknown
  | .nothing => .unresolved
  | .found _ => .resolved

@[simp] theorem toolchain?_ofOutcome (outcome : Option Toolchain) :
    (ofOutcome outcome).toolchain? = outcome := by
  cases outcome <;> rfl

@[simp] theorem status_ofOutcome (outcome : Option Toolchain) :
    (ofOutcome outcome).status = if outcome.isSome then .resolved else .unresolved := by
  cases outcome <;> rfl

end Memory

structure Memo where
  memory : Memory
  /-- The record of the last search. -/
  lines : List Text

/-- What a request comes to, what it leaves behind, and the paths that were probed for it. -/
structure Resolved (σ : Type) where
  answer : Except Failure (Option Toolchain)
  after : σ
  probed : List Text

namespace Memo

def blank : Memo := ⟨.unknown, []⟩

def forget (m : Memo) : Memo := { m with memory := .unknown }

/-- Searches in the surroundings as they are and remembers the outcome. A search that fails leaves
the memo as it was. -/
def search (m : Memo) (w : Surroundings) : Resolved Memo :=
  match w.config, w.roots with
  | .error failure, _ => ⟨.error failure, m, []⟩
  | .ok _, .error failure => ⟨.error failure, m, []⟩
  | .ok config, .ok roots =>
    let found := Toolchain.search w.host w.install config roots w.probe
    match found.outcome with
    | .error failure => ⟨.error failure, m, found.probed⟩
    | .ok outcome => ⟨.ok outcome, ⟨.ofOutcome outcome, found.lines⟩, found.probed⟩

/-- Gives the toolchain that is remembered if a probe finds it, and searches otherwise. -/
def resolve (m : Memo) (w : Surroundings) : Resolved Memo :=
  match m.memory with
  | .found t =>
    if finds w.probe t.artifact then ⟨.ok (some t), m, [t.artifact]⟩
    else { m.search w with probed := t.artifact :: (m.search w).probed }
  | _ => m.search w

end Memo

/-! ## What is ahead of a search -/

namespace Search

variable {h : Host} {install : Value} {probe : Probe}

theorem ahead_of_inl {s s' : Search} (hs : s.step h install probe = .inl s') :
    (s.ahead h install probe).outcome = (s'.ahead h install probe).outcome
      ∧ s.lines ++ (s.ahead h install probe).lines = s'.lines ++ (s'.ahead h install probe).lines
      ∧ (s.ahead h install probe).probed
        = s.probe?.toList ++ (s'.ahead h install probe).probed := by
  unfold step at hs
  split at hs
  · cases hs
  · rename_i site rest hp
    split_ifs at hs with hf
    simp only [Sum.inl.injEq] at hs
    subst hs
    simp [ahead, hp, firstHit, hf, probe?]
  · rename_i hp
    split at hs
    · cases hs
    · rename_i rule rules hr
      simp only [Sum.inl.injEq] at hs
      subst hs
      simp [ahead, hp, hr, probe?]

theorem ahead_of_inr {s : Search} {outcome : Except Failure (Option Toolchain)} {lines : List Text}
    (hs : s.step h install probe = .inr (outcome, lines)) :
    (s.ahead h install probe).outcome = outcome ∧ s.lines ++ (s.ahead h install probe).lines = lines
      ∧ (s.ahead h install probe).probed = s.probe?.toList := by
  unfold step at hs
  split at hs
  · rename_i fault rest hp
    simp only [Sum.inr.injEq, Prod.mk.injEq] at hs
    obtain ⟨rfl, rfl⟩ := hs
    simp [ahead, hp, firstHit, probe?]
  · rename_i site rest hp
    split_ifs at hs with hf
    simp only [Sum.inr.injEq, Prod.mk.injEq] at hs
    obtain ⟨rfl, rfl⟩ := hs
    simp [ahead, hp, firstHit, hf, probe?]
  · rename_i hp
    split at hs
    · rename_i hr
      simp only [Sum.inr.injEq, Prod.mk.injEq] at hs
      obtain ⟨rfl, rfl⟩ := hs
      simp [ahead, hp, hr, firstHit, probe?]
    · cases hs

end Search

/-! ## A caller alone -/

/-- A locator in its surroundings, with the paths that were probed. -/
structure Solo where
  around : Surroundings
  locator : Locator
  probed : List Text

namespace Solo

def stand : Stand Solo where
  locator := (·.locator)
  place locator s := { s with locator }
  around := (·.around)
  beforeProbe path s := { s with probed := s.probed ++ [path] }

variable (w : Surroundings) (l : Locator) (p : List Text)

theorem step_eq (call : Call) : stand.step call ⟨w, l, p⟩
    = ((call.advance w l).2, ⟨w, (call.advance w l).1, p ++ call.probe?.toList⟩) := by
  rcases hp : call.probe? with _ | path <;> simp [Stand.step, stand, hp]

theorem steps_succ (n : Nat) (call : Call) : stand.steps (n + 1) call ⟨w, l, p⟩
    = stand.steps n (call.advance w l).2 ⟨w, (call.advance w l).1, p ++ call.probe?.toList⟩ := by
  rw [Stand.steps, step_eq]

/-- What a search comes to that has `s` before it, and the locator after it. -/
def ending (g : Nat) (s : Search) : Except Failure (Option Toolchain) × Locator :=
  let found := s.ahead w.host w.install w.probe
  match found.outcome with
  | .error failure => (.error failure, l.release)
  | .ok outcome => (.ok outcome, l.store g outcome (s.lines ++ found.lines))

/-- One step of a search takes what it probes off the front of what is ahead. -/
theorem advance_searching (g : Nat) (s : Search) :
    (∃ s', (Call.searching g s).advance w l = (l, .searching g s') ∧ s'.rank < s.rank
        ∧ ending w l g s' = ending w l g s
        ∧ (s.ahead w.host w.install w.probe).probed
          = s.probe?.toList ++ (s'.ahead w.host w.install w.probe).probed)
      ∨ ((s.ahead w.host w.install w.probe).probed = s.probe?.toList
        ∧ ((∃ failure, (Call.searching g s).advance w l = (l.release, .finished (.error failure))
            ∧ ending w l g s = (.error failure, l.release))
          ∨ ∃ outcome lines, (Call.searching g s).advance w l = (l, .storing g outcome lines)
            ∧ ending w l g s = (.ok outcome, l.store g outcome lines))) := by
  rcases hs : s.step w.host w.install w.probe with s' | ⟨outcome, lines⟩
  · obtain ⟨h₁, h₂, h₃⟩ := Search.ahead_of_inl hs
    refine .inl ⟨s', by simp [Call.advance, hs], Search.rank_step hs, ?_, h₃⟩
    simp only [ending, h₁, h₂]
  · obtain ⟨h₁, h₂, h₃⟩ := Search.ahead_of_inr hs
    refine .inr ⟨h₃, ?_⟩
    rcases outcome with failure | outcome
    · exact .inl ⟨failure, by simp [Call.advance, hs, Call.fail], by simp [ending, h₁]⟩
    · exact .inr ⟨outcome, lines, by simp [Call.advance, hs], by simp [ending, h₁, h₂]⟩

theorem steps_finished (a : Except Failure (Option Toolchain)) :
    ∀ n, stand.steps n (.finished a) ⟨w, l, p⟩ = (.finished a, ⟨w, l, p⟩)
  | 0 => rfl
  | n + 1 => by
    rw [steps_succ]
    simpa [Call.advance, Call.probe?] using steps_finished a n

theorem steps_storing (g : Nat) (outcome : Option Toolchain) (lines : List Text) (n : Nat) :
    stand.steps (n + 1) (.storing g outcome lines) ⟨w, l, p⟩
      = (.finished (.ok outcome), ⟨w, l.store g outcome lines, p⟩) := by
  rw [steps_succ]
  simpa [Call.advance, Call.probe?] using steps_finished w (l.store g outcome lines) p _ n

theorem steps_searching (g : Nat) : ∀ (n : Nat) (s : Search) (p : List Text), s.rank < n →
    stand.steps n (.searching g s) ⟨w, l, p⟩ = (.finished (ending w l g s).1,
      ⟨w, (ending w l g s).2, p ++ (s.ahead w.host w.install w.probe).probed⟩)
  | 0, s, p, hn => by omega
  | n + 1, s, p, hn => by
    rw [steps_succ]
    rcases advance_searching w l g s with ⟨s', ha, hr, he, hp⟩
      | ⟨hp, ⟨failure, ha, he⟩ | ⟨outcome, lines, ha, he⟩⟩
    · rw [ha, steps_searching g n s' _ (by omega), he, hp]
      simp [Call.probe?]
    · rw [ha, steps_finished, he, hp]
      rfl
    · obtain ⟨k, rfl⟩ : ∃ k, n = k + 1 := ⟨n - 1, by simp [Search.rank] at hn; omega⟩
      rw [ha, steps_storing, he, hp]
      rfl

/-- Takes a call that has come to its search on to its end. -/
def toEnd (r : Call × Solo) : Call × Solo := stand.steps r.1.rank r.1 r.2

theorem resolve_eq_toEnd (s : Solo) : stand.resolve s
    = ((toEnd (stand.steps Call.stepsToSearch .entering s)).1.answer?.getD (.ok none),
      (toEnd (stand.steps Call.stepsToSearch .entering s)).2) := rfl

theorem toEnd_finished (a : Except Failure (Option Toolchain)) :
    toEnd (.finished a, ⟨w, l, p⟩) = (.finished a, ⟨w, l, p⟩) := rfl

/-- However far a search has gone, it comes to the same end. -/
theorem toEnd_searching (g : Nat) : ∀ (k : Nat) (s : Search) (p : List Text),
    toEnd (stand.steps k (.searching g s) ⟨w, l, p⟩) = (.finished (ending w l g s).1,
      ⟨w, (ending w l g s).2, p ++ (s.ahead w.host w.install w.probe).probed⟩)
  | 0, s, p => steps_searching w l g _ s p (Nat.lt_succ_self _)
  | k + 1, s, p => by
    rw [steps_succ]
    rcases advance_searching w l g s with ⟨s', ha, -, he, hp⟩
      | ⟨hp, ⟨failure, ha, he⟩ | ⟨outcome, lines, ha, he⟩⟩
    · rw [ha, toEnd_searching g k s', he, hp]
      simp [Call.probe?]
    · rw [ha, steps_finished, he, hp]
      rfl
    · rw [ha, he, hp]
      rcases k with _ | k
      · rfl
      · rw [steps_storing]
        rfl

end Solo

/-- The locator, with no call in it, and the memo say the same. -/
structure Memo.IsShownBy (m : Memo) (l : Locator) : Prop where
  cached : l.cached = m.memory.toolchain?
  status : l.status = m.memory.status
  lines : l.lines = m.lines
  idle : l.busy = false

namespace Memo.IsShownBy

variable {m : Memo} {l : Locator}

theorem fresh : Memo.blank.IsShownBy .fresh := ⟨rfl, rfl, rfl, rfl⟩

theorem forget (h : m.IsShownBy l) : m.forget.IsShownBy l.invalidate := ⟨rfl, rfl, h.lines, h.idle⟩

theorem release_acquire (h : m.IsShownBy l) : m.IsShownBy l.acquire.release :=
  ⟨h.cached, h.status, h.lines, rfl⟩

theorem store (l : Locator) (outcome : Option Toolchain) (lines : List Text) :
    (Memo.mk (.ofOutcome outcome) lines).IsShownBy
      (l.acquire.store l.generation outcome lines) := by
  constructor <;> simp [Locator.store, Locator.acquire]

end Memo.IsShownBy

namespace Solo

variable (w : Surroundings) {m : Memo} {l : Locator} (p : List Text)

/-- A call that waits while nobody searches, and began when the present number of searches had
completed, has no outcome to share. It searches as the memo does. -/
theorem toEnd_queued (hl : m.IsShownBy l) (seen : Seen) (hs : seen.serial = l.serial) (k : Nat) :
    ∃ l', toEnd (stand.steps (k + 4) (.queued seen) ⟨w, l, p⟩)
        = (.finished (m.search w).answer, ⟨w, l', p ++ (m.search w).probed⟩)
      ∧ (m.search w).after.IsShownBy l' := by
  have hshares : l.acquire.shares seen.serial = false := by
    simp [Locator.shares, Locator.acquire, hs]
  have hletIn : ∀ n, stand.steps (n + 2) (.queued seen) ⟨w, l, p⟩
      = stand.steps n (.configuring l.generation) ⟨w, l.acquire, p⟩ := by
    intro n
    simp only [steps_succ, Call.advance, Call.probe?, hl.idle, hshares, Bool.false_eq_true,
      if_false, Option.toList_none, List.append_nil]
    rfl
  rw [hletIn]
  rcases hc : w.config with failure | config
  · refine ⟨l.acquire.release, ?_, ?_⟩
    · simp [steps_succ, Call.advance, Call.probe?, hc, Call.fail, steps_finished, toEnd_finished,
        Memo.search]
    · simpa [Memo.search, hc] using hl.release_acquire
  rcases hr : w.roots with failure | roots
  · refine ⟨l.acquire.release, ?_, ?_⟩
    · simp [steps_succ, Call.advance, Call.probe?, hc, hr, Call.fail, steps_finished,
        toEnd_finished, Memo.search, Except.bind]
    · simpa [Memo.search, hc, hr] using hl.release_acquire
  rcases hroots : cleanRoots roots with failure | names
  · refine ⟨l.acquire.release, ?_, ?_⟩
    · simp [steps_succ, Call.advance, Call.probe?, hc, hr, hroots, Call.fail, steps_finished,
        toEnd_finished, Memo.search, Except.bind, Toolchain.search]
    · simpa [Memo.search, hc, hr, hroots, Toolchain.search] using hl.release_acquire
  · have hsearch : stand.steps (k + 2) (.configuring l.generation) ⟨w, l.acquire, p⟩
        = stand.steps k (.searching l.generation (.start config names)) ⟨w, l.acquire, p⟩ := by
      simp [steps_succ, Call.advance, Call.probe?, hc, hr, hroots, Except.bind]
    have hfound : (Search.start config names).ahead w.host w.install w.probe
        = firstHit config w.probe (sites w.host w.install config names) := rfl
    rw [hsearch, toEnd_searching]
    simp only [ending, hfound, Memo.search, hc, hr, Toolchain.search, hroots]
    rcases ho : (firstHit config w.probe (sites w.host w.install config names)).outcome
      with failure | outcome
    · exact ⟨_, rfl, hl.release_acquire⟩
    · exact ⟨_, rfl, .store l outcome _⟩

theorem steps_entering_none (h : l.cached = none) (n : Nat) :
    stand.steps (n + 1) .entering ⟨w, l, p⟩
      = stand.steps n (.queued ⟨l.serial, l.generation⟩) ⟨w, l, p⟩ := by
  rw [steps_succ]
  simp [Call.advance, Call.probe?, h]

theorem steps_entering_some {t : Toolchain} (h : l.cached = some t) (n : Nat) :
    stand.steps (n + 2) .entering ⟨w, l, p⟩
      = stand.steps n (if finds w.probe t.artifact then .confirming ⟨l.serial, l.generation⟩ t
          else .queued ⟨l.serial, l.generation⟩) ⟨w, l, p ++ [t.artifact]⟩ := by
  rw [steps_succ, steps_succ]
  simp [Call.advance, Call.probe?, h]

theorem steps_confirming {seen : Seen} (h : l.generation = seen.generation) (t : Toolchain)
    (n : Nat) : stand.steps (n + 1) (.confirming seen t) ⟨w, l, p⟩
      = (.finished (.ok (some t)), ⟨w, l, p⟩) := by
  rw [steps_succ]
  simpa [Call.advance, Call.probe?, h] using steps_finished w l p (.ok (some t)) n

/-- A call alone gives what the memo gives, and leaves the locator as the memo is then. -/
theorem resolve_eq (hl : m.IsShownBy l) :
    ∃ l', stand.resolve ⟨w, l, p⟩
        = ((m.resolve w).answer, ⟨w, l', p ++ (m.resolve w).probed⟩)
      ∧ (m.resolve w).after.IsShownBy l' := by
  have hcached := hl.cached
  rw [resolve_eq_toEnd, Call.stepsToSearch]
  rcases hm : m.memory with _ | _ | t <;> simp only [hm, Memory.toolchain?] at hcached
  case found =>
    rw [steps_entering_some w p hcached]
    by_cases hf : finds w.probe t.artifact
    · rw [if_pos hf, steps_confirming w _ rfl, toEnd_finished]
      exact ⟨l, by simp [Call.answer?, Memo.resolve, hm, hf],
        by simpa [Memo.resolve, hm, hf] using hl⟩
    · obtain ⟨l', h, hl'⟩ := toEnd_queued w (p ++ [t.artifact]) hl
        ⟨l.serial, l.generation⟩ rfl 1
      rw [if_neg hf, h]
      exact ⟨l', by simp [Call.answer?, Memo.resolve, hm, hf],
        by simpa [Memo.resolve, hm, hf] using hl'⟩
  -- Without a toolchain to probe, the call waits at once.
  all_goals
    obtain ⟨l', h, hl'⟩ := toEnd_queued w p hl ⟨l.serial, l.generation⟩ rfl 2
    rw [steps_entering_none w p hcached, h]
    exact ⟨l', by simp [Call.answer?, Memo.resolve, hm], by simpa [Memo.resolve, hm] using hl'⟩

end Solo

/-! ## Requests one after the other -/

/-- What happens to a locator with one caller. -/
inductive Request
  | resolve
  | invalidate
  /-- The configuration, the roots, the files or the probe change. -/
  | change (around : Surroundings)

/-- What a request shows: its answer if it has one, the paths probed for it, and what the locator
says afterwards. -/
structure Glimpse where
  answer : Option (Except Failure (Option Toolchain))
  probed : List Text
  cached : Option Toolchain
  status : Status
  lines : List Text

namespace Solo

def glimpse (s : Solo) (answer : Option (Except Failure (Option Toolchain))) : Glimpse :=
  ⟨answer, s.probed, s.locator.cached, s.locator.status, s.locator.lines⟩

def take (s : Solo) : Request → Glimpse × Solo
  | .resolve =>
    let (answer, s) := stand.resolve { s with probed := [] }
    (s.glimpse (some answer), s)
  | .invalidate =>
    let s := { s with locator := s.locator.invalidate, probed := [] }
    (s.glimpse none, s)
  | .change around =>
    let s := { s with around, probed := [] }
    (s.glimpse none, s)

/-- What requests show one after the other. -/
def run (s : Solo) : List Request → List Glimpse
  | [] => []
  | r :: rest => (s.take r).1 :: run (s.take r).2 rest

end Solo

namespace Memo

def glimpse (m : Memo) (answer : Option (Except Failure (Option Toolchain)))
    (probed : List Text) : Glimpse :=
  ⟨answer, probed, m.memory.toolchain?, m.memory.status, m.lines⟩

/-- What requests show one after the other of a memo in surroundings. -/
def run (m : Memo) (w : Surroundings) : List Request → List Glimpse
  | [] => []
  | .resolve :: rest =>
    let r := m.resolve w
    r.after.glimpse (some r.answer) r.probed :: run r.after w rest
  | .invalidate :: rest => m.forget.glimpse none [] :: run m.forget w rest
  | .change w :: rest => m.glimpse none [] :: run m w rest

theorem IsShownBy.glimpse_eq {m : Memo} {l : Locator} (h : m.IsShownBy l) (w : Surroundings)
    (answer : Option (Except Failure (Option Toolchain))) (probed : List Text) :
    Solo.glimpse ⟨w, l, probed⟩ answer = m.glimpse answer probed := by
  simp [Solo.glimpse, glimpse, h.cached, h.status, h.lines]

theorem IsShownBy.run_eq : ∀ (requests : List Request) {m : Memo} {l : Locator}
    (w : Surroundings) (p : List Text), m.IsShownBy l →
      Solo.run ⟨w, l, p⟩ requests = m.run w requests
  | [], _, _, _, _, _ => rfl
  | .resolve :: rest, m, l, w, p, h => by
    obtain ⟨l', hr, hl'⟩ := Solo.resolve_eq w [] h
    rw [Solo.run, run, Solo.take, hr]
    simp only [List.nil_append]
    rw [hl'.glimpse_eq, run_eq rest w _ hl']
  | .invalidate :: rest, m, l, w, p, h => by
    rw [Solo.run, run, Solo.take]
    simp only
    rw [h.forget.glimpse_eq, run_eq rest w _ h.forget]
  | .change w' :: rest, m, l, w, p, h => by
    rw [Solo.run, run, Solo.take]
    simp only
    rw [h.glimpse_eq, run_eq rest w' _ h]

end Memo

/-- With one caller at a time, a locator and a memo of one cell show the same: whatever is asked of
them, and whatever changes around them between two requests, the answers, the paths probed, the
remembered toolchain, the status and the record are alike. -/
theorem solo_memo_alike (w : Surroundings) (requests : List Request) :
    Solo.run ⟨w, .fresh, []⟩ requests = Memo.blank.run w requests :=
  Memo.IsShownBy.run_eq requests w [] .fresh

end Toolchain

end DhrWorkbench
