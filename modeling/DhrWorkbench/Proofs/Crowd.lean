import DhrWorkbench.Toolchain.Locator
import Mathlib.Order.Nat
import Mathlib.Tactic.Common

/-!
# Calls at once

A crowd is a locator with all calls on it, numbered in the order in which they begin. In each turn
a call begins, one call takes a step in the surroundings that there are by then, or what the
locator remembers is invalidated. A schedule fixes every turn and is otherwise free: the turns may
interleave calls in any order, and the surroundings of two steps need have nothing in common, so
configuration, roots and files may change between any two of them.

`Call.Move` says once what a step of a call can do (`Call.move_advance`). From it follow the facts
that all later arguments rest on: counts only grow, a call never goes back to an earlier stage,
and at most one call is let in at a time (`Schedule.holder_unique`).
-/

namespace DhrWorkbench

namespace Toolchain

namespace Locator

variable (l : Locator) (g : Nat) (outcome : Option Toolchain) (lines : List Text)

@[simp] theorem store_serial : (l.store g outcome lines).serial = l.serial + 1 := by
  simp only [store]
  split <;> rfl

@[simp] theorem store_generation : (l.store g outcome lines).generation = l.generation := by
  simp only [store]
  split <;> rfl

@[simp] theorem store_busy : (l.store g outcome lines).busy = false := by
  simp only [store]
  split <;> rfl

theorem store_stale {l : Locator} {g : Nat} (h : g ≠ l.generation) :
    (l.store g outcome lines).cached = l.cached ∧ (l.store g outcome lines).status = l.status
      ∧ (l.store g outcome lines).storedGeneration = l.storedGeneration := by
  simp [store, h]

theorem store_current :
    (l.store l.generation outcome lines).cached = outcome
      ∧ (l.store l.generation outcome lines).status
        = (if outcome.isSome then .resolved else .unresolved)
      ∧ (l.store l.generation outcome lines).storedGeneration = some l.generation := by
  simp [store]

theorem shares_iff {l : Locator} {n : Nat} :
    l.shares n = true ↔ l.serial ≠ n ∧ l.storedGeneration = some l.generation := by
  simp [shares]

/-- What is remembered and counted stays the same. -/
structure Keeps (l l' : Locator) : Prop where
  cached : l'.cached = l.cached
  status : l'.status = l.status
  generation : l'.generation = l.generation
  serial : l'.serial = l.serial
  storedGeneration : l'.storedGeneration = l.storedGeneration

end Locator

theorem sitesOf_length (h : Host) (install : Value) (config : Config) (roots : List Text)
    (rule : Origin) : (sitesOf h install config roots rule).length ≤ roots.length + 1 := by
  cases rule with
  | override =>
    simp only [sitesOf, overrideSites]
    repeat' split
    all_goals simp
  | workspaceRoot => simp [sitesOf, rootSites]
  | workspaceLib =>
    simp only [sitesOf]
    induction roots with
    | nil => simp [libSites]
    | cons root rest ih =>
      simp only [libSites]
      split
      · simp
      · exact ih.trans (by simp)
  | bundled =>
    simp only [sitesOf, bundledSites]
    split <;> simp

theorem Search.rank_step {h : Host} {install : Value} {probe : Probe} {s s' : Search}
    (hs : s.step h install probe = .inl s') : s'.rank < s.rank := by
  unfold Search.step at hs
  split at hs
  · cases hs
  · rename_i site rest hp
    split at hs
    · cases hs
    · cases hs
      simp [Search.rank, hp]
  · rename_i hp
    split at hs
    · cases hs
    · rename_i rule rules hr
      cases hs
      have := sitesOf_length h install s.config s.roots rule
      simp only [Search.rank, hp, hr, List.length_nil, List.length_cons, Nat.succ_mul]
      omega

namespace Call

/-- The generation at which a call that searches was let in. -/
def generation? : Call → Option Nat
  | .configuring g => some g
  | .rooting g _ => some g
  | .searching g _ => some g
  | .storing g _ _ => some g
  | _ => none

/-- What a call read when it began, as long as it has use for it. -/
def seen? : Call → Option Seen
  | .probing seen _ => some seen
  | .confirming seen _ => some seen
  | .queued seen => some seen
  | .admitted seen => some seen
  | _ => none

/-- Whether a call has been let in and has not yet given way. -/
def isIn : Call → Bool
  | .admitted _ => true
  | call => call.generation?.isSome

theorem isIn_of_generation? {c : Call} {g : Nat} (h : c.generation? = some g) :
    c.isIn = true := by
  cases c <;> simp_all [isIn, generation?]

def stage : Call → Nat
  | .entering => 0
  | .probing _ _ => 1
  | .confirming _ _ => 2
  | .queued _ => 3
  | .admitted _ => 4
  | .configuring _ => 5
  | .rooting _ _ => 6
  | .searching _ _ => 7
  | .storing _ _ _ => 8
  | .finished _ => 9

/-- What a step of a call can do to it and to the locator. -/
inductive Move (w : Surroundings) (l : Locator) : Call → Locator → Call → Prop
  | read {cached : Toolchain} (h : l.cached = some cached) :
    Move w l .entering l (.probing ⟨l.serial, l.generation⟩ cached)
  | readNone (h : l.cached = none) : Move w l .entering l (.queued ⟨l.serial, l.generation⟩)
  | probe {seen : Seen} {cached : Toolchain} :
    Move w l (.probing seen cached) l (.confirming seen cached)
  | missing {seen : Seen} {cached : Toolchain} : Move w l (.probing seen cached) l (.queued seen)
  | confirm {seen : Seen} {cached : Toolchain} (h : l.generation = seen.generation) :
    Move w l (.confirming seen cached) l (.finished (.ok (some cached)))
  | overtaken {seen : Seen} {cached : Toolchain} (h : l.generation ≠ seen.generation) :
    Move w l (.confirming seen cached) l (.queued seen)
  | wait {seen : Seen} (h : l.busy = true) : Move w l (.queued seen) l (.queued seen)
  | acquire {seen : Seen} (h : l.busy = false) :
    Move w l (.queued seen) l.acquire (.admitted seen)
  | share {seen : Seen} (h : l.shares seen.serial = true) :
    Move w l (.admitted seen) l.release (.finished (.ok l.cached))
  | letIn {seen : Seen} (h : l.shares seen.serial = false) :
    Move w l (.admitted seen) l (.configuring l.generation)
  | configure {g : Nat} {config : Config} (h : w.config = .ok config) :
    Move w l (.configuring g) l (.rooting g config)
  | search {g : Nat} {call next : Call} (hc : call.generation? = some g)
      (hn : next.generation? = some g) (h₁ : 6 ≤ call.stage) (h₂ : call.stage < 8)
      (h₃ : call.stage < next.stage ∨ call.stage = next.stage ∧ next.rank < call.rank) :
    Move w l call l next
  | fail {g : Nat} {call : Call} {failure : Failure} (hc : call.generation? = some g)
      (h : call.stage < 8) : Move w l call l.release (.finished (.error failure))
  | store {g : Nat} {outcome : Option Toolchain} {lines : List Text} :
    Move w l (.storing g outcome lines) (l.store g outcome lines) (.finished (.ok outcome))
  | rest {answer : Except Failure (Option Toolchain)} :
    Move w l (.finished answer) l (.finished answer)

theorem move_advance (w : Surroundings) (l : Locator) (call : Call) :
    Move w l call (call.advance w l).1 (call.advance w l).2 := by
  cases call with
  | entering =>
    rcases hc : l.cached with _ | cached
    · simpa [advance, hc] using Move.readNone hc
    · simpa [advance, hc] using Move.read hc
  | probing seen cached =>
    simp only [advance]
    split_ifs
    · exact .probe
    · exact .missing
  | confirming seen cached =>
    simp only [advance]
    split_ifs with h
    · exact .confirm h
    · exact .overtaken h
  | queued seen =>
    simp only [advance]
    split_ifs with h
    · exact .wait h
    · exact .acquire (by simpa using h)
  | admitted seen =>
    simp only [advance]
    split_ifs with h
    · exact .share h
    · exact .letIn (by simpa using h)
  | configuring g =>
    simp only [advance]
    split
    · exact .fail rfl (by simp [stage])
    · rename_i config h
      exact .configure h
  | rooting g config =>
    simp only [advance]
    split
    · exact .fail rfl (by simp [stage])
    · exact .search rfl rfl (by simp [stage]) (by simp [stage]) (by simp [stage])
  | searching g search =>
    simp only [advance]
    split
    · rename_i search' h
      have hr := Search.rank_step h
      exact .search rfl rfl (by simp [stage]) (by simp [stage]) (.inr ⟨rfl, by simpa [rank]⟩)
    · exact .fail rfl (by simp [stage])
    · exact .search rfl rfl (by simp [stage]) (by simp [stage]) (by simp [stage])
  | storing g outcome lines => exact .store
  | finished answer => exact .rest

namespace Move

variable {w : Surroundings} {l l' : Locator} {c c' : Call}

theorem stage_le (h : Move w l c l' c') : c.stage ≤ c'.stage := by
  cases h with
  | search hc hn h₁ h₂ h₃ => omega
  | fail hc h => exact h.le.trans (by simp [stage])
  | _ => simp [stage]

theorem finished {a : Except Failure (Option Toolchain)} (h : Move w l (.finished a) l' c') :
    c' = .finished a := by
  cases h with
  | rest => rfl
  | search hc => cases hc
  | fail hc => cases hc

theorem of_storing {g : Nat} {outcome : Option Toolchain} {lines : List Text}
    (h : Move w l (.storing g outcome lines) l' c') :
    l' = l.store g outcome lines ∧ c' = .finished (.ok outcome) := by
  cases h with
  | search hc hn h₁ h₂ h₃ => simp [stage] at h₂
  | fail hc h => simp [stage] at h
  | store => exact ⟨rfl, rfl⟩

theorem stores_or_keeps (h : Move w l c l' c') :
    (∃ g outcome lines, c = .storing g outcome lines ∧ l' = l.store g outcome lines)
      ∨ l.Keeps l' := by
  cases h with
  | @store g outcome lines => exact .inl ⟨g, outcome, lines, rfl, rfl⟩
  | _ => exact .inr ⟨rfl, rfl, rfl, rfl, rfl⟩

/-- A step lets the call in when no call is, makes it give way, or leaves both as they are. -/
theorem isIn_cases (h : Move w l c l' c') :
    (c'.isIn = c.isIn ∧ l'.busy = l.busy)
      ∨ (c.isIn = false ∧ c'.isIn = true ∧ l.busy = false ∧ l'.busy = true)
      ∨ (c.isIn = true ∧ c'.isIn = false ∧ l'.busy = false) := by
  cases h with
  | acquire h => exact .inr (.inl ⟨rfl, rfl, h, rfl⟩)
  | share h => exact .inr (.inr ⟨rfl, rfl, rfl⟩)
  | search hc hn => exact .inl ⟨by rw [isIn_of_generation? hn, isIn_of_generation? hc], rfl⟩
  | fail hc => exact .inr (.inr ⟨isIn_of_generation? hc, rfl, rfl⟩)
  | store => exact .inr (.inr ⟨rfl, rfl, by simp⟩)
  | _ => exact .inl ⟨rfl, rfl⟩

end Move

end Call

inductive Turn
  | begin
  | advance (caller : Nat) (around : Surroundings)
  | invalidate

/-- A locator and the calls on it, in the order in which they began. -/
structure Crowd where
  locator : Locator
  calls : List Call

namespace Crowd

def empty : Crowd := ⟨.fresh, []⟩

/-- One turn. A turn of a caller that has not begun changes nothing. -/
def take (c : Crowd) : Turn → Crowd
  | .begin => { c with calls := c.calls ++ [.entering] }
  | .advance caller around =>
    match c.calls[caller]? with
    | none => c
    | some call =>
      let (locator, call) := call.advance around c.locator
      ⟨locator, c.calls.set caller call⟩
  | .invalidate => { c with locator := c.locator.invalidate }

end Crowd

/-- What happens in every turn. -/
abbrev Schedule := Nat → Turn

namespace Schedule

variable (σ : Schedule)

/-- The crowd before a turn. -/
def crowd : Nat → Crowd
  | 0 => .empty
  | t + 1 => (crowd t).take (σ t)

def locator (t : Nat) : Locator := (σ.crowd t).locator

/-- How far a call is before a turn; nothing when it has not begun. -/
def call (t i : Nat) : Option Call := (σ.crowd t).calls[i]?

/-- The number of calls that have begun before a turn. -/
def begun (t : Nat) : Nat := (σ.crowd t).calls.length

theorem call_eq_none {t i : Nat} : σ.call t i = none ↔ σ.begun t ≤ i := by
  simp [call, begun]

theorem begun_of_call {t i : Nat} {call : Call} (h : σ.call t i = some call) :
    i < σ.begun t := by
  by_contra hi
  rw [(σ.call_eq_none).2 (by omega)] at h
  cases h

theorem advance_turn {t i : Nat} {w : Surroundings} {c : Call} (ht : σ t = .advance i w)
    (hc : σ.call t i = some c) :
    ∃ c', σ.call (t + 1) i = some c' ∧ c.Move w (σ.locator t) (σ.locator (t + 1)) c'
      ∧ σ.begun (t + 1) = σ.begun t ∧ ∀ j, j ≠ i → σ.call (t + 1) j = σ.call t j := by
  have hi := σ.begun_of_call hc
  simp only [call, begun] at hc hi
  have hs : σ.crowd (t + 1) = ⟨(c.advance w (σ.crowd t).locator).1,
      (σ.crowd t).calls.set i (c.advance w (σ.crowd t).locator).2⟩ := by
    simp only [crowd, ht, Crowd.take, hc]
  refine ⟨(c.advance w (σ.crowd t).locator).2, ?_, ?_, ?_, fun j hj => ?_⟩
  · simp [call, hs, hi]
  · simpa only [locator, hs] using Call.move_advance w (σ.crowd t).locator c
  · simp [begun, hs]
  · simp [call, hs, List.getElem?_set_ne (Ne.symm hj)]

/-- What a turn does, with the call that takes a step, if any. -/
theorem turn_cases (t : Nat) :
    (σ t = .begin ∧ σ.locator (t + 1) = σ.locator t ∧ σ.begun (t + 1) = σ.begun t + 1
        ∧ σ.call (t + 1) (σ.begun t) = some .entering
        ∧ ∀ j, j ≠ σ.begun t → σ.call (t + 1) j = σ.call t j)
      ∨ (σ t = .invalidate ∧ σ.locator (t + 1) = (σ.locator t).invalidate
        ∧ σ.begun (t + 1) = σ.begun t ∧ ∀ j, σ.call (t + 1) j = σ.call t j)
      ∨ (σ.crowd (t + 1) = σ.crowd t ∧ ∃ i w, σ t = .advance i w ∧ σ.call t i = none)
      ∨ ∃ i w c c', σ t = .advance i w ∧ σ.call t i = some c ∧ σ.call (t + 1) i = some c'
        ∧ c.Move w (σ.locator t) (σ.locator (t + 1)) c'
        ∧ σ.begun (t + 1) = σ.begun t ∧ ∀ j, j ≠ i → σ.call (t + 1) j = σ.call t j := by
  rcases ht : σ t with _ | ⟨i, w⟩ | _
  · refine .inl ⟨rfl, ?_, ?_, ?_, fun j hj => ?_⟩
    · simp [locator, crowd, ht, Crowd.take]
    · simp [begun, crowd, ht, Crowd.take]
    · simp [call, begun, crowd, ht, Crowd.take]
    · simp only [call, begun, crowd, ht, Crowd.take] at hj ⊢
      rcases Nat.lt_or_gt_of_ne hj with hj | hj
      · rw [List.getElem?_append_left hj]
      · rw [List.getElem?_eq_none (by simp; omega), List.getElem?_eq_none (by omega)]
  · rcases hc : σ.call t i with _ | c
    · refine .inr (.inr (.inl ⟨?_, i, w, rfl, hc⟩))
      simp only [call] at hc
      simp only [crowd, ht, Crowd.take, hc]
    · obtain ⟨c', h⟩ := σ.advance_turn ht hc
      exact .inr (.inr (.inr ⟨i, w, c, c', rfl, hc, h⟩))
  · refine .inr (.inl ⟨rfl, ?_, ?_, fun j => ?_⟩) <;>
      simp [locator, call, begun, crowd, ht, Crowd.take]

theorem locator_turn (t : Nat) :
    (∃ i w g outcome lines, σ t = .advance i w ∧ σ.call t i = some (.storing g outcome lines)
        ∧ σ.locator (t + 1) = (σ.locator t).store g outcome lines)
      ∨ (σ t = .invalidate ∧ σ.locator (t + 1) = (σ.locator t).invalidate)
      ∨ (σ.locator t).Keeps (σ.locator (t + 1)) := by
  rcases σ.turn_cases t with ⟨-, hl, -⟩ | ⟨ht, hl, -⟩ | ⟨hs, -⟩ | ⟨i, w, c, _, ht, hc, -, hm, -⟩
  · rw [hl]
    exact .inr (.inr ⟨rfl, rfl, rfl, rfl, rfl⟩)
  · exact .inr (.inl ⟨ht, hl⟩)
  · simp only [locator, hs]
    exact .inr (.inr ⟨rfl, rfl, rfl, rfl, rfl⟩)
  · rcases hm.stores_or_keeps with ⟨g, outcome, lines, rfl, hl⟩ | hk
    · exact .inl ⟨i, w, g, outcome, lines, ht, hc, hl⟩
    · exact .inr (.inr hk)

theorem call_succ {t i : Nat} {c' : Call} (h : σ.call (t + 1) i = some c') :
    (σ t = .begin ∧ i = σ.begun t ∧ c' = .entering)
      ∨ σ.call t i = some c'
      ∨ ∃ w c, σ t = .advance i w ∧ σ.call t i = some c
        ∧ c.Move w (σ.locator t) (σ.locator (t + 1)) c' := by
  rcases σ.turn_cases t with ⟨ht, -, -, hn, hj⟩ | ⟨-, -, -, hj⟩ | ⟨hs, -⟩
    | ⟨j, w, c, d, ht, hc, hd, hm, -, hj⟩
  · by_cases hi : i = σ.begun t
    · subst hi
      rw [hn, Option.some.injEq] at h
      exact .inl ⟨ht, rfl, h.symm⟩
    · exact .inr (.inl (by rw [← hj i hi, h]))
  · exact .inr (.inl (by rw [← hj i, h]))
  · exact .inr (.inl (by rw [← h, call, call, hs]))
  · by_cases hi : i = j
    · subst hi
      rw [hd, Option.some.injEq] at h
      exact .inr (.inr ⟨w, c, ht, hc, h ▸ hm⟩)
    · exact .inr (.inl (by rw [← hj i hi, h]))

/-- What a call has when it begins, keeps while others move, and keeps in its own steps, it has
always. -/
theorem call_induction {P : Nat → Nat → Call → Prop}
    (enters : ∀ t i, σ t = .begin → i = σ.begun t → P (t + 1) i .entering)
    (stays : ∀ t i c, σ.call t i = some c → P t i c → P (t + 1) i c)
    (moves : ∀ t i w c c', σ t = .advance i w → σ.call t i = some c → σ.call (t + 1) i = some c' →
      c.Move w (σ.locator t) (σ.locator (t + 1)) c' → P t i c → P (t + 1) i c') :
    ∀ {t i : Nat} {c : Call}, σ.call t i = some c → P t i c
  | 0, i, c, h => by simp [call, crowd, Crowd.empty] at h
  | t + 1, i, c', h => by
    rcases σ.call_succ h with ⟨ht, hi, rfl⟩ | hc | ⟨w, c, ht, hc, hm⟩
    · exact enters t i ht hi
    · exact stays t i c' hc (call_induction enters stays moves hc)
    · exact moves t i w c c' ht hc h hm (call_induction enters stays moves hc)

theorem call_forward {t i : Nat} {c : Call} (h : σ.call t i = some c) :
    ∃ c', σ.call (t + 1) i = some c' ∧ ((∀ w, σ t ≠ .advance i w) ∧ c' = c
      ∨ ∃ w, σ t = .advance i w ∧ c.Move w (σ.locator t) (σ.locator (t + 1)) c') := by
  have hi := σ.begun_of_call h
  rcases σ.turn_cases t with ⟨ht, -, -, -, hj⟩ | ⟨ht, -, -, hj⟩ | ⟨hs, j, w, ht, hn⟩
    | ⟨j, w, d, d', ht, hd, hd', hm, -, hj⟩
  · exact ⟨c, by rw [hj i (by omega), h], .inl ⟨by simp [ht], rfl⟩⟩
  · exact ⟨c, by rw [hj i, h], .inl ⟨by simp [ht], rfl⟩⟩
  · refine ⟨c, by rw [← h, call, call, hs], .inl ⟨fun w' hw => ?_, rfl⟩⟩
    rw [ht, Turn.advance.injEq] at hw
    rw [hw.1, h] at hn
    cases hn
  · by_cases hij : i = j
    · subst hij
      rw [hd, Option.some.injEq] at h
      exact ⟨d', hd', .inr ⟨w, ht, h ▸ hm⟩⟩
    · refine ⟨c, by rw [hj i hij, h], .inl ⟨fun w' hw => hij ?_, rfl⟩⟩
      rw [ht, Turn.advance.injEq] at hw
      exact hw.1.symm

theorem generation_succ {t : Nat} (h : σ t ≠ .invalidate) :
    (σ.locator (t + 1)).generation = (σ.locator t).generation := by
  rcases σ.locator_turn t with ⟨_, _, _, _, _, -, -, hl⟩ | ⟨ht, -⟩ | hk
  · rw [hl, Locator.store_generation]
  · exact absurd ht h
  · exact hk.generation

theorem generation_invalidate {t : Nat} (h : σ t = .invalidate) :
    (σ.locator (t + 1)).generation = (σ.locator t).generation + 1 := by
  simp [locator, crowd, h, Crowd.take, Locator.invalidate]

theorem generation_mono {s t : Nat} (h : s ≤ t) :
    (σ.locator s).generation ≤ (σ.locator t).generation := by
  induction t, h using Nat.le_induction with
  | base => exact le_rfl
  | succ t _ ih =>
    by_cases ht : σ t = .invalidate
    · rw [σ.generation_invalidate ht]
      omega
    · rwa [σ.generation_succ ht]

theorem lt_of_generation_le {c k : Nat} (hk : σ k = .invalidate)
    (h : (σ.locator (k + 1)).generation ≤ (σ.locator c).generation) : k < c := by
  by_contra hc
  have h₁ := σ.generation_mono (Nat.le_of_not_lt hc)
  rw [σ.generation_invalidate hk] at h
  omega

theorem begun_mono {s t : Nat} (h : s ≤ t) : σ.begun s ≤ σ.begun t := by
  induction t, h using Nat.le_induction with
  | base => exact le_rfl
  | succ t _ ih =>
    rcases σ.turn_cases t with ⟨-, -, hb, -⟩ | ⟨-, -, hb, -⟩ | ⟨hs, -⟩
      | ⟨_, _, _, _, -, -, -, -, hb, -⟩
    · omega
    · omega
    · simpa only [begun, hs] using ih
    · omega

theorem stage_mono {s t i : Nat} {c : Call} (h : s ≤ t) (hc : σ.call s i = some c) :
    ∃ c', σ.call t i = some c' ∧ c.stage ≤ c'.stage := by
  induction t, h using Nat.le_induction with
  | base => exact ⟨c, hc, le_rfl⟩
  | succ t _ ih =>
    obtain ⟨d, hd, hle⟩ := ih
    obtain ⟨d', hd', ⟨-, rfl⟩ | ⟨w, -, hm⟩⟩ := σ.call_forward hd
    · exact ⟨d', hd', hle⟩
    · exact ⟨d', hd', hle.trans hm.stage_le⟩

theorem call_finished {s t i : Nat} {a : Except Failure (Option Toolchain)} (h : s ≤ t)
    (hc : σ.call s i = some (.finished a)) : σ.call t i = some (.finished a) := by
  induction t, h using Nat.le_induction with
  | base => exact hc
  | succ t _ ih =>
    obtain ⟨d', hd', ⟨-, rfl⟩ | ⟨w, -, hm⟩⟩ := σ.call_forward ih
    · exact hd'
    · exact hm.finished ▸ hd'

def IsIn (t i : Nat) : Prop := ∃ c, σ.call t i = some c ∧ c.isIn = true

theorem isIn_turn (t : Nat) :
    ((∀ j, σ.IsIn (t + 1) j ↔ σ.IsIn t j) ∧ (σ.locator (t + 1)).busy = (σ.locator t).busy)
      ∨ (∃ i, (σ.locator t).busy = false ∧ (σ.locator (t + 1)).busy = true ∧ σ.IsIn (t + 1) i
        ∧ ∀ j, j ≠ i → (σ.IsIn (t + 1) j ↔ σ.IsIn t j))
      ∨ ∃ i, σ.IsIn t i ∧ ¬ σ.IsIn (t + 1) i ∧ (σ.locator (t + 1)).busy = false
        ∧ ∀ j, j ≠ i → (σ.IsIn (t + 1) j ↔ σ.IsIn t j) := by
  rcases σ.turn_cases t with ⟨-, hl, -, hn, hj⟩ | ⟨-, hl, -, hj⟩ | ⟨hs, -⟩
    | ⟨i, w, c, c', -, hc, hc', hm, -, hj⟩
  · refine .inl ⟨fun j => ?_, by rw [hl]⟩
    by_cases h : j = σ.begun t
    · have hb : σ.call t (σ.begun t) = none := (σ.call_eq_none).2 le_rfl
      simp [h, IsIn, hn, hb, Call.isIn, Call.generation?]
    · simp only [IsIn, hj j h]
  · exact .inl ⟨fun j => by simp only [IsIn, hj j], by rw [hl]; rfl⟩
  · exact .inl ⟨fun j => by simp only [IsIn, call, hs], by simp only [locator, hs]⟩
  · have ho : ∀ j, j ≠ i → (σ.IsIn (t + 1) j ↔ σ.IsIn t j) := fun j h => by
      simp only [IsIn, hj j h]
    rcases hm.isIn_cases with ⟨h₁, h₂⟩ | ⟨h₁, h₂, h₃, h₄⟩ | ⟨h₁, h₂, h₃⟩
    · refine .inl ⟨fun j => ?_, h₂⟩
      by_cases h : j = i
      · simp [h, IsIn, hc, hc', h₁]
      · exact ho j h
    · exact .inr (.inl ⟨i, h₃, h₄, ⟨c', hc', h₂⟩, ho⟩)
    · exact .inr (.inr ⟨i, ⟨c, hc, h₁⟩, by simp [IsIn, hc', h₂], h₃, ho⟩)

/-- At most one call is in, and the locator is busy exactly when one is. -/
theorem isIn_exclusive : ∀ t : Nat,
    (∀ i j, σ.IsIn t i → σ.IsIn t j → i = j) ∧ ((σ.locator t).busy = true ↔ ∃ i, σ.IsIn t i)
  | 0 => by simp [IsIn, call, locator, crowd, Crowd.empty, Locator.fresh]
  | t + 1 => by
    obtain ⟨hu, hb⟩ := isIn_exclusive t
    rcases σ.isIn_turn t with ⟨h, hl⟩ | ⟨i, hf, hl, hi, ho⟩ | ⟨i, hi, hn, hl, ho⟩
    · simp only [h, hl]
      exact ⟨hu, hb⟩
    · -- nobody was in, so the call that was let in is the only one
      have hnone : ∀ j, ¬ σ.IsIn t j := fun j hj => by simp [hb.2 ⟨j, hj⟩] at hf
      have honly : ∀ j, σ.IsIn (t + 1) j → j = i := fun j hj => by
        by_contra hne
        exact hnone j ((ho j hne).1 hj)
      exact ⟨fun j k hj hk => (honly j hj).trans (honly k hk).symm, by simp [hl]; exact ⟨i, hi⟩⟩
    · -- only the call that gave way was in
      have hnone : ∀ j, ¬ σ.IsIn (t + 1) j := fun j hj => by
        by_cases h : j = i
        · exact hn (h ▸ hj)
        · exact h (hu j i ((ho j h).1 hj) hi)
      exact ⟨fun j k hj => absurd hj (hnone j), by simp [hl, hnone]⟩

theorem holder_unique {t i j : Nat} (hi : σ.IsIn t i) (hj : σ.IsIn t j) : i = j :=
  (σ.isIn_exclusive t).1 i j hi hj

end Schedule

end Toolchain

end DhrWorkbench
