import DhrWorkbench.Session.Desk
import Mathlib.Data.List.Induction
import Mathlib.Data.List.Nodup

/-!
# The line of deliveries

The desk, the worker and whoever cancels checks take steps in any order (`Turn`). Beside the checks
a book holds the deliveries that were handled, and what was said. All deliveries of which the desk
was told make a line: those handled, the one in hand, those in the queue.

A step does one of a few things to the checks and the line (`move_take`), and each of them keeps
what ties the two (`Sound`): a check stands in the line once and from when the desk was told of it,
and those that ran stand in the order in which they were submitted. The worker begins no check
before it has told of the one it ran, unless the desk has not asked for its end; but then the desk
has submitted no other.
-/

namespace DhrWorkbench

def Delivery.isCancelled : Delivery → Bool
  | .cancelled => true
  | _ => false

namespace Check

/-- Whether the worker has begun a check. -/
def hasBegun (c : Check) : Bool :=
  match c.phase with
  | .waiting => false
  | .running => true
  | .ended delivery => !delivery.isCancelled

end Check

namespace Checks

/-- One step of the desk, of the worker, or of someone who cancels checks. -/
inductive Turn
  | submit (target : Text)
  | count
  | watch
  | begin
  /-- The check that runs comes to its end, or breaks off. -/
  | finish (delivery : Delivery)
  | tell (check : ℕ)
  | cancel (check : ℕ)
  | close
  | take
  /-- The delivery that was taken is handled in a session. -/
  | handle (s : Session) (e : Execution)

/-- A delivery that was handled, and what was said. -/
structure Handled where
  check : ℕ
  delivery : Delivery
  said : List Event

/-- The checks, and what was handled in its order. -/
structure Book where
  checks : Checks
  handled : List Handled

namespace Desk

/-- The check that the desk is submitting. -/
def submitting? : Desk → Option ℕ
  | .counting i => some i
  | .watching i => some i
  | _ => Option.none

/-- The check that is not counted yet, as a number of checks. -/
def uncounted : Desk → ℕ
  | .counting _ => 1
  | _ => 0

def inHand : Desk → List (ℕ × Delivery)
  | .handling i delivery => [(i, delivery)]
  | _ => []

end Desk

namespace Book

def empty : Book := ⟨.none, []⟩

/-- One step. The desk submits and takes only when it is at nothing else. -/
def take (b : Book) : Turn → Book
  | .submit target => match b.checks.desk with
    | .idle => { b with checks := (b.checks.submit? target).getD b.checks }
    | _ => b
  | .count => { b with checks := b.checks.count }
  | .watch => { b with checks := b.checks.watch }
  | .begin => { b with checks := b.checks.begin }
  | .finish delivery => { b with checks := b.checks.finish delivery }
  | .tell i => { b with checks := b.checks.tell i }
  | .cancel i => { b with checks := b.checks.cancel i }
  | .close => { b with checks := b.checks.close }
  | .take => match b.checks.desk, b.checks.take? with
    | .idle, some (_, checks) => { b with checks }
    | _, _ => b
  | .handle s e => match b.checks.desk with
    | .handling i delivery =>
      ⟨b.checks.settle, b.handled ++ [⟨i, delivery, (s.quiet.handle e delivery).log⟩]⟩
    | _ => b

def after (b : Book) (turns : List Turn) : Book := turns.foldl take b

theorem after_append (b : Book) (turns more : List Turn) :
    b.after (turns ++ more) = (b.after turns).after more :=
  List.foldl_append

def run (turns : List Turn) : Book := empty.after turns

/-- All deliveries of which the desk was told, in their order. -/
def line (b : Book) : List (ℕ × Delivery) :=
  b.handled.map (fun h => (h.check, h.delivery)) ++ b.checks.desk.inHand ++ b.checks.deliveries

/-! ## Order -/

/-- What the order of deliveries depends on. -/
structure Outline where
  all : List Check
  worker : Option ℕ
  submitting : Option ℕ
  line : List (ℕ × Delivery)

def outline (b : Book) : Outline :=
  ⟨b.checks.all, b.checks.worker, b.checks.desk.submitting?, b.line⟩

/-- What can happen in a step. -/
inductive Move : Outline → Outline → Prop
  | same {o : Outline} : Move o o
  | submit {o : Outline} (target : Text) (idle : o.submitting = Option.none) :
    Move o { o with all := o.all ++ [.submitted target], submitting := some o.all.length }
  /-- The desk asks for the end of a check that has not ended. -/
  | watch {o : Outline} {i : ℕ} {k : Check} (h : o.submitting = some i) (hk : o.all[i]? = some k)
      (goesOn : k.delivery? = Option.none) :
    Move o { o with all := o.all.set i { k with watched := true }, submitting := Option.none }
  | begin {o : Outline} {i : ℕ} {k : Check} (free : o.worker = Option.none)
      (hk : o.all[i]? = some k) (waiting : k.phase = .waiting)
      (next : ∀ j k', j < i → o.all[j]? = some k' → k'.phase ≠ .waiting) :
    Move o { o with all := o.all.set i { k with phase := .running }, worker := some i }
  | finish {o : Outline} {i : ℕ} {k : Check} {delivery : Delivery} (h : o.worker = some i)
      (hk : o.all[i]? = some k) (running : k.phase = .running) :
    Move o { o with
      all := o.all.set i { k with phase := .ended delivery }
      worker := if k.watched then some i else Option.none }
  | cancel {o : Outline} {i : ℕ} {k : Check} (hk : o.all[i]? = some k)
      (waiting : k.phase = .waiting) :
    Move o { o with all := o.all.set i { k with phase := .ended .cancelled } }
  /-- The desk learns of the end of a check. -/
  | tell {o : Outline} {i : ℕ} {k : Check} {delivery : Delivery} (worker submitting : Option ℕ)
      (hk : o.all[i]? = some k) (ended : k.phase = .ended delivery) (untold : k.told = false)
      (hworker : ∀ j, o.worker = some j → j ≠ i → worker = some j)
      (hsubmitting : ∀ j, o.submitting = some j → j ≠ i → submitting = some j)
      (hlast : ∀ j, submitting = some j → o.submitting = some j ∧ j ≠ i) :
    Move o ⟨o.all.set i { k with watched := true, told := true }, worker, submitting,
      o.line ++ [(i, delivery)]⟩

/-- What holds between the checks and the line of deliveries at all times. -/
structure Sound (o : Outline) : Prop where
  count : o.all.countP (·.told) = o.line.length
  nodup : (o.line.map (·.1)).Nodup
  told {i : ℕ} : i ∈ o.line.map (·.1) ↔ ∃ k, o.all[i]? = some k ∧ k.told
  ended {i : ℕ} {delivery : Delivery} (h : (i, delivery) ∈ o.line) :
    ∃ k, o.all[i]? = some k ∧ k.phase = .ended delivery
  /-- The check that is being submitted is the last. -/
  last {i : ℕ} (h : o.submitting = some i) :
    i + 1 = o.all.length ∧ ∃ k, o.all[i]? = some k ∧ k.watched = false
  unwatched {i : ℕ} {k : Check} (hk : o.all[i]? = some k) (h : k.watched = false) :
    k.told = false ∧ o.submitting = some i
  /-- A check that has begun and of which the desk was not told is the worker's, or the desk will
  find its end when it asks. -/
  worker {i : ℕ} {k : Check} (hk : o.all[i]? = some k) (hbegun : k.hasBegun)
    (huntold : k.told = false) :
    o.worker = some i ∨ (k.watched = false ∧ k.isRunning = false)
  /-- No check begins before an earlier one is over. -/
  begun {i j : ℕ} {k k' : Check} (hlt : i < j) (hk : o.all[i]? = some k)
    (hk' : o.all[j]? = some k') (hbegun : k'.hasBegun) : k.told ∨ k.phase = .ended .cancelled
  sorted : ((o.line.filter (!·.2.isCancelled)).map (·.1)).Pairwise (· < ·)

theorem getElem?_set_cases {α : Type} {l : List α} {i j : ℕ} {a b : α}
    (h : (l.set i a)[j]? = some b) : (j = i ∧ b = a) ∨ (j ≠ i ∧ l[j]? = some b) := by
  grind

theorem countP_set_told {all : List Check} {i : ℕ} {k k' : Check} (hk : all[i]? = some k)
    (huntold : k.told = false) :
    (all.set i k').countP (·.told) = all.countP (·.told) + if k'.told then 1 else 0 := by
  obtain ⟨hlt, rfl⟩ := List.getElem?_eq_some_iff.1 hk
  rw [List.countP_set hlt]
  simp [huntold]

namespace Sound

variable {o : Outline}

theorem submit (h : Sound o) {target : Text} (idle : o.submitting = Option.none) :
    Sound { o with all := o.all ++ [.submitted target], submitting := some o.all.length } := by
  have hold : ∀ {i : ℕ} {k : Check}, o.all[i]? = some k →
      (o.all ++ [Check.submitted target])[i]? = some k := by
    grind
  have hcases : ∀ {i : ℕ} {k : Check}, (o.all ++ [Check.submitted target])[i]? = some k →
      o.all[i]? = some k ∨ (i = o.all.length ∧ k = .submitted target) := by
    grind
  refine ⟨?_, h.nodup, ?_, ?_, ?_, ?_, ?_, ?_, h.sorted⟩
  · simpa [Check.submitted] using h.count
  · intro i
    rw [h.told]
    constructor
    · rintro ⟨k, hk, htold⟩
      exact ⟨k, hold hk, htold⟩
    · rintro ⟨k, hk, htold⟩
      rcases hcases hk with hk | ⟨-, rfl⟩
      · exact ⟨k, hk, htold⟩
      · simp [Check.submitted] at htold
  · intro i delivery hline
    obtain ⟨k, hk, hphase⟩ := h.ended hline
    exact ⟨k, hold hk, hphase⟩
  · rintro i ⟨⟩
    simp [Check.submitted]
  · intro i k hk hno
    rcases hcases hk with hk | ⟨rfl, rfl⟩
    · have := (h.unwatched hk hno).2
      simp [idle] at this
    · simp [Check.submitted]
  · intro i k hk hbegun huntold
    rcases hcases hk with hk | ⟨-, rfl⟩
    · exact h.worker hk hbegun huntold
    · simp [Check.submitted, Check.hasBegun] at hbegun
  · intro i j k k' hlt hk hk' hbegun
    rcases hcases hk' with hk' | ⟨-, rfl⟩
    · rcases hcases hk with hk | ⟨rfl, -⟩
      · exact h.begun hlt hk hk' hbegun
      · have := (List.getElem?_eq_some_iff.1 hk').1
        omega
    · simp [Check.submitted, Check.hasBegun] at hbegun

theorem length_le (h : Sound o) : o.line.length ≤ o.all.length := by
  rw [← h.count]
  exact List.countP_le_length

theorem told_of_line (h : Sound o) {i : ℕ} {delivery : Delivery} {k : Check}
    (hline : (i, delivery) ∈ o.line) (hk : o.all[i]? = some k) : k.told := by
  obtain ⟨k', hk', htold⟩ := h.told.1 (List.mem_map_of_mem hline)
  rw [hk] at hk'
  cases hk'
  exact htold

theorem ended_of_told (h : Sound o) {i : ℕ} {k : Check} (hk : o.all[i]? = some k)
    (htold : k.told) : ∃ delivery, k.phase = .ended delivery := by
  obtain ⟨⟨i', delivery⟩, hline, rfl⟩ := List.mem_map.1 (h.told.2 ⟨k, hk, htold⟩)
  obtain ⟨k', hk', hphase⟩ := h.ended hline
  rw [hk] at hk'
  cases hk'
  exact ⟨delivery, hphase⟩

theorem untold_of_phase (h : Sound o) {i : ℕ} {k : Check} (hk : o.all[i]? = some k)
    (hphase : k.delivery? = Option.none) : k.told = false := by
  by_contra htold
  obtain ⟨delivery, hended⟩ := h.ended_of_told hk (by simpa using htold)
  simp [Check.delivery?, hended] at hphase

/-- A worker that is at no check has told of all it ran, up to one that was submitted last. -/
theorem over_of_free (h : Sound o) (free : o.worker = Option.none) {j : ℕ} {k : Check}
    (hk : o.all[j]? = some k) (hphase : k.phase ≠ .waiting) (hlt : j + 1 < o.all.length) :
    k.told ∨ k.phase = .ended .cancelled := by
  by_contra hno
  obtain ⟨hno, hnocancel⟩ := not_or.1 hno
  have hbegun : k.hasBegun := by
    rcases hk' : k.phase with _ | _ | (_ | _ | _) <;>
      simp_all [Check.hasBegun, Delivery.isCancelled]
  rcases h.worker hk hbegun (by simpa using hno) with hat | ⟨hunwatched, -⟩
  · simp [free] at hat
  · have := (h.last (h.unwatched hk hunwatched).2).1
    omega

/-- One check changes. The order is kept if all before it are over when it begins, and if it stays
over. -/
theorem begun_set (h : Sound o) {i : ℕ} {k : Check} (hk : o.all[i]? = some k) (k' : Check)
    (hbefore : ∀ {j : ℕ} {k₁ : Check}, j < i → o.all[j]? = some k₁ → k'.hasBegun →
      k₁.told ∨ k₁.phase = .ended .cancelled)
    (hstays : k.told ∨ k.phase = .ended .cancelled → k'.told ∨ k'.phase = .ended .cancelled)
    {j l : ℕ} {k₁ k₂ : Check} (hlt : j < l) (hk₁ : (o.all.set i k')[j]? = some k₁)
    (hk₂ : (o.all.set i k')[l]? = some k₂) (hbegun : k₂.hasBegun) :
    k₁.told ∨ k₁.phase = .ended .cancelled := by
  rcases getElem?_set_cases hk₁ with ⟨rfl, rfl⟩ | ⟨-, ho₁⟩ <;>
    rcases getElem?_set_cases hk₂ with ⟨rfl, rfl⟩ | ⟨-, ho₂⟩
  · omega
  · exact hstays (h.begun hlt hk ho₂ hbegun)
  · exact hbefore hlt ho₁ hbegun
  · exact h.begun hlt ho₁ ho₂ hbegun

/-- A check of which the desk was not told changes its phase. What is left to show is who is at it,
and that the order is kept. -/
theorem rephase (h : Sound o) {i : ℕ} {k : Check} (hk : o.all[i]? = some k)
    (huntold : k.told = false) {phase : Check.Phase} {worker : Option ℕ}
    (hworker : ∀ {j : ℕ} {k' : Check}, (o.all.set i { k with phase })[j]? = some k' →
      k'.hasBegun → k'.told = false →
      worker = some j ∨ (k'.watched = false ∧ k'.isRunning = false))
    (hbefore : ∀ {j : ℕ} {k₁ : Check}, j < i → o.all[j]? = some k₁ →
      { k with phase }.hasBegun → k₁.told ∨ k₁.phase = .ended .cancelled)
    (hstays : k.phase = .ended .cancelled → phase = .ended .cancelled) :
    Sound { o with all := o.all.set i { k with phase }, worker } := by
  refine ⟨?_, h.nodup, ?_, ?_, ?_, ?_, hworker,
    h.begun_set hk _ hbefore (Or.imp_right hstays), h.sorted⟩
  · rw [countP_set_told hk huntold, h.count]
    simp [huntold]
  · intro j
    rw [h.told]
    grind
  · intro j delivery hline
    obtain ⟨k', hk', hphase⟩ := h.ended hline
    have hne : i ≠ j := by
      rintro rfl
      rw [h.told_of_line hline hk] at huntold
      cases huntold
    exact ⟨k', by rw [List.getElem?_set_ne hne, hk'], hphase⟩
  · intro j hj
    obtain ⟨hlen, k', hk', hno⟩ := h.last hj
    exact ⟨by simpa using hlen, by grind⟩
  · intro j k' hk' hno
    rcases getElem?_set_cases hk' with ⟨rfl, rfl⟩ | ⟨-, hk'⟩
    · exact ⟨huntold, (h.unwatched hk hno).2⟩
    · exact h.unwatched hk' hno

theorem begin (h : Sound o) {i : ℕ} {k : Check} (free : o.worker = Option.none)
    (hk : o.all[i]? = some k) (waiting : k.phase = .waiting)
    (next : ∀ j k', j < i → o.all[j]? = some k' → k'.phase ≠ .waiting) :
    Sound { o with all := o.all.set i { k with phase := .running }, worker := some i } := by
  have huntold := h.untold_of_phase hk (by simp [Check.delivery?, waiting])
  have hlt := (List.getElem?_eq_some_iff.1 hk).1
  refine h.rephase hk huntold ?_ ?_ (by simp [waiting])
  · intro j k' hk' hbegun hold
    rcases getElem?_set_cases hk' with ⟨rfl, -⟩ | ⟨-, hk'⟩
    · exact .inl rfl
    · exact .inr (by simpa [free] using h.worker hk' hbegun hold)
  · intro j k₁ hji hk₁ _
    exact h.over_of_free free hk₁ (next j k₁ hji hk₁) (by omega)

theorem finish (h : Sound o) {i : ℕ} {k : Check} {delivery : Delivery} (hat : o.worker = some i)
    (hk : o.all[i]? = some k) (running : k.phase = .running) :
    Sound { o with
      all := o.all.set i { k with phase := .ended delivery }
      worker := if k.watched then some i else Option.none } := by
  have huntold := h.untold_of_phase hk (by simp [Check.delivery?, running])
  have hbegun : k.hasBegun := by simp [Check.hasBegun, running]
  refine h.rephase hk huntold ?_ (fun hlt hk₁ _ => h.begun hlt hk₁ hk hbegun) (by simp [running])
  intro j k' hk' hb hold
  rcases getElem?_set_cases hk' with ⟨rfl, rfl⟩ | ⟨hne, hk'⟩
  · by_cases hwatched : k.watched
    · exact .inl (by simp [hwatched])
    · exact .inr ⟨by simpa using hwatched, rfl⟩
  · rcases h.worker hk' hb hold with hat' | hat'
    · rw [hat] at hat'
      exact absurd (Option.some.inj hat').symm hne
    · exact .inr hat'

theorem cancel (h : Sound o) {i : ℕ} {k : Check} (hk : o.all[i]? = some k)
    (waiting : k.phase = .waiting) :
    Sound { o with all := o.all.set i { k with phase := .ended .cancelled } } := by
  have huntold := h.untold_of_phase hk (by simp [Check.delivery?, waiting])
  refine h.rephase hk huntold ?_ ?_ (fun _ => rfl)
  · intro j k' hk' hb hold
    rcases getElem?_set_cases hk' with ⟨rfl, rfl⟩ | ⟨-, hk'⟩
    · simp [Check.hasBegun, Delivery.isCancelled] at hb
    · exact h.worker hk' hb hold
  · intro j k₁ _ _ hb
    simp [Check.hasBegun, Delivery.isCancelled] at hb

theorem watch (h : Sound o) {i : ℕ} {k : Check} (hi : o.submitting = some i)
    (hk : o.all[i]? = some k) (goesOn : k.delivery? = Option.none) :
    Sound { o with all := o.all.set i { k with watched := true }, submitting := Option.none } := by
  have huntold := h.untold_of_phase hk goesOn
  refine ⟨?_, h.nodup, ?_, ?_, ?_, ?_, ?_,
    h.begun_set hk { k with watched := true } (fun hlt hk₁ hb => h.begun hlt hk₁ hk hb) id,
    h.sorted⟩
  · rw [countP_set_told hk huntold, h.count]
    simp [huntold]
  · intro j
    rw [h.told]
    grind
  · intro j delivery hline
    obtain ⟨k', hk', hphase⟩ := h.ended hline
    grind
  · rintro j ⟨⟩
  · intro j k' hk' hno
    rcases getElem?_set_cases hk' with ⟨rfl, rfl⟩ | ⟨hne, hk'⟩
    · cases hno
    · have := (h.unwatched hk' hno).2
      rw [hi] at this
      exact absurd (Option.some.inj this).symm hne
  · intro j k' hk' hb hold
    rcases getElem?_set_cases hk' with ⟨rfl, rfl⟩ | ⟨-, hk'⟩
    · -- it runs, so the worker is at it
      refine .inl ?_
      rcases h.worker hk hb hold with hat | ⟨-, hstill⟩
      · exact hat
      · rcases hphase : k.phase <;>
          simp_all [Check.hasBegun, Check.isRunning, Check.delivery?]
    · exact h.worker hk' hb hold

/-- Of the checks that ran, those of which the desk was told come before all others. -/
theorem lt_of_untold (h : Sound o) {i j : ℕ} {k : Check} {delivery delivery' : Delivery}
    (hk : o.all[i]? = some k) (ended : k.phase = .ended delivery) (untold : k.told = false)
    (ran : delivery.isCancelled = false) (hline : (j, delivery') ∈ o.line)
    (ran' : delivery'.isCancelled = false) : j < i := by
  obtain ⟨k', hk', hphase⟩ := h.ended hline
  rcases Nat.lt_trichotomy j i with hlt | rfl | hgt
  · exact hlt
  · simp [h.told_of_line hline hk] at untold
  · -- the other one has begun, and then this one would be over
    have := h.begun hgt hk hk' (by simp [Check.hasBegun, hphase, ran'])
    simp only [untold, ended, Bool.false_eq_true, Check.Phase.ended.injEq, false_or] at this
    simp [this, Delivery.isCancelled] at ran

theorem tell (h : Sound o) {i : ℕ} {k : Check} {delivery : Delivery}
    {worker submitting : Option ℕ} (hk : o.all[i]? = some k) (ended : k.phase = .ended delivery)
    (untold : k.told = false) (hworker : ∀ j, o.worker = some j → j ≠ i → worker = some j)
    (hsubmitting : ∀ j, o.submitting = some j → j ≠ i → submitting = some j)
    (hlast : ∀ j, submitting = some j → o.submitting = some j ∧ j ≠ i) :
    Sound ⟨o.all.set i { k with watched := true, told := true }, worker, submitting,
      o.line ++ [(i, delivery)]⟩ := by
  have hnew : i ∉ o.line.map (·.1) := by
    rw [h.told]
    rintro ⟨k', hk', htold⟩
    simp_all
  refine ⟨?_, ?_, ?_, ?_, ?_, ?_, ?_,
    h.begun_set hk { k with watched := true, told := true }
      (fun hlt hk₁ hb => h.begun hlt hk₁ hk hb) fun _ => .inl rfl, ?_⟩
  · rw [countP_set_told hk untold, h.count]
    simp
  · rw [List.map_append]
    exact h.nodup.append (List.nodup_singleton _) (List.disjoint_singleton.2 hnew)
  · intro j
    simp only [List.map_append, List.mem_append, h.told]
    grind
  · intro j delivery' hline
    rcases List.mem_append.1 hline with hline | hline
    · obtain ⟨k', hk', hphase⟩ := h.ended hline
      grind
    · grind
  · intro j hj
    obtain ⟨hj, hne⟩ := hlast j hj
    obtain ⟨hlen, k', hk', hno⟩ := h.last hj
    exact ⟨by simpa using hlen, k', by grind, hno⟩
  · intro j k' hk' hno
    rcases getElem?_set_cases hk' with ⟨rfl, rfl⟩ | ⟨hne, ho⟩
    · cases hno
    · exact ⟨(h.unwatched ho hno).1, hsubmitting j (h.unwatched ho hno).2 hne⟩
  · intro j k' hk' hb hold
    rcases getElem?_set_cases hk' with ⟨rfl, rfl⟩ | ⟨hne, ho⟩
    · cases hold
    · exact (h.worker ho hb hold).imp_left (hworker j · hne)
  · rw [List.filter_append, List.map_append, List.pairwise_append]
    refine ⟨h.sorted, by cases hc : delivery.isCancelled <;> simp [hc], ?_⟩
    intro j hj l hl
    obtain ⟨⟨j, delivery'⟩, hline, rfl⟩ := List.mem_map.1 hj
    obtain ⟨hline, ran'⟩ := List.mem_filter.1 hline
    obtain ⟨rfl, ran⟩ : l = i ∧ delivery.isCancelled = false := by
      cases hc : delivery.isCancelled <;> simp_all
    exact h.lt_of_untold hk ended untold ran hline (by simpa using ran')

theorem move {o' : Outline} (h : Sound o) (m : Move o o') : Sound o' := by
  cases m with
  | same => exact h
  | submit target idle => exact h.submit idle
  | watch hi hk goesOn => exact h.watch hi hk goesOn
  | begin free hk waiting next => exact h.begin free hk waiting next
  | finish hat hk running => exact h.finish hat hk running
  | cancel hk waiting => exact h.cancel hk waiting
  | tell worker submitting hk ended untold hworker hsubmitting hlast =>
    exact h.tell hk ended untold hworker hsubmitting hlast

end Sound

theorem modify_of_getElem? {α : Type} {l : List α} {i : ℕ} {a : α} (f : α → α)
    (h : l[i]? = some a) : l.modify i f = l.set i (f a) := by
  rw [List.modify_eq_set_getElem?, h]
  rfl

end Book

/-! ## What a step of the checks can do -/

theorem begin_cases (c : Checks) : c.begin = c ∨
    ∃ i k, c.worker = Option.none ∧ c.all[i]? = some k ∧ k.phase = .waiting ∧
      (∀ j k', j < i → c.all[j]? = some k' → k'.phase ≠ .waiting) ∧
      c.begin = { c with all := c.all.set i { k with phase := .running }, worker := some i } := by
  rcases hworker : c.worker with _ | at'
  · rcases hi : c.all.findIdx? (·.isWaiting) with _ | i
    · exact .inl (by simp [begin, hworker, hi])
    · obtain ⟨hlt, hwaiting, hnext⟩ := List.findIdx?_eq_some_iff_getElem.1 hi
      have hk : c.all[i]? = some c.all[i] := List.getElem?_eq_getElem hlt
      refine .inr ⟨i, c.all[i], rfl, hk, ?_, ?_, ?_⟩
      · rcases hphase : c.all[i].phase <;> simp [Check.isWaiting, hphase] at hwaiting ⊢
      · intro j k' hj hk' hphase
        obtain ⟨hj', rfl⟩ := List.getElem?_eq_some_iff.1 hk'
        exact hnext j hj (by simp [Check.isWaiting, hphase])
      · simp [begin, hworker, hi, Book.modify_of_getElem? _ hk]
  · exact .inl (by simp [begin, hworker])

theorem running?_eq_some {c : Checks} {i : ℕ} {target : Text}
    (h : c.running? = some (i, target)) :
    ∃ k, c.worker = some i ∧ c.all[i]? = some k ∧ k.phase = .running := by
  unfold running? at h
  rcases hworker : c.worker with _ | j <;> rw [hworker] at h
  · cases h
  dsimp only at h
  rcases hk : c.all[j]? with _ | k <;> rw [hk] at h
  · cases h
  dsimp only at h
  split_ifs at h with hrunning
  cases h
  rcases hphase : k.phase <;> simp [Check.isRunning, hphase] at hrunning
  exact ⟨k, rfl, hk, hphase⟩

theorem finish_cases (c : Checks) (delivery : Delivery) : c.finish delivery = c ∨
    ∃ i k, c.worker = some i ∧ c.all[i]? = some k ∧ k.phase = .running ∧
      c.finish delivery = { c with
        all := c.all.set i { k with phase := .ended delivery }
        worker := if k.watched then some i else Option.none } := by
  rcases hrunning : c.running? with _ | ⟨i, target⟩
  · exact .inl (by simp [finish, hrunning])
  · obtain ⟨k, hworker, hk, hphase⟩ := running?_eq_some hrunning
    exact .inr ⟨i, k, hworker, hk, hphase,
      by simp [finish, hrunning, isWatched, hk, Book.modify_of_getElem? _ hk]⟩

theorem cancel_cases (c : Checks) (i : ℕ) : c.cancel i = c ∨
    ∃ k, c.all[i]? = some k ∧ k.phase = .waiting ∧
      c.cancel i = { c with all := c.all.set i { k with phase := .ended .cancelled } } := by
  rcases hk : c.all[i]? with _ | k
  · exact .inl (by simp [cancel, List.modify_eq_set_getElem?, hk])
  rcases hphase : k.phase
  case waiting =>
    exact .inr ⟨k, rfl, hphase, by simp [cancel, Book.modify_of_getElem? _ hk, Check.cancel,
      Check.isWaiting, hphase]⟩
  all_goals
    have hself : c.all.set i k = c.all := by
      obtain ⟨hlt, rfl⟩ := List.getElem?_eq_some_iff.1 hk
      simp
    exact .inl (by simp [cancel, Book.modify_of_getElem? _ hk, Check.cancel, Check.isWaiting,
      hphase, hself])

theorem tell_cases (c : Checks) (i : ℕ) : c.tell i = c ∨
    ∃ k delivery, c.all[i]? = some k ∧ k.phase = .ended delivery ∧ k.watched ∧ k.told = false ∧
      c.tell i = { c with
        all := c.all.set i { k with told := true }
        worker := if c.worker = some i then Option.none else c.worker
        deliveries := c.deliveries ++ [(i, delivery)] } := by
  rcases hk : c.all[i]? with _ | k
  · exact .inl (by simp [tell, hk])
  rcases hphase : k.phase with _ | _ | delivery
  case ended =>
    by_cases hcan : k.watched && !k.told
    · simp only [Bool.and_eq_true, Bool.not_eq_eq_eq_not, Bool.not_true] at hcan
      exact .inr ⟨k, delivery, rfl, hphase, hcan.1, hcan.2, by simp [tell, hk, Check.delivery?,
        hphase, hcan, queue, Book.modify_of_getElem? _ hk]⟩
    · exact .inl (by simp [tell, hk, Check.delivery?, hphase, hcan])
  all_goals exact .inl (by simp [tell, hk, Check.delivery?, hphase])

theorem watch_cases (c : Checks) : c.watch = c ∨
    ∃ i, c.desk = .watching i ∧ ∀ k, c.all[i]? = some k →
      (k.delivery? = Option.none ∧
        c.watch = { c with all := c.all.set i { k with watched := true }, desk := .idle }) ∨
      ∃ delivery, k.phase = .ended delivery ∧
        c.watch = { c with
          all := c.all.set i { k with watched := true, told := true }
          desk := .idle
          deliveries := c.deliveries ++ [(i, delivery)] } := by
  rcases hdesk : c.desk with _ | _ | i | _
  case watching =>
    refine .inr ⟨i, rfl, fun k hk => ?_⟩
    rcases hphase : k.phase with _ | _ | delivery
    case ended =>
      have hagain (k' : Check) (f : Check → Check) :
          (c.all.set i k').modify i f = c.all.set i (f k') := by
        rw [Book.modify_of_getElem? f (List.getElem?_set_self (List.getElem?_eq_some_iff.1 hk).1),
          List.set_set]
      exact .inr ⟨delivery, rfl, by simp [watch, hdesk, delivery?, hk, Check.delivery?, hphase,
        queue, Book.modify_of_getElem? _ hk, hagain]⟩
    all_goals
      refine .inl ⟨by simp [Check.delivery?, hphase], ?_⟩
      simp [watch, hdesk, delivery?, hk, Check.delivery?, hphase, Book.modify_of_getElem? _ hk]
  all_goals exact .inl (by simp [watch, hdesk])

namespace Book

variable {b : Book}

theorem submit_cases (b : Book) (target : Text) : b.take (.submit target) = b ∨
    (b.checks.desk = .idle ∧ b.take (.submit target) = { b with
      checks := { b.checks with
        all := b.checks.all ++ [.submitted target], desk := .counting b.checks.all.length } }) := by
  rcases hdesk : b.checks.desk
  case idle =>
    rcases hclosed : b.checks.closed
    · exact .inr ⟨rfl, by simp [take, hdesk, submit?, hclosed]⟩
    · exact .inl (by simp [take, hdesk, submit?, hclosed])
  all_goals exact .inl (by simp [take, hdesk])

/-- What a step does to the line and to those who are at a check. -/
theorem move_take (h : Sound b.outline) (x : Turn) : Move b.outline (b.take x).outline := by
  cases x with
  | submit target =>
    rcases b.submit_cases target with hsame | ⟨hdesk, heq⟩
    · simp [hsame, Move.same]
    · have := Move.submit (o := b.outline) target (by simp [outline, hdesk, Desk.submitting?])
      simpa [heq, outline, line, hdesk, Desk.submitting?, Desk.inHand] using this
  | count =>
    rcases hdesk : b.checks.desk <;>
      simp [take, Checks.count, outline, line, hdesk, Desk.submitting?, Desk.inHand, Move.same]
  | watch =>
    rcases watch_cases b.checks with hsame | ⟨i, hdesk, hwatch⟩
    · simp [take, hsame, Move.same]
    have hi : b.outline.submitting = some i := by simp [outline, hdesk, Desk.submitting?]
    obtain ⟨-, k, hk, hno⟩ := h.last hi
    rcases hwatch k hk with ⟨goesOn, heq⟩ | ⟨delivery, ended, heq⟩
    · simpa [take, heq, outline, line, hdesk, Desk.submitting?, Desk.inHand] using
        Move.watch hi hk goesOn
    · have := Move.tell (o := b.outline) b.checks.worker Option.none hk ended
        (h.unwatched hk hno).1 (fun _ hat _ => hat) (by simp_all) (by simp)
      simpa [take, heq, outline, line, hdesk, Desk.submitting?, Desk.inHand] using this
  | begin =>
    rcases begin_cases b.checks with hsame | ⟨i, k, free, hk, waiting, next, heq⟩
    · simp [take, hsame, Move.same]
    · simpa [take, heq, outline, line] using Move.begin (o := b.outline) free hk waiting next
  | finish delivery =>
    rcases finish_cases b.checks delivery with hsame | ⟨i, k, hat, hk, running, heq⟩
    · simp [take, hsame, Move.same]
    · simpa [take, heq, outline, line] using Move.finish (o := b.outline) hat hk running
  | tell i =>
    rcases tell_cases b.checks i with hsame | ⟨k, delivery, hk, ended, hwatched, untold, heq⟩
    · simp [take, hsame, Move.same]
    have hnot : b.outline.submitting ≠ some i := by
      intro hi
      obtain ⟨-, k', hk', hno⟩ := h.last hi
      simp_all [outline]
    have := Move.tell (o := b.outline)
      (if b.checks.worker = some i then Option.none else b.checks.worker) b.outline.submitting
      hk ended untold (by grind [outline]) (fun _ hj _ => hj) (by grind)
    simpa [take, heq, outline, line, hwatched] using this
  | cancel i =>
    rcases cancel_cases b.checks i with hsame | ⟨k, hk, waiting, heq⟩
    · simp [take, hsame, Move.same]
    · simpa [take, heq, outline, line] using Move.cancel (o := b.outline) hk waiting
  | close => exact .same
  | take =>
    rcases hdesk : b.checks.desk <;> rcases hqueue : b.checks.deliveries <;>
      simp [take, outline, line, take?, hdesk, hqueue, Desk.submitting?, Desk.inHand, Move.same]
  | handle s e =>
    rcases hdesk : b.checks.desk <;>
      simp [take, outline, line, settle, hdesk, Desk.submitting?, Desk.inHand, Move.same]

theorem sound_empty : Sound empty.outline := by
  constructor <;> simp [empty, outline, line, Checks.none, Desk.inHand, Desk.submitting?]

theorem sound_after : ∀ (turns : List Turn) {b : Book}, Sound b.outline →
    Sound (b.after turns).outline
  | [], _, h => h
  | x :: rest, _, h => sound_after rest (h.move (move_take h x))

theorem sound_run (turns : List Turn) : Sound (run turns).outline := sound_after turns sound_empty

/-! ## The count -/

theorem length_line (b : Book) : b.line.length =
    b.handled.length + b.checks.desk.inHand.length + b.checks.deliveries.length := by
  simp [line, Nat.add_assoc]

/-- The count holds the checks that were not handled, up to the one that is not counted yet. -/
def IsBalanced (b : Book) : Prop :=
  b.checks.pending + b.checks.desk.uncounted + b.handled.length = b.checks.all.length

theorem isBalanced_take (h : Sound b.outline) (hb : b.IsBalanced) (x : Turn) :
    (b.take x).IsBalanced := by
  unfold IsBalanced at hb ⊢
  cases x with
  | submit target =>
    rcases b.submit_cases target with hsame | ⟨hdesk, heq⟩
    · rwa [hsame]
    · simp [heq, hdesk, Desk.uncounted] at hb ⊢
      omega
  | count =>
    rcases hdesk : b.checks.desk <;>
      simp [take, Checks.count, hdesk, Desk.uncounted] at hb ⊢ <;> omega
  | watch =>
    rcases watch_cases b.checks with hsame | ⟨i, hdesk, hwatch⟩
    · simpa [take, hsame] using hb
    obtain ⟨-, k, hk, -⟩ := h.last (i := i) (by simp [outline, hdesk, Desk.submitting?])
    rcases hwatch k hk with ⟨-, heq⟩ | ⟨delivery, -, heq⟩ <;>
      simpa [take, heq, hdesk, Desk.uncounted] using hb
  | begin =>
    rcases begin_cases b.checks with hsame | ⟨i, k, -, -, -, -, heq⟩
    · simpa [take, hsame] using hb
    · simpa [take, heq] using hb
  | finish delivery =>
    rcases finish_cases b.checks delivery with hsame | ⟨i, k, -, -, -, heq⟩
    · simpa [take, hsame] using hb
    · simpa [take, heq] using hb
  | tell i =>
    rcases tell_cases b.checks i with hsame | ⟨k, delivery, -, -, -, -, heq⟩
    · simpa [take, hsame] using hb
    · simpa [take, heq] using hb
  | cancel i => simpa [take, Checks.cancel] using hb
  | close => exact hb
  | take =>
    rcases hdesk : b.checks.desk <;> rcases hqueue : b.checks.deliveries <;>
      simp [take, take?, hdesk, hqueue, Desk.uncounted] at hb ⊢ <;> exact hb
  | handle s e =>
    rcases hdesk : b.checks.desk with _ | _ | _ | ⟨i, delivery⟩
    case handling =>
      -- the delivery in hand is one of those that were told, and not yet handled
      have hle : b.line.length ≤ b.checks.all.length := h.length_le
      simp only [length_line, hdesk, Desk.inHand, List.length_singleton] at hle
      simp [take, settle, hdesk, Desk.uncounted] at hb ⊢
      omega
    all_goals simpa [take, hdesk] using hb

theorem isBalanced_run (turns : List Turn) : (run turns).IsBalanced := by
  induction turns using List.reverseRecOn with
  | nil => rfl
  | append_singleton turns x ih =>
    rw [run, after_append]
    exact isBalanced_take (sound_run turns) ih x

/-- When the check that runs ends, the desk has asked for it and has not been told of it, so its
delivery comes to the queue at once. -/
theorem finish_tell (h : Sound b.outline) (idle : b.checks.desk = .idle) {i : ℕ} {target : Text}
    (running : b.checks.running? = some (i, target)) (delivery : Delivery) :
    ((b.checks.finish delivery).tell i).deliveries = b.checks.deliveries ++ [(i, delivery)] := by
  obtain ⟨k, hworker, hk, hphase⟩ := running?_eq_some running
  have huntold := h.untold_of_phase hk (by simp [Check.delivery?, hphase])
  have hwatched : k.watched := by
    by_contra hno
    have := (h.unwatched hk (by simpa using hno)).2
    simp [outline, idle, Desk.submitting?] at this
  have hlt := (List.getElem?_eq_some_iff.1 hk).1
  simp [finish, running, tell, queue, modify_of_getElem? _ hk, hlt, Check.delivery?, hwatched,
    huntold]

end Book

end Checks

end DhrWorkbench
