import DhrWorkbench.Proofs.SettingsRuns
import DhrWorkbench.Session

/-!
# Answers of listeners

An observer answers a change with actions of its own, in the middle of the action that set it off.
In a session with one manager that comes to operations one after the other: performing an action
is a run of operations that the action and the answers left with the observers ask for, however
deep the answers nest (`perform_isRun`). What holds of all runs therefore holds with listeners too.
-/

namespace DhrWorkbench

open Settings (Manager Scene Operation Listener Failure)

namespace Action

mutual

/-- The operations on a manager that an action asks for, those of its answers included. -/
def operations (name : Text) : Action → List Operation
  | .loadAll manager writeBack => if manager = name then [.loadAll writeBack] else []
  | .saveAll manager onlyDirty => if manager = name then [.saveAll onlyDirty] else []
  | .set manager key value scope =>
    if manager = name then
      match Session.keyText? key scope with
      | some key => [.set key value scope]
      | none => []
    else []
  | .listen manager observer answer =>
    if manager = name then .listen (.observer observer) :: operationsIn name answer else []
  | .unlisten manager observer answer =>
    if manager = name then .unlisten (.observer observer) :: operationsIn name answer else []
  | _ => []

def operationsIn (name : Text) : List Action → List Operation
  | [] => []
  | a :: rest => operations name a ++ operationsIn name rest

end

end Action

namespace Session

/-- The session has one manager, in a scene. -/
structure HasScene (name : Text) (s : Session) (sc : Scene) : Prop where
  managers : s.managers = [(name, sc.manager)]
  host : s.host = sc.host

/-- The operations on a manager that the answers left with the observers ask for. -/
def answerOperations (name : Text) (s : Session) : List Operation :=
  s.observers.flatMap fun entry => entry.2.flatMap (Action.operationsIn name)

/-- The answers left with the observers ask for some operations only. -/
def AnswersWithin (name : Text) (Within : Operation → Prop) (s : Session) : Prop :=
  ∀ op ∈ s.answerOperations name, Within op

/-- What leads from one session to another is a run of some of the operations. -/
def IsRun (name : Text) (Within : Operation → Prop) (s s' : Session) : Prop :=
  ∀ sc, s.HasScene name sc → s.AnswersWithin name Within →
    ∃ ops : List Operation, (∀ op ∈ ops, Within op) ∧ s'.HasScene name (sc.run ops)
      ∧ s'.AnswersWithin name Within

variable {name : Text} {Within : Operation → Prop}

namespace IsRun

theorem trans {a b c : Session} (hab : IsRun name Within a b) (hbc : IsRun name Within b c) :
    IsRun name Within a c := by
  intro sc hscene hanswers
  obtain ⟨ops, hops, hscene', hanswers'⟩ := hab sc hscene hanswers
  obtain ⟨rest, hrest, hscene'', hanswers''⟩ := hbc _ hscene' hanswers'
  refine ⟨ops ++ rest, List.forall_mem_append.2 ⟨hops, hrest⟩, ?_, hanswers''⟩
  rw [Scene.run_append]
  exact hscene''

/-- Nothing happened to the manager, the host and the observers. -/
theorem of_eq {s s' : Session} (hmanagers : s'.managers = s.managers) (hhost : s'.host = s.host)
    (hobservers : s'.observers = s.observers) : IsRun name Within s s' := by
  intro sc hscene hanswers
  refine ⟨[], by simp, ⟨hmanagers.trans hscene.managers, hhost.trans hscene.host⟩, ?_⟩
  unfold AnswersWithin answerOperations
  rw [hobservers]
  exact hanswers

theorem refl (s : Session) : IsRun name Within s s := of_eq rfl rfl rfl

/-- One operation happened. -/
theorem single {s s' : Session} {op : Operation} (hop : Within op)
    (hscene : ∀ sc, s.HasScene name sc → s'.HasScene name (sc.after op))
    (hanswers : s.AnswersWithin name Within → s'.AnswersWithin name Within) :
    IsRun name Within s s' :=
  fun sc hsc hw => ⟨[op], List.forall_mem_singleton.2 hop, hscene sc hsc, hanswers hw⟩

end IsRun

theorem answersWithin_iff {s : Session} : s.AnswersWithin name Within ↔
    ∀ entry ∈ s.observers, ∀ answer ∈ entry.2, ∀ op ∈ Action.operationsIn name answer,
      Within op := by
  simp only [AnswersWithin, answerOperations, List.mem_flatMap]
  exact ⟨fun h entry hentry answer hanswer op hop => h op ⟨entry, hentry, answer, hanswer, hop⟩,
    fun h op ⟨entry, hentry, answer, hanswer, hop⟩ => h entry hentry answer hanswer op hop⟩

/-- The only manager is known by its name. -/
theorem HasScene.manager?_eq {s : Session} {sc : Scene} (h : s.HasScene name sc) (other : Text) :
    s.manager? other = if name = other then some sc.manager else none := by
  unfold manager?
  by_cases hname : name = other <;> simp [h.managers, hname]

theorem HasScene.unique {s : Session} {sc sc' : Scene} (h : s.HasScene name sc)
    (h' : s.HasScene name sc') : sc' = sc := by
  obtain ⟨m, host⟩ := sc
  obtain ⟨m', host'⟩ := sc'
  obtain rfl : m' = m := by simpa using h'.managers.symm.trans h.managers
  obtain rfl : host' = host := h'.host.symm.trans h.host
  rfl

theorem HasScene.withManager {s : Session} {sc : Scene} (h : s.HasScene name sc) (m : Manager) :
    (s.withManager name m).HasScene name ⟨m, sc.host⟩ :=
  ⟨by simp [Session.withManager, h.managers], h.host⟩

theorem HasScene.moveOn {s : Session} {sc : Scene} (h : s.HasScene name sc)
    (replaced : List Settings.Place) (m : Manager) :
    (s.moveOn name replaced m).HasScene name ⟨m, sc.host⟩ :=
  ⟨(h.withManager m).managers, h.host⟩

theorem HasScene.introduce {s : Session} {sc : Scene} (h : s.HasScene name sc) (observer : Text)
    (answer : List Action) : (s.introduce observer answer).HasScene name sc := by
  unfold Session.introduce
  split
  · exact h
  · exact ⟨h.managers, h.host⟩

/-- An observer may be made known with an answer that asks for nothing else. -/
theorem answersWithin_introduce {s : Session} (observer : Text) {answer : List Action}
    (h : s.AnswersWithin name Within) (hw : ∀ op ∈ Action.operationsIn name answer, Within op) :
    (s.introduce observer answer).AnswersWithin name Within := by
  rw [answersWithin_iff] at h ⊢
  unfold introduce
  split
  · exact h
  · intro entry hentry
    obtain hentry | rfl := by simpa using hentry
    · exact h entry hentry
    · simpa using hw

/-- The answer that is taken from an observer was left with it. -/
theorem takeAnswer_within {s : Session} (observer : Text) (h : s.AnswersWithin name Within) :
    (∀ op ∈ Action.operationsIn name (s.takeAnswer observer).1, Within op)
      ∧ (s.takeAnswer observer).2.AnswersWithin name Within := by
  rw [answersWithin_iff] at h ⊢
  unfold takeAnswer
  split
  · rename_i known answer rest hfind
    have hmem := List.mem_of_find?_eq_some hfind
    refine ⟨h _ hmem answer (by simp), fun entry hentry other hother => ?_⟩
    obtain ⟨old, hold, rfl⟩ := List.mem_map.1 hentry
    split at hother
    · exact h _ hmem other (by simp [hother])
    · exact h old hold other hother
  · exact ⟨by simp [Action.operationsIn], h⟩

theorem isRun_takeAnswer (s : Session) (observer : Text) :
    IsRun name Within s (s.takeAnswer observer).2 := by
  intro sc hscene hanswers
  refine ⟨[], by simp, ?_, (takeAnswer_within observer hanswers).2⟩
  unfold takeAnswer
  split
  · exact ⟨hscene.managers, hscene.host⟩
  · exact hscene

theorem isRun_hubFollows (s : Session) (key : Text) :
    IsRun name Within s (s.hubFollows key).2 := by
  unfold hubFollows
  repeat' split
  all_goals exact .of_eq rfl rfl rfl

theorem isRun_executionFollows (s : Session) (key : Text) :
    IsRun name Within s (s.executionFollows key) := by
  unfold executionFollows
  repeat' split
  all_goals exact .of_eq rfl rfl rfl

section Nested

-- What is known of the answers one level further in.
variable {perform : Action → Session → Except Failure Action.Outcome × Session}
  (hperform : ∀ (a : Action) (s : Session), (∀ op ∈ a.operations name, Within op) →
    IsRun name Within s (perform a s).2)

include hperform

theorem isRun_performAllBy : ∀ (actions : List Action) (s : Session),
    (∀ op ∈ Action.operationsIn name actions, Within op) →
    IsRun name Within s (performAllBy perform actions s).2
  | [], s, _ => .refl s
  | a :: rest, s, hw => by
    obtain ⟨ha, hrest⟩ := List.forall_mem_append.1 hw
    have hfirst := hperform a s ha
    unfold performAllBy
    split
    · rename_i failure s' heq
      rw [heq] at hfirst
      exact hfirst
    · rename_i outcome s' heq
      rw [heq] at hfirst
      exact hfirst.trans (isRun_performAllBy rest s' hrest)

theorem isRun_tellBy (key : Text) (handed : Nat) (l : Listener) (s : Session) :
    IsRun name Within s (tellBy perform key handed l s).2 := by
  cases l with
  | observer observer =>
    intro sc hscene hanswers
    have hsaid : IsRun name Within s (s.say [.observed observer key handed]) := .of_eq rfl rfl rfl
    have hanswer := (takeAnswer_within (s := s.say [.observed observer key handed]) observer
      hanswers).1
    exact ((hsaid.trans (isRun_takeAnswer _ observer)).trans
      (isRun_performAllBy hperform _ _ hanswer)) sc hscene hanswers
  | hub => exact isRun_hubFollows s key
  | execution => exact isRun_executionFollows s key

theorem isRun_tellAllBy (key : Text) (handed : Nat) : ∀ (ls : List Listener) (s : Session),
    IsRun name Within s (tellAllBy perform key handed ls s).2
  | [], s => .refl s
  | l :: rest, s => by
    have hfirst := isRun_tellBy hperform key handed l s
    unfold tellAllBy
    split
    · rename_i failure s' heq
      rw [heq] at hfirst
      exact hfirst
    · rename_i s' heq
      rw [heq] at hfirst
      exact hfirst.trans (isRun_tellAllBy key handed rest s')

/-- A setting is written, and then the listeners are told. -/
theorem isRun_setBy {s : Session} {sc : Scene} (hscene : s.HasScene name sc) (key : Text)
    (value : Value) (scope : Option Settings.Scope) (hop : Within (.set key value scope)) :
    IsRun name Within s (setBy perform s sc.manager name key value scope).2 := by
  unfold setBy
  cases hwrite : sc.manager.write key value scope with
  | error failure => exact .refl s
  | ok written =>
    cases written with
    | none => exact .refl s
    | some written =>
      dsimp only
      cases hsettle : written.settle key with
      | error failure =>
        refine .single hop (fun sc' hsc' => ?_) id
        have hafter : sc.after (.set key value scope) = ⟨written, sc.host⟩ := by
          simp only [Scene.after, Scene.act, Manager.set, hwrite, hsettle]
        rw [hscene.unique hsc', hafter]
        exact hscene.moveOn _ _
      | ok settled =>
        have hafter : sc.after (.set key value scope) = ⟨settled, sc.host⟩ := by
          simp only [Scene.after, Scene.act, Manager.set, hwrite, hsettle]
        let moved := (s.moveOn name [Manager.placeOf key scope] written).moveOn name
          (written.replacedBySettle key) settled
        have hwritten : ∀ handed, IsRun name Within s { moved with handed } := fun handed =>
          .single hop (fun sc' hsc' => by
            rw [hscene.unique hsc', hafter]
            exact ⟨((hscene.withManager written).withManager settled).managers, hscene.host⟩) id
        have htold := (hwritten (moved.handed ++ [Settings.Handed.ofSet name key value scope])).trans
          (isRun_tellAllBy hperform key moved.handed.length settled.listeners _)
        dsimp only
        split
        · rename_i failure s' heq
          rw [heq] at htold
          exact htold
        · rename_i s' heq
          rw [heq] at htold
          exact htold

theorem isRun_performOn {s : Session} {sc : Scene} (hscene : s.HasScene name sc) (a : Action)
    (hname : managerOf a = name) (hw : ∀ op ∈ a.operations name, Within op) :
    IsRun name Within s (performOn perform s sc.manager a).2 := by
  cases a with
  | loadAll manager writeBack =>
    obtain rfl : manager = name := hname
    refine .single (hw (.loadAll writeBack) (by simp [Action.operations])) (fun sc' hsc' => ?_) id
    rw [hscene.unique hsc', performOn, hscene.host]
    exact ⟨(hscene.withManager (sc.manager.loadAll sc.host writeBack).2.1).managers, rfl⟩
  | saveAll manager onlyDirty =>
    obtain rfl : manager = name := hname
    refine .single (hw (.saveAll onlyDirty) (by simp [Action.operations])) (fun sc' hsc' => ?_) id
    rw [hscene.unique hsc', performOn, hscene.host]
    exact ⟨(hscene.withManager (sc.manager.saveAll sc.host onlyDirty).2.1).managers, rfl⟩
  | set manager key value scope =>
    obtain rfl : manager = name := hname
    rw [performOn]
    cases hkey : keyText? key scope with
    | none => exact .refl s
    | some key =>
      exact isRun_setBy hperform hscene key value scope (hw _ (by simp [Action.operations, hkey]))
  | listen manager observer answer =>
    obtain rfl : manager = name := hname
    have hops : ∀ op ∈ .listen (.observer observer) :: Action.operationsIn manager answer,
        Within op := by simpa [Action.operations] using hw
    obtain ⟨hop, hanswer⟩ := List.forall_mem_cons.1 hops
    refine .single hop (fun sc' hsc' => ?_) fun hs => answersWithin_introduce observer hs hanswer
    rw [hscene.unique hsc']
    exact (hscene.introduce observer answer).withManager _
  | unlisten manager observer answer =>
    obtain rfl : manager = name := hname
    have hops : ∀ op ∈ .unlisten (.observer observer) :: Action.operationsIn manager answer,
        Within op := by simpa [Action.operations] using hw
    obtain ⟨hop, hanswer⟩ := List.forall_mem_cons.1 hops
    refine .single hop (fun sc' hsc' => ?_) fun hs => answersWithin_introduce observer hs hanswer
    rw [hscene.unique hsc']
    exact (hscene.introduce observer answer).withManager _
  | roots manager =>
    rw [performOn]
    split <;> exact .refl s
  | toolchain manager => exact .refl s
  | completion manager => exact .refl s

end Nested

theorem isRun_performTo : ∀ (depth : Nat) (a : Action) (s : Session),
    (∀ op ∈ a.operations name, Within op) → IsRun name Within s (performTo depth a s).2
  | depth, a, s, hw => by
    intro sc hscene
    unfold performTo
    rw [hscene.manager?_eq]
    by_cases hname : name = managerOf a
    · rw [if_pos hname]
      cases depth with
      | zero =>
        exact isRun_performOn (fun _ s _ => .refl s) hscene a hname.symm hw sc hscene
      | succ depth =>
        exact isRun_performOn (isRun_performTo depth) hscene a hname.symm hw sc hscene
    · rw [if_neg hname]
      exact IsRun.refl s sc hscene

/-- Performing an action, with all that listeners do in answer, is a run of operations that the
action and the answers left with the observers ask for. -/
theorem perform_isRun {s : Session} {sc : Scene} (hscene : s.HasScene name sc) (a : Action) :
    ∃ ops : List Operation, ops ⊆ a.operations name ++ s.answerOperations name
      ∧ (perform a s).2.HasScene name (sc.run ops) := by
  have hrun := @isRun_performTo name (· ∈ a.operations name ++ s.answerOperations name)
    (s.answersLeft + a.answers + 1) a s (fun op hop => List.mem_append_left _ hop)
  obtain ⟨ops, hops, hafter, -⟩ := hrun sc hscene fun op hop => List.mem_append_right _ hop
  exact ⟨ops, hops, hafter⟩

end Session

end DhrWorkbench
