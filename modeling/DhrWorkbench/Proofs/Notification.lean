import DhrWorkbench.Proofs.Reloading
import DhrWorkbench.Session.Desk
import DhrWorkbench.Session.Services

/-!
# Telling listeners

Answers nest no deeper than there are answers left, so the bound in `Session.perform` is never met:
performing an action performs the answers to it in the same way (`perform_eq`).

What happens to those who listen is told by marks, and a `Board` replays them: an announcement has
those registered at that moment wait for their calls, only the first who waits in the innermost
announcement is called, and only an announcement for which nobody waits is over. Whatever listeners
do in answer, what performing an action does to them can be replayed (`plays_perform`), with the
calls that observers heard, and a set that changes something is one announcement
(`set_tells_registered`).
-/

namespace DhrWorkbench

open Settings (Manager Listener Failure)

namespace Session

/-! ## Answers that are left -/

/-- The number of answers in a list of them, those inside others counted. -/
def answersAmong (answers : List (List Action)) : ℕ :=
  (answers.map fun answer => Action.answersIn answer + 1).sum

theorem foldl_add_eq {α : Type*} (f : α → ℕ) : ∀ (l : List α) (n : ℕ),
    l.foldl (fun n a => n + f a) n = n + (l.map f).sum
  | [], n => by simp
  | a :: rest, n => by
    rw [List.foldl_cons, foldl_add_eq f rest, List.map_cons, List.sum_cons, Nat.add_assoc]

theorem answersLeft_eq (s : Session) :
    s.answersLeft = (s.observers.map fun entry => answersAmong entry.2).sum := by
  simp only [answersLeft, Nat.add_assoc, foldl_add_eq, Nat.zero_add]
  rfl

/-- Each observer is known once, and no manager has a listener twice. -/
structure IsOrderly (s : Session) : Prop where
  observers : (s.observers.map (·.1)).Nodup
  listeners : ∀ entry ∈ s.managers, entry.2.listeners.Nodup

/-- An orderly session stays so, with at most some answers more. -/
def Keeps (added : ℕ) (s s' : Session) : Prop :=
  s.IsOrderly → s'.IsOrderly ∧ s'.answersLeft ≤ s.answersLeft + added

namespace Keeps

variable {a b c : Session} {n k : ℕ}

theorem trans (hab : Keeps n a b) (hbc : Keeps k b c) : Keeps (n + k) a c := by
  intro ha
  obtain ⟨hb, hleft⟩ := hab ha
  obtain ⟨hc, hleft'⟩ := hbc hb
  exact ⟨hc, by omega⟩

theorem refl (s : Session) : Keeps 0 s s := fun hs => ⟨hs, le_rfl⟩

/-- Nothing else matters than managers and observers. -/
theorem congr (h : Keeps n a b) (hmanagers : c.managers = b.managers)
    (hobservers : c.observers = b.observers) : Keeps n a c := by
  intro ha
  obtain ⟨hb, hleft⟩ := h ha
  refine ⟨⟨hobservers ▸ hb.observers, hmanagers ▸ hb.listeners⟩, ?_⟩
  rwa [answersLeft_eq, hobservers, ← answersLeft_eq]

theorem mono (h : Keeps n a b) (hle : n ≤ k) : Keeps k a b := fun ha =>
  ⟨(h ha).1, (h ha).2.trans (by omega)⟩

end Keeps

theorem keeps_withManager (s : Session) (name : Text) {m : Manager} (h : m.listeners.Nodup) :
    Keeps 0 s (s.withManager name m) := by
  intro hs
  refine ⟨⟨hs.observers, fun entry hentry => ?_⟩, by rw [answersLeft_eq, answersLeft_eq]; rfl⟩
  obtain ⟨old, hold, rfl⟩ := List.mem_map.1 hentry
  split_ifs
  · exact h
  · exact hs.listeners old hold

theorem IsOrderly.nodup {s : Session} (h : s.IsOrderly) {name : Text} {m : Manager}
    (hm : s.manager? name = some m) : m.listeners.Nodup := by
  obtain ⟨entry, hfind, rfl⟩ := Option.map_eq_some_iff.1 hm
  exact h.listeners entry (List.mem_of_find?_eq_some hfind)

theorem keeps_introduce (s : Session) (observer : Text) (answer : List Action) :
    Keeps (Action.answersIn answer + 1) s (s.introduce observer answer) := by
  unfold introduce
  split_ifs with hknown
  · exact (Keeps.refl s).mono (by omega)
  · intro hs
    have hnew : ∀ entry ∈ s.observers, entry.1 ≠ observer := by
      rintro entry hentry rfl
      exact hknown (List.any_eq_true.2 ⟨entry, hentry, by simp⟩)
    refine ⟨⟨?_, hs.listeners⟩, ?_⟩
    · simp only [List.map_append, List.map_cons, List.map_nil]
      rw [List.nodup_append]
      refine ⟨hs.observers, by simp, ?_⟩
      intro name hname other hother
      obtain ⟨entry, hentry, rfl⟩ := List.mem_map.1 hname
      obtain rfl : other = observer := by simpa using hother
      exact hnew entry hentry
    · rw [answersLeft_eq, answersLeft_eq]
      simp [answersAmong]

/-- Taking an answer leaves that many fewer, and the answer itself is one. -/
theorem takeAnswer_left {s : Session} (hs : s.IsOrderly) (observer : Text) :
    (s.takeAnswer observer).2.IsOrderly ∧ ((s.takeAnswer observer).1 = []
        ∧ (s.takeAnswer observer).2.answersLeft ≤ s.answersLeft
      ∨ (s.takeAnswer observer).2.answersLeft + Action.answersIn (s.takeAnswer observer).1
        < s.answersLeft) := by
  unfold takeAnswer
  split
  · rename_i known answer rest hfind
    obtain ⟨hknown, before, after, hsplit, -⟩ := List.find?_eq_some_iff_append.1 hfind
    obtain rfl : known = observer := by simpa using hknown
    have hnames := hs.observers
    rw [hsplit] at hnames
    simp only [List.map_append, List.map_cons, List.nodup_append, List.nodup_cons, List.mem_cons,
      List.mem_map, forall_eq_or_imp] at hnames
    obtain ⟨-, ⟨hafter, -⟩, hbefore⟩ := hnames
    have hsame : ∀ entries : List (Text × List (List Action)),
        (∀ entry ∈ entries, entry.1 ≠ known) →
        entries.map (fun entry => if entry.1 = known then (known, rest) else entry) = entries := by
      intro entries hne
      refine (List.map_congr_left fun entry hentry => ?_).trans (List.map_id _)
      exact if_neg (hne entry hentry)
    have hobservers :
        s.observers.map (fun entry => if entry.1 = known then (known, rest) else entry)
        = before ++ (known, rest) :: after := by
      rw [hsplit, List.map_append, List.map_cons, if_pos rfl,
        hsame before fun entry hentry => (hbefore _ ⟨entry, hentry, rfl⟩).1,
        hsame after fun entry hentry heq => hafter ⟨entry, hentry, heq⟩]
    refine ⟨⟨?_, hs.listeners⟩, .inr ?_⟩
    · have hsplit' := hs.observers
      rw [hsplit] at hsplit'
      simpa [hobservers] using hsplit'
    · rw [answersLeft_eq, answersLeft_eq]
      simp only [hobservers]
      simp only [hsplit, List.map_append, List.map_cons, List.sum_append, List.sum_cons,
        answersAmong]
      omega
  · exact ⟨hs, .inl ⟨rfl, le_rfl⟩⟩

theorem keeps_hubFollows (s : Session) (key : Text) : Keeps 0 s (s.hubFollows key).2 := by
  unfold hubFollows
  repeat' split
  all_goals exact (Keeps.refl s).congr rfl rfl

theorem keeps_executionFollows (s : Session) (key : Text) : Keeps 0 s (s.executionFollows key) := by
  unfold executionFollows
  repeat' split
  all_goals exact (Keeps.refl s).congr rfl rfl

/-- The session in which the first listener is told of a change: the manager has written the value
and has settled, and the value is handed out. -/
def announced (s : Session) (name key : Text) (value : Value) (scope : Option Settings.Scope)
    (written settled : Manager) : Session :=
  let moved := (s.moveOn name [Manager.placeOf key scope] written).moveOn name
    (written.replacedBySettle key) settled
  { moved with handed := moved.handed ++ [.ofSet name key value scope] }

section Nested

-- How answers are performed one level further in.
variable {perform : Action → Session → Except Failure Action.Outcome × Session}

/-- Setting a key writes and settles, and then the listeners of the manager are told. -/
theorem setBy_eq (perform : Action → Session → Except Failure Action.Outcome × Session)
    (s : Session) (m : Manager) (name key : Text) (value : Value) (scope : Option Settings.Scope) :
    setBy perform s m name key value scope = match m.write key value scope with
      | .error failure => (.error failure, s)
      | .ok none => (.ok (.changed false), s)
      | .ok (some written) => match written.settle key with
        | .error failure => (.error failure, s.moveOn name [Manager.placeOf key scope] written)
        | .ok settled =>
          let told := tellAllBy perform key s.handed.length m.listeners
            (s.announced name key value scope written settled)
          (told.1.map fun () => .changed true, told.2) := by
  unfold setBy
  rcases hwrite : m.write key value scope with failure | _ | written
  · rfl
  · rfl
  dsimp only
  rcases hsettle : written.settle key with failure | settled
  · rfl
  have hlisteners : settled.listeners = m.listeners :=
    (Manager.listeners_of_settle hsettle).trans (Manager.listeners_of_write hwrite)
  have hnumber : ((s.moveOn name [Manager.placeOf key scope] written).moveOn name
      (written.replacedBySettle key) settled).handed.length = s.handed.length := by
    simp [moveOn]
  dsimp only [announced]
  rw [hlisteners, hnumber]
  split
  · rename_i failure s' heq
    rw [heq]
    rfl
  · rename_i s' heq
    rw [heq]
    rfl

theorem keeps_announced (s : Session) {m written settled : Manager} {name key : Text}
    {value : Value} {scope : Option Settings.Scope} (hm : m.listeners.Nodup)
    (hwrite : m.write key value scope = .ok (some written))
    (hsettle : written.settle key = .ok settled) :
    Keeps 0 s (s.announced name key value scope written settled) := by
  have hwritten : written.listeners.Nodup := by rwa [Manager.listeners_of_write hwrite]
  have hsettled : settled.listeners.Nodup := by rwa [Manager.listeners_of_settle hsettle]
  exact ((keeps_withManager s name hwritten).trans (keeps_withManager _ name hsettled)).congr
    rfl rfl

variable (hkeeps : ∀ (a : Action) (s : Session), Keeps a.answers s (perform a s).2)

include hkeeps

theorem keeps_performAllBy : ∀ (actions : List Action) (s : Session),
    Keeps (Action.answersIn actions) s (performAllBy perform actions s).2
  | [], s => .refl s
  | a :: rest, s => by
    have hfirst := hkeeps a s
    unfold performAllBy
    split
    · rename_i failure s' heq
      rw [heq] at hfirst
      exact hfirst.mono (Nat.le_add_right _ _)
    · rename_i outcome s' heq
      rw [heq] at hfirst
      exact hfirst.trans (keeps_performAllBy rest s')

theorem keeps_tellBy (key : Text) (number : ℕ) (l : Listener) (s : Session) :
    Keeps 0 s (tellBy perform key number l s).2 := by
  rcases l with observer | _ | _
  · intro hs
    let said := s.say [.observed observer key number]
    have hsaid : said.IsOrderly := ⟨hs.observers, hs.listeners⟩
    obtain ⟨htaken, hleft⟩ := takeAnswer_left hsaid observer
    obtain ⟨hdone, hmore⟩ := keeps_performAllBy hkeeps (said.takeAnswer observer).1
      (said.takeAnswer observer).2 htaken
    refine ⟨hdone, hmore.trans ?_⟩
    change _ ≤ said.answersLeft
    rcases hleft with ⟨hnil, hle⟩ | hlt
    · rw [hnil, Action.answersIn]
      omega
    · omega
  · exact keeps_hubFollows s key
  · exact keeps_executionFollows s key

theorem keeps_tellAllBy (key : Text) (number : ℕ) : ∀ (ls : List Listener) (s : Session),
    Keeps 0 s (tellAllBy perform key number ls s).2
  | [], s => .refl s
  | l :: rest, s => by
    have hfirst := keeps_tellBy hkeeps key number l s
    unfold tellAllBy
    split
    · rename_i failure s' heq
      rw [heq] at hfirst
      exact hfirst
    · rename_i s' heq
      rw [heq] at hfirst
      exact hfirst.trans (keeps_tellAllBy key number rest s')

theorem keeps_setBy (s : Session) {m : Manager} (hm : m.listeners.Nodup) (name key : Text)
    (value : Value) (scope : Option Settings.Scope) :
    Keeps 0 s (setBy perform s m name key value scope).2 := by
  rw [setBy_eq]
  rcases hwrite : m.write key value scope with failure | _ | written
  · exact .refl s
  · exact .refl s
  dsimp only
  rcases hsettle : written.settle key with failure | settled
  · have hwritten : written.listeners.Nodup := by rwa [Manager.listeners_of_write hwrite]
    exact (keeps_withManager s name hwritten).congr rfl rfl
  · exact (keeps_announced s hm hwrite hsettle).trans (keeps_tellAllBy hkeeps _ _ _ _)

theorem keeps_performOn (s : Session) {m : Manager} (hm : m.listeners.Nodup) (a : Action) :
    Keeps a.answers s (performOn perform s m a).2 := by
  rcases a with ⟨name, writeBack⟩ | ⟨name, onlyDirty⟩ | ⟨name, key, value, scope⟩
    | ⟨name, observer, answer⟩ | ⟨name, observer, answer⟩ | name | name | name
  · have hloaded : (m.loadAll s.host writeBack).2.1.listeners.Nodup := by
      rwa [Manager.listeners_loadAll]
    exact (keeps_withManager s name hloaded).congr rfl rfl
  · have hsaved : (m.saveAll s.host onlyDirty).2.1.listeners.Nodup := by
      rwa [Manager.listeners_saveAll]
    exact (keeps_withManager s name hsaved).congr rfl rfl
  · rw [performOn]
    split
    · exact .refl s
    · exact keeps_setBy hkeeps s hm name _ value scope
  · exact (keeps_introduce s observer answer).trans
      (keeps_withManager _ name (Manager.nodup_addListener hm))
  · exact (keeps_introduce s observer answer).trans
      (keeps_withManager _ name (hm.erase _))
  · rw [performOn]
    split <;> exact .refl s
  · exact .refl s
  · exact .refl s

section Agreement

-- Two ways to perform answers that agree while fewer than `b` answers are left.
variable {other : Action → Session → Except Failure Action.Outcome × Session} {b : ℕ}
  (hagree : ∀ (a : Action) (s : Session), s.IsOrderly → s.answersLeft < b →
    perform a s = other a s)

include hagree

theorem performAllBy_congr : ∀ (actions : List Action) {s : Session}, s.IsOrderly →
    s.answersLeft + Action.answersIn actions < b →
      performAllBy perform actions s = performAllBy other actions s
  | [], _, _, _ => rfl
  | a :: rest, s, hs, hleft => by
    rw [Action.answersIn] at hleft
    obtain ⟨hs', hleft'⟩ := hkeeps a s hs
    rw [performAllBy, performAllBy, ← hagree a s hs (by omega)]
    rcases heq : perform a s with ⟨failure | outcome, s'⟩
    · rfl
    · rw [heq] at hs' hleft'
      dsimp only at hleft'
      exact performAllBy_congr rest hs' (by omega)

theorem tellBy_congr (key : Text) (number : ℕ) (l : Listener) {s : Session} (hs : s.IsOrderly)
    (hleft : s.answersLeft ≤ b) :
    tellBy perform key number l s = tellBy other key number l s := by
  rcases l with observer | _ | _
  · let said := s.say [.observed observer key number]
    have hsaid : said.IsOrderly := ⟨hs.observers, hs.listeners⟩
    change performAllBy perform (said.takeAnswer observer).1 (said.takeAnswer observer).2
      = performAllBy other (said.takeAnswer observer).1 (said.takeAnswer observer).2
    obtain ⟨htaken, ⟨hnil, -⟩ | hlt⟩ := takeAnswer_left hsaid observer
    · rw [hnil]
      rfl
    · exact performAllBy_congr hkeeps hagree _ htaken (lt_of_lt_of_le hlt hleft)
  · rfl
  · rfl

theorem tellAllBy_congr (key : Text) (number : ℕ) : ∀ (ls : List Listener) {s : Session},
    s.IsOrderly → s.answersLeft ≤ b →
      tellAllBy perform key number ls s = tellAllBy other key number ls s
  | [], _, _, _ => rfl
  | l :: rest, s, hs, hleft => by
    obtain ⟨hs', hleft'⟩ := keeps_tellBy hkeeps key number l s hs
    rw [tellAllBy, tellAllBy, ← tellBy_congr hkeeps hagree key number l hs hleft]
    rcases heq : tellBy perform key number l s with ⟨failure | _, s'⟩
    · rfl
    · rw [heq] at hs' hleft'
      dsimp only at hleft'
      exact tellAllBy_congr key number rest hs' (by omega)

theorem performOn_congr {s : Session} (hs : s.IsOrderly) {m : Manager} (hm : m.listeners.Nodup)
    (hleft : s.answersLeft ≤ b) (a : Action) :
    performOn perform s m a = performOn other s m a := by
  rcases a with _ | _ | ⟨name, key, value, scope⟩ | _ | _ | _ | _ | _
  case set =>
    rw [performOn, performOn]
    rcases keyText? key scope with _ | key
    · rfl
    simp only [setBy_eq]
    rcases hwrite : m.write key value scope with failure | _ | written
    · rfl
    · rfl
    dsimp only
    rcases hsettle : written.settle key with failure | settled
    · rfl
    have htold : Keeps 0 s (s.announced name key value scope written settled) :=
      keeps_announced s hm hwrite hsettle
    obtain ⟨hs', hleft'⟩ := htold hs
    dsimp only
    rw [tellAllBy_congr hkeeps hagree _ _ _ hs' (by omega)]
  all_goals rfl

end Agreement

end Nested

/-- How answers are performed that may nest at most `depth` deep. -/
def answering : (depth : ℕ) → Action → Session → Except Failure Action.Outcome × Session
  | 0 => fun _ s => (.ok .done, s)
  | depth + 1 => performTo depth

theorem performTo_eq (depth : ℕ) (a : Action) (s : Session) :
    performTo depth a s = match s.manager? (managerOf a) with
      | none => (.ok .done, s)
      | some m => performOn (answering depth) s m a := by
  unfold performTo
  rcases depth with _ | depth <;> rfl

theorem keeps_answering (depth : ℕ) : ∀ (a : Action) (s : Session),
    Keeps a.answers s (answering depth a s).2 := by
  induction depth with
  | zero => exact fun a s => (Keeps.refl s).mono (Nat.zero_le _)
  | succ depth ih =>
    intro a s hs
    rw [answering, performTo_eq]
    rcases hm : s.manager? (managerOf a) with _ | m
    · exact (Keeps.refl s).mono (Nat.zero_le _) hs
    · exact keeps_performOn ih s (hs.nodup hm) a hs

/-- A bound on the depth does not matter where it is not below the number of answers left. -/
theorem performTo_congr (n : ℕ) : ∀ (k : ℕ) (a : Action) {s : Session}, s.IsOrderly →
    s.answersLeft ≤ n → s.answersLeft ≤ k → performTo n a s = performTo k a s := by
  induction n with
  | zero =>
    intro k a s hs hn hk
    rw [performTo_eq, performTo_eq]
    rcases hm : s.manager? (managerOf a) with _ | m
    · rfl
    · exact performOn_congr (keeps_answering 0) (b := 0) (fun _ _ _ hlt => by omega) hs
        (hs.nodup hm) hn a
  | succ n ih =>
    intro k a s hs hn hk
    rw [performTo_eq, performTo_eq]
    rcases hm : s.manager? (managerOf a) with _ | m
    · rfl
    refine performOn_congr (keeps_answering (n + 1)) (b := s.answersLeft)
      (fun a s' hs' hlt => ?_) hs (hs.nodup hm) le_rfl a
    -- An answer is performed only where one was left, so the other bound is positive too.
    obtain ⟨k, rfl⟩ := Nat.exists_eq_succ_of_ne_zero (show k ≠ 0 by omega)
    exact ih k a hs' (by omega) (by omega)

/-- Answers are performed as actions are. -/
theorem perform_eq {s : Session} (hs : s.IsOrderly) {a : Action} {m : Manager}
    (hm : s.manager? (managerOf a) = some m) : perform a s = performOn perform s m a := by
  rw [perform, performTo_eq, hm]
  refine performOn_congr (keeps_answering _) (b := s.answersLeft) (fun a' s' hs' hlt => ?_) hs
    (hs.nodup hm) le_rfl a
  exact performTo_congr _ _ a' hs' (by omega) (by omega)

end Session

/-! ## Announcements replayed -/

/-- What happens to those who listen. -/
inductive Mark
  | join (manager : Text) (l : Listener)
  | leave (manager : Text) (l : Listener)
  /-- A change of a key is announced; the number is that of the value that is handed out. -/
  | announce (manager key : Text) (number : ℕ)
  | call (l : Listener) (key : Text) (number : ℕ)
  /-- The innermost announcement is over. -/
  | conclude

/-- An announcement under way. -/
structure Notice where
  key : Text
  number : ℕ
  /-- Those who are still to be called. -/
  waiting : List Listener

/-- Who listens, how many values were handed out, and what is under way. -/
structure Board where
  registered : Text → List Listener
  handed : ℕ
  /-- The announcements under way, the innermost first. -/
  underWay : List Notice

namespace Board

/-- The board after a mark, if the mark may stand there. -/
def after (b : Board) : Mark → Option Board
  | .join manager l =>
    let old := b.registered manager
    some { b with
      registered := Function.update b.registered manager (if l ∈ old then old else old ++ [l]) }
  | .leave manager l =>
    some { b with
      registered := Function.update b.registered manager ((b.registered manager).erase l) }
  | .announce manager key number =>
    if number = b.handed then
      some { b with
        handed := number + 1
        underWay := ⟨key, number, b.registered manager⟩ :: b.underWay }
    else none
  | .call l key number => match b.underWay with
    | ⟨k, n, next :: waiting⟩ :: outer =>
      if l = next ∧ key = k ∧ number = n then
        some { b with underWay := ⟨k, n, waiting⟩ :: outer }
      else none
    | _ => none
  | .conclude => match b.underWay with
    | ⟨_, _, []⟩ :: outer => some { b with underWay := outer }
    | _ => none

def replay : List Mark → Board → Option Board
  | [], b => some b
  | mark :: rest, b => (b.after mark).bind (replay rest)

/-- Marks that can be replayed by themselves, with nothing under way before and after. -/
def IsComplete (trace : List Mark) : Prop :=
  ∃ b b' : Board, b.underWay = [] ∧ b'.underWay = [] ∧ replay trace b = some b'

/-- The same board with more announcements under way, further out. -/
def within (outer : List Notice) (b : Board) : Board :=
  { b with underWay := b.underWay ++ outer }

variable {b b' : Board} {mark : Mark} {trace rest : List Mark}

theorem replay_nil (b : Board) : replay [] b = some b := rfl

theorem replay_cons (mark : Mark) (rest : List Mark) (b : Board) :
    replay (mark :: rest) b = (b.after mark).bind (replay rest) := rfl

theorem replay_append (trace rest : List Mark) (b : Board) :
    replay (trace ++ rest) b = (replay trace b).bind (replay rest) := by
  induction trace generalizing b with
  | nil => rfl
  | cons mark trace ih =>
    rw [List.cons_append, replay_cons, replay_cons]
    rcases b.after mark with _ | b'
    · rfl
    · exact ih b'

theorem after_within (h : b.after mark = some b') (outer : List Notice) :
    (b.within outer).after mark = some (b'.within outer) := by
  rcases b with ⟨registered, handed, underWay⟩
  rcases mark with _ | _ | _ | _ | _ <;> simp only [after] at h ⊢
  case join | leave =>
    obtain rfl := Option.some.inj h
    rfl
  case announce => grind [within]
  all_goals
    rcases underWay with _ | ⟨⟨k, n, _ | ⟨next, waiting⟩⟩, underWay⟩ <;> grind [within]

theorem replay_within (h : replay trace b = some b') (outer : List Notice) :
    replay trace (b.within outer) = some (b'.within outer) := by
  induction trace generalizing b with
  | nil =>
    obtain rfl : b = b' := by simpa [replay_nil] using h
    rfl
  | cons mark trace ih =>
    rw [replay_cons] at h ⊢
    obtain ⟨mid, hmid, hrest⟩ := Option.bind_eq_some_iff.1 h
    rw [after_within hmid outer]
    exact ih hrest

/-- Nobody comes to be registered twice. -/
theorem nodup_after (hb : ∀ manager, (b.registered manager).Nodup) (h : b.after mark = some b')
    (manager : Text) : (b'.registered manager).Nodup := by
  rcases mark with ⟨joined, l⟩ | ⟨left, l⟩ | _ | _ | _ <;> simp only [after] at h
  case join =>
    obtain rfl := Option.some.inj h
    by_cases hname : manager = joined
    · subst hname
      simp only [Function.update_self]
      split_ifs with hl
      · exact hb manager
      · exact List.nodup_append.2 ⟨hb manager, by simp, by grind⟩
    · simpa [hname] using hb manager
  case leave =>
    obtain rfl := Option.some.inj h
    by_cases hname : manager = left
    · subst hname
      simpa using (hb manager).erase l
    · simpa [hname] using hb manager
  all_goals
    have hsame : b'.registered = b.registered := by grind
    rw [hsame]
    exact hb manager

theorem nodup_replay (hb : ∀ manager, (b.registered manager).Nodup)
    (h : replay trace b = some b') : ∀ manager, (b'.registered manager).Nodup := by
  induction trace generalizing b with
  | nil =>
    obtain rfl : b = b' := by simpa [replay_nil] using h
    exact hb
  | cons mark trace ih =>
    obtain ⟨mid, hmid, hrest⟩ := Option.bind_eq_some_iff.1 h
    exact ih (nodup_after hb hmid) hrest

/-- What can be replayed can be replayed up to any point, and nobody is registered twice there. -/
theorem nodup_of_part (hb : ∀ manager, (b.registered manager).Nodup)
    (h : replay trace b = some b') (hrest : rest <+: trace) :
    ∃ mid, replay rest b = some mid ∧ ∀ manager, (mid.registered manager).Nodup := by
  obtain ⟨later, rfl⟩ := hrest
  rw [replay_append] at h
  obtain ⟨mid, hmid, -⟩ := Option.bind_eq_some_iff.1 h
  exact ⟨mid, hmid, nodup_replay hb hmid⟩

end Board

/-- A change that an observer was told of. -/
structure Heard where
  observer : Text
  key : Text
  number : ℕ

def Event.heard? : Event → Option Heard
  | .observed observer key number => some ⟨observer, key, number⟩
  | _ => none

def Mark.heard? : Mark → Option Heard
  | .call (.observer observer) key number => some ⟨observer, key, number⟩
  | _ => none

namespace Session

/-- What observers have heard so far. -/
def heard (s : Session) : List Heard := s.log.filterMap Event.heard?

def registered (s : Session) (name : Text) : List Listener :=
  ((s.manager? name).map (·.listeners)).getD []

/-- The board of a session in which nothing is under way. -/
def board (s : Session) : Board := ⟨s.registered, s.handed.length, []⟩

/-- What happened to those who listen, from one session to another: it can be replayed, and
observers heard of the calls among it. -/
def Plays (s : Session) (trace : List Mark) (s' : Session) : Prop :=
  Board.replay trace s.board = some s'.board ∧ s'.heard = s.heard ++ trace.filterMap Mark.heard?

namespace Plays

variable {a b c : Session} {trace rest : List Mark}

theorem trans (hab : Plays a trace b) (hbc : Plays b rest c) : Plays a (trace ++ rest) c := by
  refine ⟨?_, ?_⟩
  · rw [Board.replay_append, hab.1]
    exact hbc.1
  · rw [hbc.2, hab.2, List.filterMap_append, List.append_assoc]

theorem of_eq (hboard : b.board = a.board) (hheard : b.heard = a.heard) : Plays a [] b :=
  ⟨by rw [Board.replay_nil, hboard], by simp [hheard]⟩

theorem refl (s : Session) : Plays s [] s := of_eq rfl rfl

end Plays

theorem manager?_withManager {s : Session} {name : Text} {m : Manager}
    (h : s.manager? name = some m) (m' : Manager) (other : Text) :
    (s.withManager name m').manager? other
      = if name = other then some m' else s.manager? other := by
  have hnames : (fun entry : Text × Manager => decide (entry.1 = other))
      ∘ (fun entry => if entry.1 = name then (name, m') else entry)
      = fun entry => decide (entry.1 = other) := by
    funext entry
    simp only [Function.comp_apply]
    split_ifs with hname
    · rw [hname]
    · rfl
  unfold manager? withManager
  rw [List.find?_map, hnames]
  split_ifs with hname
  · subst hname
    obtain ⟨entry, hfind, -⟩ := Option.map_eq_some_iff.1 h
    have hentry : entry.1 = name := by simpa using List.find?_some hfind
    simp [hfind, hentry]
  · rcases hfind : s.managers.find? (fun entry => decide (entry.1 = other)) with _ | entry
    · rw [hfind]
      rfl
    · have hentry : entry.1 = other := by simpa using List.find?_some hfind
      simp [hfind, hentry, Ne.symm hname]

theorem registered_withManager {s : Session} {name : Text} {m : Manager}
    (h : s.manager? name = some m) (m' : Manager) :
    (s.withManager name m').registered = Function.update s.registered name m'.listeners := by
  funext other
  unfold registered
  rw [manager?_withManager h, Function.update_apply]
  split_ifs with hname hother hother
  · rfl
  · exact absurd hname.symm hother
  · exact absurd hother.symm hname
  · rfl

theorem registered_eq {s : Session} {name : Text} {m : Manager} (h : s.manager? name = some m) :
    s.registered name = m.listeners := by
  simp [registered, h]

/-- A manager may be put in the place of one with the same listeners. -/
theorem registered_withManager_self {s : Session} {name : Text} {m m' : Manager}
    (h : s.manager? name = some m) (hm' : m'.listeners = m.listeners) :
    (s.withManager name m').registered = s.registered := by
  rw [registered_withManager h, hm', ← registered_eq h, Function.update_eq_self]

theorem registered_announced {s : Session} {m written settled : Manager} {name key : Text}
    {value : Value} {scope : Option Settings.Scope} (h : s.manager? name = some m)
    (hwrite : m.write key value scope = .ok (some written))
    (hsettle : written.settle key = .ok settled) :
    (s.announced name key value scope written settled).registered = s.registered := by
  have hwritten : (s.withManager name written).manager? name = some written := by
    rw [manager?_withManager h, if_pos rfl]
  change ((s.withManager name written).withManager name settled).registered = s.registered
  rw [registered_withManager_self hwritten (Manager.listeners_of_settle hsettle),
    registered_withManager_self h (Manager.listeners_of_write hwrite)]

theorem manager?_announced {s : Session} {m written settled : Manager} {name key : Text}
    {value : Value} {scope : Option Settings.Scope} (h : s.manager? name = some m) :
    (s.announced name key value scope written settled).manager? name = some settled := by
  have hwritten : (s.withManager name written).manager? name = some written := by
    rw [manager?_withManager h, if_pos rfl]
  exact (manager?_withManager hwritten settled name).trans (if_pos rfl)

theorem board_announced {s : Session} {m written settled : Manager} {name key : Text}
    {value : Value} {scope : Option Settings.Scope} (h : s.manager? name = some m)
    (hwrite : m.write key value scope = .ok (some written))
    (hsettle : written.settle key = .ok settled) :
    (s.announced name key value scope written settled).board
      = ⟨s.registered, s.handed.length + 1, []⟩ := by
  rw [board, registered_announced h hwrite hsettle]
  simp [announced, moveOn]

/-- Where a manager keeps its listeners and nothing is said, nothing happens to listeners. -/
theorem plays_nil {s s' : Session} {m m' : Manager} {name : Text} (h : s.manager? name = some m)
    (hlisteners : m'.listeners = m.listeners)
    (hmanagers : s'.managers = (s.withManager name m').managers)
    (hhanded : s'.handed.length = s.handed.length) (hlog : s'.log = s.log) : Plays s [] s' := by
  have hregistered : s'.registered = s.registered := by
    rw [← registered_withManager_self h hlisteners]
    unfold registered manager?
    rw [hmanagers]
  exact .of_eq (by rw [board, board, hregistered, hhanded]) (by rw [heard, heard, hlog])

/-- Where someone joins or leaves, nothing else happens to those who listen. -/
theorem plays_withManager {s : Session} {m m' : Manager} {name : Text} {mark : Mark}
    (h : s.manager? name = some m) (hmark : s.board.after mark
      = some { s.board with registered := Function.update s.registered name m'.listeners })
    (hheard : mark.heard? = none) (observer : Text) (answer : List Action) :
    Plays s [mark] ((s.introduce observer answer).withManager name m') := by
  obtain ⟨observers, hknown⟩ : ∃ observers, s.introduce observer answer = { s with observers } := by
    unfold introduce
    split
    · exact ⟨_, rfl⟩
    · exact ⟨_, rfl⟩
  rw [hknown]
  refine ⟨?_, by simp [hheard]; rfl⟩
  rw [Board.replay_cons, hmark, Option.bind_some, Board.replay_nil, ← registered_withManager h]
  rfl

theorem heard_say {s : Session} {events : List Event} (h : ∀ e ∈ events, e.heard? = none) :
    (s.say events).heard = s.heard := by
  unfold heard say
  rw [List.filterMap_append, List.filterMap_eq_nil_iff.2 h, List.append_nil]

/-- What providers are told is not what observers hear. -/
theorem heard?_configureAll (value : Value) : ∀ (names : List Text) (hub : Hub),
    ∀ e ∈ (Hub.configureAll value names hub).2, e.heard? = none
  | [], _, e, he => by simp [Hub.configureAll] at he
  | name :: rest, hub, e, he => by
    rw [Hub.configureAll] at he
    obtain he | he := List.mem_append.1 he
    · unfold Hub.configureOne at he
      split at he <;> simp at he
      rw [he]
      rfl
    · exact heard?_configureAll value rest _ e he

theorem plays_hubFollows (s : Session) (key : Text) : Plays s [] (s.hubFollows key).2 := by
  unfold hubFollows
  rcases s.hub.bound.bind s.manager? with _ | m
  · exact .refl s
  dsimp only
  split_ifs
  · rcases m.completionSettings with failure | settings
    · exact .refl s
    · exact .of_eq rfl (heard_say (heard?_configureAll settings _ _))
  · exact .refl s

theorem plays_executionFollows (s : Session) (key : Text) :
    Plays s [] (s.executionFollows key) := by
  unfold executionFollows
  rcases s.execution with _ | e
  · exact .refl s
  dsimp only
  split_ifs
  · exact .of_eq rfl (heard_say (by simp [Event.heard?]))
  · exact .refl s

theorem plays_takeAnswer (s : Session) (observer : Text) :
    Plays s [] (s.takeAnswer observer).2 := by
  unfold takeAnswer
  split <;> exact .of_eq rfl rfl

/-- The calls of listeners in turn, each with what it sets off. -/
def calls (key : Text) (number : ℕ) (ls : List Listener) (within : List (List Mark)) : List Mark :=
  (ls.zip within).flatMap fun (l, trace) => .call l key number :: trace

/-- The marks of one announcement. -/
def announcement (name key : Text) (number : ℕ) (ls : List Listener) (within : List (List Mark)) :
    List Mark :=
  .announce name key number :: calls key number ls within ++ [.conclude]

section Nested

-- What is known of the answers one level further in.
variable {perform : Action → Session → Except Failure Action.Outcome × Session}
  (hplays : ∀ {a : Action} {s s' : Session} {outcome : Action.Outcome},
    perform a s = (.ok outcome, s') → ∃ trace, Plays s trace s')

include hplays

theorem plays_performAllBy : ∀ {actions : List Action} {s s' : Session},
    performAllBy perform actions s = (.ok (), s') → ∃ trace, Plays s trace s'
  | [], s, s', h => by
    obtain rfl : s = s' := by simpa [performAllBy] using h
    exact ⟨[], .refl s⟩
  | a :: rest, s, s', h => by
    rw [performAllBy] at h
    rcases heq : perform a s with ⟨failure | outcome, mid⟩
    · simp [heq] at h
    rw [heq] at h
    obtain ⟨trace, hfirst⟩ := hplays heq
    obtain ⟨later, hrest⟩ := plays_performAllBy h
    exact ⟨trace ++ later, hfirst.trans hrest⟩

/-- Telling a listener is a call, and after it what the listener sets off. -/
theorem plays_tellBy {key : Text} {number : ℕ} {l : Listener} {s s' : Session}
    (h : tellBy perform key number l s = (.ok (), s')) :
    ∃ trace, Board.replay trace s.board = some s'.board
      ∧ s'.heard = s.heard ++ (Mark.call l key number :: trace).filterMap Mark.heard? := by
  rcases l with observer | _ | _
  · let said := s.say [.observed observer key number]
    obtain ⟨trace, hdone⟩ := plays_performAllBy hplays h
    obtain ⟨hreplay, hheard⟩ := (plays_takeAnswer said observer).trans hdone
    refine ⟨trace, hreplay, hheard.trans ?_⟩
    have hsaid : said.heard = s.heard ++ [⟨observer, key, number⟩] := by
      simp [said, heard, say, Event.heard?]
    simp [hsaid, Mark.heard?]
  · obtain ⟨hreplay, hheard⟩ := plays_hubFollows s key
    rw [show (s.hubFollows key).2 = s' from congrArg Prod.snd h] at hreplay hheard
    exact ⟨[], hreplay, hheard⟩
  · obtain ⟨hreplay, hheard⟩ := plays_executionFollows s key
    rw [show s.executionFollows key = s' from congrArg Prod.snd h] at hreplay hheard
    exact ⟨[], hreplay, hheard⟩

/-- Listeners are told in turn, and what one sets off is complete before the next is called. -/
theorem plays_tellAllBy {key : Text} {number : ℕ} : ∀ {ls : List Listener} {s s' : Session},
    tellAllBy perform key number ls s = (.ok (), s') →
    ∃ within : List (List Mark), within.length = ls.length
      ∧ (∀ trace ∈ within, Board.IsComplete trace)
      ∧ Board.replay (calls key number ls within) (s.board.within [⟨key, number, ls⟩])
        = some (s'.board.within [⟨key, number, []⟩])
      ∧ s'.heard = s.heard ++ (calls key number ls within).filterMap Mark.heard?
  | [], s, s', h => by
    obtain rfl : s = s' := by simpa [tellAllBy] using h
    exact ⟨[], rfl, by simp, rfl, by simp [calls]⟩
  | l :: rest, s, s', h => by
    rw [tellAllBy] at h
    rcases heq : tellBy perform key number l s with ⟨failure | _, mid⟩
    · simp [heq] at h
    rw [heq] at h
    obtain ⟨trace, hfirst, hheard⟩ := plays_tellBy hplays heq
    obtain ⟨within, hlength, hcomplete, hrest, hlater⟩ := plays_tellAllBy h
    refine ⟨trace :: within, by simp [hlength], ?_, ?_, ?_⟩
    · exact List.forall_mem_cons.2 ⟨⟨s.board, mid.board, rfl, rfl, hfirst⟩, hcomplete⟩
    · have hcall : (s.board.within [⟨key, number, l :: rest⟩]).after (.call l key number)
          = some (s.board.within [⟨key, number, rest⟩]) := by
        simp [Board.after, Board.within, board]
      change (Board.after _ (.call l key number)).bind
        (Board.replay (trace ++ calls key number rest within)) = _
      rw [hcall, Option.bind_some, Board.replay_append,
        Board.replay_within hfirst [⟨key, number, rest⟩]]
      exact hrest
    · rw [hlater, hheard, List.append_assoc, ← List.filterMap_append]
      rfl

/-- Setting a key leaves the session as it is, or it is one announcement to those who are
registered, after the manager has settled. -/
theorem plays_setBy {s s' : Session} {name key : Text} {value : Value}
    {scope : Option Settings.Scope} {m : Manager} {outcome : Action.Outcome}
    (hm : s.manager? name = some m)
    (h : setBy perform s m name key value scope = (.ok outcome, s')) :
    (outcome = .changed false ∧ s' = s)
    ∨ outcome = .changed true ∧ ∃ written settled within,
      m.write key value scope = .ok (some written) ∧ written.settle key = .ok settled
      ∧ tellAllBy perform key s.handed.length m.listeners
        (s.announced name key value scope written settled) = (.ok (), s')
      ∧ within.length = m.listeners.length ∧ (∀ trace ∈ within, Board.IsComplete trace)
      ∧ Plays s (announcement name key s.handed.length m.listeners within) s' := by
  rw [setBy_eq] at h
  rcases hwrite : m.write key value scope with failure | _ | written <;> simp only [hwrite] at h
  · simp at h
  · simp only [Prod.mk.injEq, Except.ok.injEq] at h
    exact .inl ⟨h.1.symm, h.2.symm⟩
  rcases hsettle : written.settle key with failure | settled <;> simp only [hsettle] at h
  · simp at h
  rcases htold : tellAllBy perform key s.handed.length m.listeners
    (s.announced name key value scope written settled) with ⟨failure | _, told⟩ <;>
    simp only [htold, Except.map, Prod.mk.injEq, reduceCtorEq, false_and, Except.ok.injEq] at h
  obtain ⟨rfl, rfl⟩ := h
  obtain ⟨within, hlength, hcomplete, hreplay, hheard⟩ := plays_tellAllBy hplays htold
  refine .inr ⟨rfl, written, settled, within, rfl, hsettle, htold, hlength, hcomplete, ?_, ?_⟩
  · have hboard : s.board.after (.announce name key s.handed.length)
        = some ((s.announced name key value scope written settled).board.within
          [⟨key, s.handed.length, m.listeners⟩]) := by
      rw [board_announced hm hwrite hsettle]
      simp [Board.after, board, Board.within, registered_eq hm]
    change (Board.after _ (.announce name key s.handed.length)).bind
      (Board.replay (calls key s.handed.length m.listeners within ++ [Mark.conclude])) = _
    rw [hboard, Option.bind_some, Board.replay_append, hreplay]
    rfl
  · have hsame : (s.announced name key value scope written settled).heard = s.heard := rfl
    simp [hheard, hsame, announcement, List.filterMap_cons, Mark.heard?]

theorem plays_performOn {s s' : Session} {m : Manager} {a : Action} {outcome : Action.Outcome}
    (hm : s.manager? (managerOf a) = some m)
    (h : performOn perform s m a = (.ok outcome, s')) : ∃ trace, Plays s trace s' := by
  rcases a with ⟨name, writeBack⟩ | ⟨name, onlyDirty⟩ | ⟨name, key, value, scope⟩
    | ⟨name, observer, answer⟩ | ⟨name, observer, answer⟩ | name | name | name <;>
    simp only [managerOf] at hm
  case loadAll =>
    obtain rfl := congrArg Prod.snd h
    exact ⟨[], plays_nil hm (m.listeners_loadAll s.host writeBack) rfl
      (by simp [performOn, moveOn]) rfl⟩
  case saveAll =>
    obtain rfl := congrArg Prod.snd h
    exact ⟨[], plays_nil hm (m.listeners_saveAll s.host onlyDirty) rfl rfl rfl⟩
  case set =>
    rw [performOn] at h
    rcases hkey : keyText? key scope with _ | key <;> simp only [hkey] at h
    · simp at h
    obtain ⟨-, rfl⟩ | ⟨-, written, settled, within, -, -, -, -, -, htrace⟩ :=
      plays_setBy hplays hm h
    · exact ⟨[], .refl s'⟩
    · exact ⟨_, htrace⟩
  case listen =>
    obtain rfl := congrArg Prod.snd h
    refine ⟨[.join name (.observer observer)], plays_withManager hm ?_ rfl observer answer⟩
    simp [Board.after, board, registered_eq hm, Manager.listeners_addListener]
  case unlisten =>
    obtain rfl := congrArg Prod.snd h
    refine ⟨[.leave name (.observer observer)], plays_withManager hm ?_ rfl observer answer⟩
    simp [Board.after, board, registered_eq hm, Manager.removeListener]
  case roots =>
    rw [performOn] at h
    split at h
    · obtain rfl := congrArg Prod.snd h
      exact ⟨[], .refl s⟩
    · simp at h
  all_goals
    obtain rfl := congrArg Prod.snd h
    exact ⟨[], .refl s⟩

end Nested

theorem plays_answering (depth : ℕ) : ∀ {a : Action} {s s' : Session} {outcome : Action.Outcome},
    answering depth a s = (.ok outcome, s') → ∃ trace, Plays s trace s' := by
  induction depth with
  | zero =>
    intro a s s' outcome h
    obtain rfl := congrArg Prod.snd h
    exact ⟨[], .refl s⟩
  | succ depth ih =>
    intro a s s' outcome h
    rw [answering, performTo_eq] at h
    rcases hm : s.manager? (managerOf a) with _ | m <;> simp only [hm] at h
    · obtain rfl := congrArg Prod.snd h
      exact ⟨[], .refl s⟩
    · exact plays_performOn ih hm h

/-- Whatever listeners do in answer to an action that completes can be replayed. -/
theorem plays_perform {a : Action} {s s' : Session} {outcome : Action.Outcome}
    (h : perform a s = (.ok outcome, s')) : ∃ trace, Plays s trace s' :=
  plays_answering (s.answersLeft + a.answers + 2) h

/-! ## Sessions as they come about -/

theorem keeps_unbind (s : Session) : Keeps 0 s s.unbind := by
  unfold unbind
  rcases s.hub.bound with _ | name
  · exact .refl s
  dsimp only
  rcases hm : s.manager? name with _ | m
  · exact (Keeps.refl s).congr rfl rfl
  · intro hs
    have hleft : (m.removeListener .hub).listeners.Nodup := (hs.nodup hm).erase _
    exact (keeps_withManager s name hleft).congr rfl rfl hs

theorem keeps_bind (s : Session) (name : Text) : Keeps 0 s (s.bind name).2 := by
  unfold bind
  rcases hm : s.unbind.manager? name with _ | m
  · exact .refl s
  intro hs
  have hjoined : (m.addListener .hub).listeners.Nodup :=
    Manager.nodup_addListener ((keeps_unbind s hs).1.nodup hm)
  have hbound := (keeps_unbind s).trans (keeps_withManager s.unbind name hjoined)
  dsimp only
  rcases m.completionSettings with failure | settings
  · exact hbound.congr rfl rfl hs
  · exact hbound.congr rfl rfl hs

theorem keeps_openDesk (s : Session) (e : Execution) : Keeps 0 s (s.openDesk e) := by
  unfold openDesk
  rcases hm : s.manager? e.manager with _ | m
  · exact (Keeps.refl s).congr rfl rfl
  · intro hs
    have hjoined := Manager.nodup_addListener (l := .execution) (hs.nodup hm)
    exact (keeps_withManager s e.manager hjoined).congr rfl rfl hs

theorem keeps_closeDesk (s : Session) : Keeps 0 s s.closeDesk := by
  unfold closeDesk
  rcases s.execution with _ | e
  · exact .refl s
  dsimp only
  rcases hm : s.manager? e.manager with _ | m
  · exact (Keeps.refl s).congr rfl rfl
  · intro hs
    have hleft : (m.removeListener .execution).listeners.Nodup := (hs.nodup hm).erase _
    exact (keeps_withManager s e.manager hleft).congr rfl rfl hs

/-- A session that came about by what can be done in it, from one in which observers have left any
answers and nobody listens. -/
inductive Reached : Session → Prop
  | start (host : Host) {observers : List (Text × List (List Action))}
    (h : (observers.map (·.1)).Nodup) : Reached { onHost host with observers }
  | add {s : Session} (name : Text) {m : Manager} (hm : m.listeners = []) (h : Reached s) :
    Reached (s.addManager name m)
  | act {s : Session} (a : Action) (h : Reached s) : Reached (s.perform a).2
  | bind {s : Session} (name : Text) (h : Reached s) : Reached (s.bind name).2
  | unbind {s : Session} (h : Reached s) : Reached s.unbind
  | openDesk {s : Session} (e : Execution) (h : Reached s) : Reached (s.openDesk e)
  | closeDesk {s : Session} (h : Reached s) : Reached s.closeDesk
  /-- Whatever has to do with neither managers nor observers. -/
  | other {s s' : Session} (hmanagers : s'.managers = s.managers)
    (hobservers : s'.observers = s.observers) (h : Reached s) : Reached s'

theorem Reached.isOrderly {s : Session} (h : s.Reached) : s.IsOrderly := by
  induction h with
  | start host h => exact ⟨h, by simp [onHost]⟩
  | add name hm _ ih =>
    refine ⟨ih.observers, fun entry hentry => ?_⟩
    obtain hentry | rfl := by simpa [addManager] using hentry
    · exact ih.listeners entry hentry
    · simp [hm]
  | act a _ ih => exact (keeps_answering (_ + 1) a _ ih).1
  | bind name _ ih => exact (keeps_bind _ name ih).1
  | unbind _ ih => exact (keeps_unbind _ ih).1
  | openDesk e _ ih => exact (keeps_openDesk _ e ih).1
  | closeDesk _ ih => exact (keeps_closeDesk _ ih).1
  | other hmanagers hobservers _ ih => exact ((Keeps.refl _).congr hmanagers hobservers ih).1

theorem IsOrderly.nodup_registered {s : Session} (h : s.IsOrderly) (name : Text) :
    (s.registered name).Nodup := by
  rcases hm : s.manager? name with _ | m
  · simp [registered, hm]
  · rw [registered_eq hm]
    exact h.nodup hm

/-- After a key of the section on the toolchain was written and settled, the section and the roots
of the workspace have their form. -/
theorem isNormal_of_settle {m settled : Manager} {key : Text} (h : m.settle key = .ok settled)
    (hkey : Settings.isUnder "dhrlang" key) : ∃ fields config roots,
    Fields.get? "dhrlang" settled.project.data = some (.object fields)
    ∧ Settings.IsNormal fields config
    ∧ Fields.get? "workspace_roots" settled.project.data = some (.list roots) := by
  rw [Manager.settle, if_pos hkey] at h
  obtain ⟨-, rfl⟩ := Manager.normalise_eq h
  obtain ⟨config, hnormal⟩ := Settings.isNormal_normalSection
    (Fields.get? "dhrlang" m.project.data)
  obtain ⟨roots, -, hdata⟩ := Settings.data_normalise m.project
  refine ⟨_, config, roots, Settings.get?_normalise m.project, hnormal, ?_⟩
  simp [hdata, Fields.get?_insert]

/-- A set that changes nothing calls nobody. Any other calls those who are registered when the
manager has settled, each once and in order, with the key and the value; what a listener sets off
is complete before the next is called, and so on further in. Nobody is ever registered twice. -/
theorem set_tells_registered {s s' : Session} (hs : s.Reached) {name key : Text} {value : Value}
    {scope : Option Settings.Scope} {changed : Bool}
    (hset : s.perform (.set name (.str key) value scope) = (.ok (.changed changed), s')) :
    (∀ manager, (s.registered manager).Nodup)
    ∧ (changed = false → s' = s)
    ∧ (changed = true → ∃ (m settled : Manager) (began : Session) (within : List (List Mark)),
      s.manager? name = some m ∧ m.set key value scope = (.ok true, settled)
      ∧ (Settings.isUnder "dhrlang" key → ∃ fields config roots,
        Fields.get? "dhrlang" settled.project.data = some (.object fields)
        ∧ Settings.IsNormal fields config
        ∧ Fields.get? "workspace_roots" settled.project.data = some (.list roots))
      ∧ began.manager? name = some settled ∧ began.registered = s.registered ∧ began.log = s.log
      ∧ began.handed[s.handed.length]? = some (.ofSet name key value scope)
      ∧ tellAllBy perform key s.handed.length (began.registered name) began = (.ok (), s')
      ∧ within.length = (began.registered name).length
      ∧ (∀ trace ∈ within, Board.IsComplete trace)
      ∧ Plays s (announcement name key s.handed.length (began.registered name) within) s'
      ∧ ∀ part, part <+: announcement name key s.handed.length (began.registered name) within →
        ∃ b, Board.replay part s.board = some b
          ∧ ∀ manager, (b.registered manager).Nodup) := by
  have horderly := hs.isOrderly
  have hnodup := horderly.nodup_registered
  obtain ⟨m, hm⟩ : ∃ m, s.manager? name = some m := by
    rcases hm : s.manager? name with _ | m
    · rw [perform, performTo_eq] at hset
      simp [managerOf, hm] at hset
    · exact ⟨m, rfl⟩
  have hkey : keyText? (.str key) scope = some key := by rcases scope <;> rfl
  have hmanager : s.manager? (managerOf (.set name (.str key) value scope)) = some m := hm
  rw [perform_eq horderly hmanager, performOn, hkey] at hset
  obtain ⟨hchanged, rfl⟩ | ⟨hchanged, written, settled, within, hwrite, hsettle, htold, hlength,
    hcomplete, hplays⟩ := plays_setBy plays_perform hm hset
  · refine ⟨hnodup, fun _ => rfl, fun htrue => ?_⟩
    simp [htrue] at hchanged
  · refine ⟨hnodup, fun hfalse => ?_, fun _ => ?_⟩
    · simp [hfalse] at hchanged
    have hregistered := registered_announced hm hwrite hsettle
    refine ⟨m, settled, s.announced name key value scope written settled, within, hm,
      by simp [Manager.set, hwrite, hsettle], isNormal_of_settle hsettle,
      manager?_announced hm, hregistered, rfl, ?_, ?_⟩
    · simp [announced, moveOn]
    rw [hregistered, registered_eq hm]
    exact ⟨htold, hlength, hcomplete, hplays, fun part hpart =>
      Board.nodup_of_part hnodup hplays.1 hpart⟩

/-- A session with two observers. When told of a change the first time, the first sets another key
and then takes the second off the list. -/
def chatty : Session :=
  let s := (onHost Settings.roughHost).addManager "m" Settings.plainManager
  let s := (s.perform (.listen "m" "a" [.set "m" (.str "notes.b") (.bool true) none,
    .unlisten "m" "b" []])).2
  (s.perform (.listen "m" "b" [])).2

theorem reached_chatty : chatty.Reached :=
  .act _ (.act _ (.add "m" rfl (@Reached.start Settings.roughHost [] (by simp))))

/-- The second observer hears of the inner change before the outer one, and it is called although
it was taken off the list in between. -/
theorem chatty_set_told : ∃ (s' : Session) (within : List (List Mark)),
    chatty.perform (.set "m" (.str "notes.a") (.bool true) none) = (.ok (.changed true), s')
    ∧ s'.heard = [⟨"a", "notes.a", 0⟩, ⟨"a", "notes.b", 1⟩, ⟨"b", "notes.b", 1⟩,
      ⟨"b", "notes.a", 0⟩]
    ∧ (∀ trace ∈ within, Board.IsComplete trace)
    ∧ Plays chatty (announcement "m" "notes.a" 0 [.observer "a", .observer "b"] within) s' := by
  have hset : chatty.perform (.set "m" (.str "notes.a") (.bool true) none)
      = (.ok (.changed true),
        (chatty.perform (.set "m" (.str "notes.a") (.bool true) none)).2) := rfl
  obtain ⟨-, -, hchanged⟩ := set_tells_registered reached_chatty hset
  obtain ⟨m, settled, began, within, -, -, -, -, hregistered, -, -, -, -, hcomplete, hplays, -⟩ :=
    hchanged rfl
  rw [hregistered] at hplays
  exact ⟨_, within, hset, rfl, hcomplete, hplays⟩

end Session

end DhrWorkbench
