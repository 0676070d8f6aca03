import DhrWorkbench.Invocation

/-!
# Pending checks

Checks run one at a time, in the order in which they were submitted. Each that ends leaves a
delivery, also one that was cancelled before it began, and the deliveries are handled later in the
order in which they came. `Checks.pending` counts the checks whose delivery was not handled yet.

The desk, the worker and whoever cancels a check go on at the same time. Each definition here is a
step in which nobody comes between. The desk submits a check, counts it and asks to be told of its
end; a check may have ended by then. Whoever ends a check tells of it, unless the desk has not asked
yet: then the desk finds out when it asks.
-/

namespace DhrWorkbench

/-- What a check leaves behind. -/
inductive Delivery
  /-- The check ran; without a toolchain it has no result. -/
  | ran (found : Option (Toolchain × Invocation.Result))
  /-- The check broke off. -/
  | broken (reason : Text)
  | cancelled

/-- How far a check is. -/
inductive Check.Phase
  | waiting
  | running
  | ended (delivery : Delivery)

/-- A check that was submitted. -/
structure Check where
  target : Text
  phase : Check.Phase
  /-- Whether the desk has asked to be told of its end. -/
  watched : Bool
  /-- Whether the desk was told of its end. -/
  told : Bool

namespace Check

def submitted (target : Text) : Check := ⟨target, .waiting, false, false⟩

def isWaiting (c : Check) : Bool :=
  match c.phase with
  | .waiting => true
  | _ => false

def isRunning (c : Check) : Bool :=
  match c.phase with
  | .running => true
  | _ => false

def delivery? (c : Check) : Option Delivery :=
  match c.phase with
  | .ended delivery => some delivery
  | _ => none

/-- Cancels a check that has not begun. -/
def cancel (c : Check) : Check := if c.isWaiting then { c with phase := .ended .cancelled } else c

end Check

/-- What the desk is at. -/
inductive Checks.Desk
  | idle
  /-- It has submitted a check and is yet to count it. -/
  | counting (check : Nat)
  /-- It has counted a check and is yet to ask for its end. -/
  | watching (check : Nat)
  /-- It has taken a delivery and is yet to handle it. -/
  | handling (check : Nat) (delivery : Delivery)

/-- The checks that were submitted, numbered in their order, and what waits to be handled. -/
structure Checks where
  all : List Check
  /-- The check that the worker is at, until it has told of its end. -/
  worker : Option Nat
  desk : Checks.Desk
  deliveries : List (Nat × Delivery)
  pending : Nat
  /-- No further check is taken. -/
  closed : Bool

namespace Checks

def none : Checks := ⟨[], Option.none, .idle, [], 0, false⟩

/-- Submits a check of a file, unless no further one is taken. -/
def submit? (c : Checks) (target : Text) : Option Checks :=
  if c.closed then Option.none
  else some { c with all := c.all ++ [.submitted target], desk := .counting c.all.length }

/-- Counts the check that was submitted. -/
def count (c : Checks) : Checks :=
  match c.desk with
  | .counting i => { c with pending := c.pending + 1, desk := .watching i }
  | _ => c

/-- Queues the delivery of a check. -/
def queue (c : Checks) (i : Nat) (delivery : Delivery) : Checks :=
  { c with
    all := c.all.modify i fun check => { check with told := true }
    deliveries := c.deliveries ++ [(i, delivery)] }

/-- The delivery of a check that has ended. -/
def delivery? (c : Checks) (i : Nat) : Option Delivery := c.all[i]?.bind (·.delivery?)

/-- Asks to be told of the end of the check that was counted. If it has ended, its delivery is
queued at once. -/
def watch (c : Checks) : Checks :=
  match c.desk with
  | .watching i =>
    let watched := { c with
      all := c.all.modify i fun check => { check with watched := true }
      desk := .idle }
    match c.delivery? i with
    | some delivery => watched.queue i delivery
    | Option.none => watched
  | _ => c

/-- The worker begins the next check, if it is at none. -/
def begin (c : Checks) : Checks :=
  match c.worker, c.all.findIdx? (·.isWaiting) with
  | Option.none, some i =>
    { c with
      all := c.all.modify i fun check => { check with phase := .running }
      worker := some i }
  | _, _ => c

/-- The number and the file of the check that runs. -/
def running? (c : Checks) : Option (Nat × Text) :=
  match c.worker with
  | some i => match c.all[i]? with
    | some check => if check.isRunning then some (i, check.target) else Option.none
    | Option.none => Option.none
  | Option.none => Option.none

/-- Whether the desk has asked to be told of the end of a check. -/
def isWatched (c : Checks) (i : Nat) : Bool := c.all[i]?.any (·.watched)

/-- The check that runs ends. The worker stays at it if it has to tell of it. -/
def finish (c : Checks) (delivery : Delivery) : Checks :=
  match c.running? with
  | some (i, _) =>
    { c with
      all := c.all.modify i fun check => { check with phase := .ended delivery }
      worker := if c.isWatched i then some i else Option.none }
  | Option.none => c

/-- Cancels a check, if it has not begun. -/
def cancel (c : Checks) (i : Nat) : Checks := { c with all := c.all.modify i (·.cancel) }

/-- Whoever ended a check tells the desk, which has asked for it. -/
def tell (c : Checks) (i : Nat) : Checks :=
  match c.all[i]? with
  | some check => match check.delivery? with
    | some delivery =>
      if check.watched && !check.told then
        { c.queue i delivery with worker := if c.worker = some i then Option.none else c.worker }
      else c
    | Option.none => c
  | Option.none => c

/-- Takes no further checks. -/
def close (c : Checks) : Checks := { c with closed := true }

/-- Cancels every check that has not begun. -/
def cancelAll (c : Checks) : Checks :=
  (List.range c.all.length).foldl (fun c i => (c.cancel i).tell i) c

/-- The next delivery, taken from the queue. -/
def take? (c : Checks) : Option (Delivery × Checks) :=
  match c.deliveries with
  | (i, delivery) :: rest =>
    some (delivery, { c with deliveries := rest, desk := .handling i delivery })
  | [] => Option.none

/-- The delivery that was taken no longer counts. -/
def settle (c : Checks) : Checks :=
  match c.desk with
  | .handling _ _ => { c with pending := c.pending - 1, desk := .idle }
  | _ => c

end Checks

end DhrWorkbench
