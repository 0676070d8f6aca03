import DhrWorkbench.Toolchain.Search

/-!
# The locator

The locator remembers the toolchain that was found last. Any number of callers may ask for it at
the same time, and at any moment what it remembers may be invalidated. A call goes through atomic
steps (`Call`, `advance`): it reads what is remembered, probes it, and confirms that no
invalidation came between; otherwise it waits until no other call searches. A call that waited
while another one completed a search shares that outcome, unless it was invalidated since; if not,
it searches and stores what it found, unless an invalidation came after it had been let in.
-/

namespace DhrWorkbench

namespace Toolchain

inductive Status
  | unknown
  | resolved
  | unresolved
  deriving DecidableEq

def Status.name : Status → Text
  | .unknown => "unknown"
  | .resolved => "resolved"
  | .unresolved => "unresolved"

/-- What all callers share. -/
structure Locator where
  cached : Option Toolchain
  status : Status
  /-- The number of invalidations. -/
  generation : Nat
  /-- The number of completed searches. -/
  serial : Nat
  /-- The generation for which an outcome was stored last. -/
  storedGeneration : Option Nat
  /-- The record of the search that completed last. -/
  lines : List Text
  /-- Whether some call searches. -/
  busy : Bool

namespace Locator

/-- A locator that has not searched. -/
def fresh : Locator := ⟨none, .unknown, 0, 0, none, [], false⟩

/-- Forgets what is remembered. -/
def invalidate (l : Locator) : Locator :=
  { l with cached := none, status := .unknown, generation := l.generation + 1 }

/-- Whether a call that is let in shares the stored outcome: some search completed since the call
began, and what is stored was not invalidated. -/
def shares (l : Locator) (seenSerial : Nat) : Bool :=
  l.serial ≠ seenSerial && l.storedGeneration = some l.generation

/-- Completes a search that was let in at a generation. -/
def store (l : Locator) (generation : Nat) (outcome : Option Toolchain) (lines : List Text) :
    Locator :=
  let l := { l with serial := l.serial + 1, lines, busy := false }
  if generation = l.generation then
    { l with
      cached := outcome
      status := if outcome.isSome then .resolved else .unresolved
      storedGeneration := some generation }
  else l

def acquire (l : Locator) : Locator := { l with busy := true }

def release (l : Locator) : Locator := { l with busy := false }

end Locator

/-- What a call finds around it: the configuration, the roots, the files, and what a probe
answers. -/
structure Surroundings where
  config : Except Failure Config
  roots : Except Failure Value
  host : Host
  install : Value
  probe : Probe

/-- What a call read when it began. -/
structure Seen where
  serial : Nat
  generation : Nat

/-- How far a call is. -/
inductive Call
  | entering
  /-- About to probe the remembered toolchain. -/
  | probing (seen : Seen) (cached : Toolchain)
  /-- The probe succeeded. -/
  | confirming (seen : Seen) (cached : Toolchain)
  /-- Waiting until no call searches. -/
  | queued (seen : Seen)
  | admitted (seen : Seen)
  /-- About to read the configuration. -/
  | configuring (generation : Nat)
  /-- About to read the roots. -/
  | rooting (generation : Nat) (config : Config)
  | searching (generation : Nat) (search : Search)
  | storing (generation : Nat) (outcome : Option Toolchain) (lines : List Text)
  | finished (answer : Except Failure (Option Toolchain))

namespace Call

/-- The path that the next step of a call probes. -/
def probe? : Call → Option Text
  | .probing _ cached => some cached.artifact
  | .searching _ search => search.probe?
  | _ => none

/-- A call that fails gives way to others and stores nothing. -/
def fail (l : Locator) (failure : Failure) : Locator × Call :=
  (l.release, .finished (.error failure))

/-- One atomic step of a call. -/
def advance (w : Surroundings) (l : Locator) : Call → Locator × Call
  | .entering =>
    let seen : Seen := ⟨l.serial, l.generation⟩
    (l, match l.cached with
      | some cached => .probing seen cached
      | none => .queued seen)
  | .probing seen cached =>
    (l, if finds w.probe cached.artifact then .confirming seen cached else .queued seen)
  | .confirming seen cached =>
    (l, if l.generation = seen.generation then .finished (.ok (some cached)) else .queued seen)
  | .queued seen => if l.busy then (l, .queued seen) else (l.acquire, .admitted seen)
  | .admitted seen =>
    if l.shares seen.serial then (l.release, .finished (.ok l.cached))
    else (l, .configuring l.generation)
  | .configuring generation =>
    match w.config with
    | .error failure => fail l failure
    | .ok config => (l, .rooting generation config)
  | .rooting generation config =>
    match w.roots.bind cleanRoots with
    | .error failure => fail l failure
    | .ok roots => (l, .searching generation (.start config roots))
  | .searching generation search =>
    match search.step w.host w.install w.probe with
    | .inl search => (l, .searching generation search)
    | .inr (.error failure, _) => fail l failure
    | .inr (.ok outcome, lines) => (l, .storing generation outcome lines)
  | .storing generation outcome lines =>
    (l.store generation outcome lines, .finished (.ok outcome))
  | .finished answer => (l, .finished answer)

/-- The steps of a call before its search. -/
def stepsToSearch : Nat := 7

/-- More steps than a call that searches can still take. -/
def rank : Call → Nat
  | .searching _ search => search.rank + 1
  | .storing _ _ _ => 1
  | _ => 0

/-- The answer of a call that has come to its end. -/
def answer? : Call → Option (Except Failure (Option Toolchain))
  | .finished answer => some answer
  | _ => none

end Call

/-- How a locator stands in a larger state. -/
structure Stand (σ : Type) where
  locator : σ → Locator
  place : Locator → σ → σ
  around : σ → Surroundings
  /-- What happens just before a path is probed. -/
  beforeProbe : Text → σ → σ

namespace Stand

variable {σ : Type}

/-- One step of a call. -/
def step (stand : Stand σ) (call : Call) (s : σ) : Call × σ :=
  let s := match call.probe? with
    | some path => stand.beforeProbe path s
    | none => s
  let (locator, call) := call.advance (stand.around s) (stand.locator s)
  (call, stand.place locator s)

def steps (stand : Stand σ) : Nat → Call → σ → Call × σ
  | 0, call, s => (call, s)
  | n + 1, call, s =>
    let (call, s) := stand.step call s
    stand.steps n call s

/-- Takes a call that nobody keeps waiting to its end. -/
def finish (stand : Stand σ) (call : Call) (s : σ) : Call × σ :=
  let (call, s) := stand.steps Call.stepsToSearch call s
  stand.steps call.rank call s

/-- A call with no other call under way. -/
def resolve (stand : Stand σ) (s : σ) : Except Failure (Option Toolchain) × σ :=
  let (call, s) := stand.finish .entering s
  (call.answer?.getD (.ok none), s)

end Stand

end Toolchain

end DhrWorkbench
