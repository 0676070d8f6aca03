import DhrWorkbench.Toolchain.Site

/-!
# The search for the toolchain

A search probes the sites of its rules in order and stops at the first that holds the jar. It
takes one step at a time, because files may change between two of them: the sites of a rule are
those of the moment in which the rule is begun. Where nothing changes, the search is
`Toolchain.search`, the first hit among all sites.
-/

namespace DhrWorkbench

namespace Toolchain

def disabledLine : Text :=
  "[DhrLang] Auto-detection disabled; only the configured jar path is probed."

/-- The record of one probe. -/
def probeLine (s : Site) (found : Bool) : Text :=
  "[DhrLang] probe " ++ s.origin.name ++ ": " ++ s.path ++ " -> "
    ++ (if found then "found" else "missing")

/-- The lines before the first probe. -/
def openingLines (config : Config) : List Text := if config.autoDetect then [] else [disabledLine]

/-- The toolchain at a site. -/
def atSite (config : Config) (s : Site) : Toolchain := ⟨s.path, s.origin, config.java⟩

/-- What a search came to, and its record. -/
structure Found where
  outcome : Except Failure (Option Toolchain)
  lines : List Text
  /-- The paths that were probed. -/
  probed : List Text

/-- Probes sites until one holds the jar. -/
def firstHit (config : Config) (probe : Probe) : List (Except PathFault Site) → Found
  | [] => ⟨.ok none, [], []⟩
  | .error fault :: _ => ⟨.error (.path fault), [], []⟩
  | .ok s :: rest =>
    if finds probe s.path then
      ⟨.ok (some (atSite config s)), [probeLine s true], [s.path]⟩
    else
      let found := firstHit config probe rest
      ⟨found.outcome, probeLine s false :: found.lines, s.path :: found.probed⟩

/-- The search where nothing changes meanwhile. -/
def search (h : Host) (install : Value) (config : Config) (roots : Value)
    (probe : Probe) : Found :=
  match cleanRoots roots with
  | .error failure => ⟨.error failure, [], []⟩
  | .ok roots =>
    let found := firstHit config probe (sites h install config roots)
    { found with lines := openingLines config ++ found.lines }

/-- A search under way. -/
structure Search where
  config : Config
  roots : List Text
  /-- The sites of the present rule that are yet to be probed. -/
  pending : List (Except PathFault Site)
  /-- The rules not yet begun. -/
  rules : List Origin
  lines : List Text

namespace Search

def start (config : Config) (roots : List Text) : Search :=
  ⟨config, roots, [], Toolchain.rules config, openingLines config⟩

/-- The path that the next step probes. -/
def probe? (s : Search) : Option Text :=
  match s.pending with
  | .ok site :: _ => some site.path
  | _ => none

/-- More steps than the search can still take. -/
def rank (s : Search) : Nat := s.pending.length + s.rules.length * (s.roots.length + 2) + 1

/-- One step: the search goes on, or it comes to an outcome. -/
def step (h : Host) (install : Value) (probe : Probe) (s : Search) :
    Search ⊕ Except Failure (Option Toolchain) × List Text :=
  match s.pending with
  | .error fault :: _ => .inr (.error (.path fault), s.lines)
  | .ok site :: rest =>
    if finds probe site.path then
      .inr (.ok (some (atSite s.config site)), s.lines ++ [probeLine site true])
    else .inl { s with pending := rest, lines := s.lines ++ [probeLine site false] }
  | [] => match s.rules with
    | [] => .inr (.ok none, s.lines)
    | rule :: rules => .inl { s with pending := sitesOf h install s.config s.roots rule, rules }

end Search

end Toolchain

end DhrWorkbench
