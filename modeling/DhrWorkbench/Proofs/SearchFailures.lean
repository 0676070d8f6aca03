import DhrWorkbench.Proofs.Discovery

/-!
# When a search fails

A search looks at paths in an order that is known beforehand (`Itinerary`). What its probe refuses
to answer counts as missing, and so does a folder of libraries that cannot be read. There are two
ways to fail: the configured jar starts with a home directory that cannot be had, which is noticed
before anything is probed; and a path starts with a tilde and a name that no user can have, which
is noticed when the path is reached. A search fails in these two ways only (`search_fails_iff`).
-/

namespace DhrWorkbench

/-! ## Home directories -/

/-- A path starts with the home directory of somebody whose name cannot be looked up. -/
def Path.NamesNobody (p : Path) : Prop :=
  ∃ user rest, p = ⟨.here, (CodePoint.ofChar '~' :: user) :: rest⟩ ∧ PathFault.check user ≠ .ok ()

theorem Path.exists_of_startsWithTilde {p : Path} (hp : p.StartsWithTilde) :
    ∃ user rest, p = ⟨.here, (CodePoint.ofChar '~' :: user) :: rest⟩ := by
  obtain ⟨anchor, parts⟩ := p
  obtain ⟨hanchor, hhead⟩ := hp
  obtain rfl : anchor = .here := hanchor
  cases parts with
  | nil => cases hhead
  | cons first rest =>
    obtain ⟨user, rfl⟩ := List.head?_eq_some_iff.1 (show first.head? = _ from hhead)
    exact ⟨user, rest, rfl⟩

namespace Host

theorem homeFolder_cases (t : Text) :
    homeFolder t = .error .noHome ∨ ∃ folder, homeFolder t = .ok folder := by
  unfold homeFolder
  dsimp only
  split_ifs
  · exact .inl rfl
  · exact .inr ⟨_, rfl⟩
  · exact .inr ⟨_, rfl⟩

/-- Asking for the home directory of a user: the name cannot be looked up, there is no such
directory, or there is one. -/
theorem homeOf_cases (h : Host) (user : Text) :
    (∃ fault, PathFault.check user = .error fault
      ∧ h.homeOf (CodePoint.ofChar '~' :: user) = .error fault)
    ∨ (PathFault.check user = .ok ()
      ∧ (h.homeOf (CodePoint.ofChar '~' :: user) = .error .noHome
        ∨ ∃ folder, h.homeOf (CodePoint.ofChar '~' :: user) = .ok folder)) := by
  unfold homeOf
  cases user with
  | nil => exact .inr ⟨rfl, homeFolder_cases h.home⟩
  | cons c rest =>
    cases hcheck : PathFault.check (c :: rest) with
    | error fault => exact .inl ⟨fault, rfl, by simp [hcheck]⟩
    | ok _ =>
      refine .inr ⟨rfl, ?_⟩
      simp only [List.drop_succ_cons, List.drop_zero, hcheck]
      split
      · exact homeFolder_cases _
      · exact .inl rfl

theorem expandHome_tilde (h : Host) (user : Text) (rest : List Text) :
    h.expandHome ⟨.here, (CodePoint.ofChar '~' :: user) :: rest⟩
      = (h.homeOf (CodePoint.ofChar '~' :: user)).map
        fun folder => Path.ofText folder / Path.mk .here rest := rfl

end Host

namespace Toolchain

/-! ## Sites that cannot be named -/

theorem site_fails_iff {h : Host} {origin : Origin} {p : Path} :
    (∃ fault, site h origin p = .error fault) ↔ p.NamesNobody := by
  by_cases hp : p.StartsWithTilde
  · obtain ⟨user, rest, rfl⟩ := Path.exists_of_startsWithTilde hp
    have hnobody : (Path.mk .here ((CodePoint.ofChar '~' :: user) :: rest)).NamesNobody
        ↔ PathFault.check user ≠ .ok () := by
      refine ⟨?_, fun hcheck => ⟨user, rest, rfl, hcheck⟩⟩
      rintro ⟨user', rest', heq, hcheck⟩
      cases heq
      exact hcheck
    rw [hnobody]
    unfold site absoluteSite
    rw [h.expandHome_tilde]
    rcases h.homeOf_cases user with ⟨fault, hcheck, hhome⟩ | ⟨hcheck, hhome | ⟨folder, hhome⟩⟩
    · have hne : fault ≠ .noHome := fun hc => PathFault.check_ne_noHome user (hc ▸ hcheck)
      simp [hhome, hcheck, Except.map]
    · simp [hhome, hcheck, Except.map]
    · simp [hhome, hcheck, Except.map]
  · have hnot : ¬ p.NamesNobody := by
      rintro ⟨user, rest, rfl, -⟩
      exact hp ⟨rfl, rfl⟩
    simp [site_eq hp, hnot]

/-! ## The way of a search -/

/-- The paths at which a search looks, in order, with the rules that name them. -/
def Itinerary (h : Host) (install : Text) (config : Config) (roots : List Text)
    (P : List (Origin × Path)) : Prop :=
  ∃ p? jar?, OverrideChoice h config.jar roots p? ∧ LibChoice h roots jar?
    ∧ P = p?.toList.map (Origin.override, ·)
      ++ if config.autoDetect then
          roots.map (fun root => (.workspaceRoot, jarIn (Path.ofText root)))
            ++ jar?.toList.map (fun jar => (.workspaceLib, Path.ofText jar))
            ++ [(.bundled, jarIn (Path.ofText install / Path.ofText "compiler"))]
        else []

theorem Itinerary.sites_eq {h : Host} {install : Text} {config : Config} {roots : List Text}
    {P : List (Origin × Path)} (hP : Itinerary h install config roots P) :
    sites h (.str install) config roots = P.map fun n => site h n.1 n.2 := by
  obtain ⟨p?, jar?, ho, hl, rfl⟩ := hP
  cases ha : config.autoDetect <;>
    simp [sites, rules, ha, sitesOf, ho.overrideSites_eq, hl.libSites_eq, rootSites, bundledSites,
      jarIn, Function.comp_def]

/-- The home directory with which the configured jar starts cannot be had. -/
def IsUnusable (h : Host) (jar : Text) : Prop :=
  Text.strip jar ≠ [] ∧ ∃ fault, h.expandHome (Path.ofText (Text.strip jar)) = .error fault

theorem exists_itinerary {h : Host} {config : Config} (hu : ¬ IsUnusable h config.jar)
    (install : Text) (roots : List Text) : ∃ P, Itinerary h install config roots P := by
  have ho : ∃ p?, OverrideChoice h config.jar roots p? := by
    by_cases hb : Text.strip config.jar = []
    · exact ⟨none, .blank hb⟩
    · cases hj : h.expandHome (Path.ofText (Text.strip config.jar)) with
      | error fault => exact absurd ⟨hb, fault, hj⟩ hu
      | ok p => exact exists_overrideChoice hj roots
  obtain ⟨p?, ho⟩ := ho
  obtain ⟨jar?, hl⟩ := exists_libChoice h roots
  exact ⟨_, p?, jar?, ho, hl, rfl⟩

/-- Among some paths one that names nobody is reached before anything is found. -/
def IsBlocked (h : Host) (probe : Probe) (P : List (Origin × Path)) : Prop :=
  ∃ missed next rest, P = missed ++ next :: rest ∧ next.2.NamesNobody
    ∧ ∀ m ∈ missed, ∃ s, site h m.1 m.2 = .ok s ∧ probe s.path ≠ .ok true

variable {config : Config} {probe : Probe}

theorem not_isBlocked_cons {h : Host} {n : Origin × Path} {P : List (Origin × Path)} {s : Site}
    (hs : site h n.1 n.2 = .ok s) (hp : probe s.path = .ok true) :
    ¬ IsBlocked h probe (n :: P) := by
  rintro ⟨missed, next, rest, heq, hnobody, hmissed⟩
  cases missed with
  | nil =>
    obtain ⟨rfl, -⟩ := List.cons.inj heq
    obtain ⟨fault, hf⟩ : ∃ fault, site h n.1 n.2 = .error fault := site_fails_iff.2 hnobody
    simp [hs] at hf
  | cons m missed =>
    obtain ⟨rfl, -⟩ := List.cons.inj heq
    obtain ⟨s', hs', hne⟩ := hmissed n List.mem_cons_self
    obtain rfl : s = s' := by simpa [hs] using hs'
    exact hne hp

theorem isBlocked_cons_iff {h : Host} {n : Origin × Path} {P : List (Origin × Path)}
    {s : Site} (hs : site h n.1 n.2 = .ok s) (hp : probe s.path ≠ .ok true) :
    IsBlocked h probe (n :: P) ↔ IsBlocked h probe P := by
  constructor
  · rintro ⟨missed, next, rest, heq, hnobody, hmissed⟩
    cases missed with
    | nil =>
      obtain ⟨rfl, -⟩ := List.cons.inj heq
      obtain ⟨fault, hf⟩ : ∃ fault, site h n.1 n.2 = .error fault := site_fails_iff.2 hnobody
      simp [hs] at hf
    | cons m missed =>
      obtain ⟨-, rfl⟩ := List.cons.inj heq
      exact ⟨missed, next, rest, rfl, hnobody, fun m hm => hmissed m (List.mem_cons_of_mem _ hm)⟩
  · rintro ⟨missed, next, rest, rfl, hnobody, hmissed⟩
    exact ⟨n :: missed, next, rest, rfl, hnobody, List.forall_mem_cons.2 ⟨⟨s, hs, hp⟩, hmissed⟩⟩

theorem firstHit_fails_iff (h : Host) : ∀ P : List (Origin × Path),
    (∃ failure, (firstHit config probe (P.map fun n => site h n.1 n.2)).outcome = .error failure)
      ↔ IsBlocked h probe P
  | [] => by simp [firstHit, IsBlocked]
  | n :: P => by
    have ih := firstHit_fails_iff h P
    rw [List.map_cons]
    cases hs : site h n.1 n.2 with
    | error fault =>
      refine iff_of_true ⟨_, rfl⟩ ⟨[], n, P, rfl, site_fails_iff.1 ⟨fault, hs⟩, by simp⟩
    | ok s =>
      by_cases hp : probe s.path = .ok true
      · refine iff_of_false ?_ (not_isBlocked_cons hs hp)
        simp [firstHit_found hp]
      · rw [isBlocked_cons_iff hs hp, firstHit_missing hp]
        exact ih

theorem firstHit_of_isUnusable {h : Host} (hu : IsUnusable h config.jar) (probe : Probe)
    (install : Value) (roots : List Text) : ∃ fault,
      firstHit config probe (sites h install config roots) = ⟨.error (.path fault), [], []⟩ := by
  obtain ⟨hb, fault, hj⟩ := hu
  refine ⟨fault, ?_⟩
  cases ha : config.autoDetect <;>
    simp [sites, rules, ha, sitesOf, overrideSites, hb, hj, firstHit]

/-- A search fails just if the home directory of the configured jar cannot be had, or a path that
names nobody is reached before the jar is found. In the first case nothing is probed. Otherwise it
returns a toolchain or nothing, whatever the files are and the probe refuses. -/
theorem search_fails_iff (h : Host) (install : Text) (config : Config) (roots : List Text)
    (probe : Probe) :
    ((∃ failure, (search h (.str install) config (.list (roots.map .str)) probe).outcome
        = .error failure)
      ↔ IsUnusable h config.jar
        ∨ ∃ P, Itinerary h install config (usable roots) P ∧ IsBlocked h probe P)
    ∧ (IsUnusable h config.jar →
      (search h (.str install) config (.list (roots.map .str)) probe).probed = []) := by
  rw [search_eq]
  by_cases hu : IsUnusable h config.jar
  · obtain ⟨fault, hf⟩ := firstHit_of_isUnusable hu probe (.str install) (usable roots)
    rw [hf]
    exact ⟨iff_of_true ⟨_, rfl⟩ (.inl hu), fun _ => rfl⟩
  · refine ⟨?_, fun hu' => absurd hu' hu⟩
    constructor
    · rintro ⟨failure, hfailure⟩
      obtain ⟨P, hP⟩ := exists_itinerary hu install (usable roots)
      rw [hP.sites_eq] at hfailure
      exact .inr ⟨P, hP, (firstHit_fails_iff h P).1 ⟨failure, hfailure⟩⟩
    · rintro (hu' | ⟨P, hP, hblocked⟩)
      · exact absurd hu' hu
      · rw [hP.sites_eq]
        exact (firstHit_fails_iff h P).2 hblocked

/-- The configured jar belongs to somebody unknown. -/
def strangersJar : Config := ⟨"java", "~nosuchuser/DhrLang.jar", true⟩

/-- A search fails over a jar that is configured for an unknown user, where without the setting it
finds the jar of the workspace. -/
theorem unknown_user_not_skipped :
    (search twoRoots (.str "/opt") strangersJar (.list [.str "/w/b"])
        fun path => .ok (fileAt twoRoots path)).outcome = .error (.path .noHome)
    ∧ (search twoRoots (.str "/opt") { strangersJar with jar := [] } (.list [.str "/w/b"])
        fun path => .ok (fileAt twoRoots path)).outcome
      = .ok (some ⟨"/w/b/DhrLang.jar", .workspaceRoot, "java"⟩) :=
  ⟨rfl, rfl⟩

end Toolchain

end DhrWorkbench
