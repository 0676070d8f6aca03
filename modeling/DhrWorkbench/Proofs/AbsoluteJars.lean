import DhrWorkbench.Proofs.PathTexts
import DhrWorkbench.Proofs.SearchFailures

/-!
# Where a found jar is

A jar that a search finds is named by an absolute path, which leads to the same place from every
working directory, with one exception: a path that starts with the home directory of somebody who
has none is probed and returned as it stands (`artifact_isAbsolute_iff`). It is relative, so what it
leads to changes with the working directory. Such a path comes from a root, from the folder of the
installation or from a home directory that is itself such a path (`Itinerary.namesStranger`).
-/

namespace DhrWorkbench

namespace Host

/-! ## Home directories that nobody has -/

/-- A path starts with the home directory of somebody who has none. -/
def LacksHome (h : Host) (p : Path) : Prop := h.expandHome p = .error .noHome

variable {h : Host} {p q : Path}

theorem LacksHome.startsWithTilde (hp : h.LacksHome p) : p.StartsWithTilde := by
  by_contra hnot
  cases hp.symm.trans (h.expandHome_eq hnot)

theorem lacksHome_iff : h.LacksHome p ↔ p.anchor = .here
    ∧ ∃ user, p.parts.head? = some (CodePoint.ofChar '~' :: user)
      ∧ h.homeOf (CodePoint.ofChar '~' :: user) = .error .noHome := by
  constructor
  · intro hp
    obtain ⟨user, rest, rfl⟩ := Path.exists_of_startsWithTilde hp.startsWithTilde
    refine ⟨rfl, user, rfl, ?_⟩
    rw [LacksHome, expandHome_tilde] at hp
    cases hhome : h.homeOf (CodePoint.ofChar '~' :: user) with
    | ok folder =>
      rw [hhome] at hp
      cases hp
    | error fault =>
      rw [hhome] at hp
      exact congrArg Except.error (Except.error.inj hp)
  · rintro ⟨hanchor, user, hhead, hhome⟩
    obtain ⟨anchor, parts⟩ := p
    obtain rfl : anchor = .here := hanchor
    obtain ⟨rest, rfl⟩ := List.head?_eq_some_iff.1 hhead
    rw [LacksHome, expandHome_tilde, hhome]
    rfl

/-- A joined path starts as one of the two paths does. -/
theorem LacksHome.of_div (hp : h.LacksHome (p / q)) : h.LacksHome p ∨ h.LacksHome q := by
  by_cases hq : q.isAbsolute
  · rw [Path.append_of_isAbsolute hq] at hp
    exact .inr hp
  · have hdiv : p / q = ⟨p.anchor, p.parts ++ q.parts⟩ := if_neg hq
    rw [hdiv, lacksHome_iff] at hp
    obtain ⟨hanchor, user, hhead, hhome⟩ := hp
    -- the first name of the two is that of the first path, if it has any
    cases hparts : p.parts with
    | nil =>
      refine .inr (lacksHome_iff.2 ⟨by simpa [Path.isAbsolute] using hq, user, ?_, hhome⟩)
      simpa [hparts] using hhead
    | cons first rest =>
      refine .inl (lacksHome_iff.2 ⟨hanchor, user, ?_, hhome⟩)
      simpa [hparts] using hhead

theorem LacksHome.of_ofText_text (hp : h.LacksHome (Path.ofText p.text))
    (hname : ∀ first ∈ p.parts.head?, Path.IsName first) : h.LacksHome p := by
  obtain ⟨first, rest, rfl⟩ : ∃ first rest, p = ⟨.here, first :: rest⟩ := by
    obtain ⟨user, rest, rfl⟩ := Path.exists_of_startsWithTilde
      ((Path.startsWithTilde_ofText_text hname).1 hp.startsWithTilde)
    exact ⟨_, rest, rfl⟩
  have hfirst := hname first rfl
  rw [lacksHome_iff, Path.text_of_here hfirst] at hp
  obtain ⟨-, user, hhead, hhome⟩ := hp
  rw [Path.ofText, Path.namesOf_join_cons hfirst] at hhead
  exact lacksHome_iff.2 ⟨rfl, user, hhead, hhome⟩

theorem LacksHome.not_isAbsolute (hp : h.LacksHome p) : ¬ (Path.ofText p.text).isAbsolute := by
  obtain ⟨user, rest, rfl⟩ := Path.exists_of_startsWithTilde hp.startsWithTilde
  have hhead : (Path.mk .here ((CodePoint.ofChar '~' :: user) :: rest)).text.head?
      = some (CodePoint.ofChar '~') := by
    cases rest <;> rfl
  rw [Path.isAbsolute_ofText_iff, hhead]
  decide

theorem isAbsolute_absolute (h : Host) (p : Path) :
    (Path.ofText (h.absolute p).text).isAbsolute := by
  have hanchor : (h.absolute p).anchor ≠ .here := by
    by_cases hp : p.isAbsolute
    · rw [absolute, Path.append_of_isAbsolute hp]
      simpa [Path.isAbsolute] using hp
    · have habsolute : h.absolute p = ⟨.root, h.cwd ++ p.parts⟩ := if_neg hp
      simp [habsolute]
  simpa [Path.isAbsolute] using Path.anchor_ofText_text hanchor

/-- An absolute path leads to the same place from every working directory. -/
theorem locate_of_isAbsolute {t : Text} (ht : (Path.ofText t).isAbsolute) (h : Host)
    (cwd : Location) : ({ h with cwd } : Host).locate t = h.locate t := by
  simp only [locate, ht, if_true]

end Host

namespace Toolchain

variable {h : Host} {config : Config} {probe : Probe} {tc : Toolchain}

/-! ## Sites -/

theorem isAbsolute_of_site {origin : Origin} {p : Path} {s : Site} (hs : site h origin p = .ok s) :
    (¬ h.LacksHome p ∧ (Path.ofText s.path).isAbsolute)
      ∨ (h.LacksHome p ∧ s.path = p.text) := by
  unfold site absoluteSite at hs
  cases hp : h.expandHome p with
  | ok q =>
    rw [hp] at hs
    cases hs
    refine .inl ⟨fun hlacks => ?_, h.isAbsolute_absolute q⟩
    cases hp.symm.trans hlacks
  | error fault =>
    rw [hp] at hs
    cases fault with
    | noHome =>
      cases hs
      exact .inr ⟨hp, rfl⟩
    | _ => cases hs

/-- What is found is a site that was to be probed. -/
theorem exists_site_of_firstHit : ∀ {C : List (Except PathFault Site)},
    (firstHit config probe C).outcome = .ok (some tc) → ∃ s, .ok s ∈ C ∧ tc = atSite config s
  | [], hfound => by cases hfound
  | .error fault :: C, hfound => by cases hfound
  | .ok s :: C, hfound => by
    by_cases hs : probe s.path = .ok true
    · rw [firstHit_found hs] at hfound
      cases hfound
      exact ⟨s, List.mem_cons_self, rfl⟩
    · rw [firstHit_missing hs] at hfound
      obtain ⟨s', hs', rfl⟩ := exists_site_of_firstHit hfound
      exact ⟨s', List.mem_cons_of_mem _ hs', rfl⟩

/-! ## The paths of a search -/

theorem LibEntry.lacksHome {root path : Text} (he : LibEntry h root path)
    (hp : h.LacksHome (Path.ofText path)) : h.LacksHome (Path.ofText root) := by
  obtain ⟨-, name, middle, -, -, -, rfl, rfl⟩ := he
  have hjoined := hp.of_ofText_text (isName_head_of_libFolder root _)
  have hlib : h.LacksHome (libFolder root) := hjoined.of_div.resolve_right fun hname =>
    not_startsWithTilde_jarNamed middle hname.startsWithTilde
  exact hlib.of_div.resolve_right fun hname => absurd hname.startsWithTilde (by decide)

theorem lacksHome_of_jarIn {folder : Path} (hp : h.LacksHome (jarIn folder)) :
    h.LacksHome folder :=
  hp.of_div.resolve_right fun hname => absurd hname.startsWithTilde (by decide)

theorem LibChoice.lacksHome {roots : List Text} {jar? : Option Text} (hc : LibChoice h roots jar?) :
    ∀ jar ∈ jar?.toList, h.LacksHome (Path.ofText jar) →
      ∃ root ∈ roots, h.LacksHome (Path.ofText root) := by
  induction hc with
  | none => simp
  | skip _ _ ih =>
    intro jar hjar hp
    obtain ⟨root, hroot, hlacks⟩ := ih jar hjar hp
    exact ⟨root, List.mem_cons_of_mem _ hroot, hlacks⟩
  | take _ hl =>
    intro jar hjar hp
    obtain rfl := by simpa using hjar
    exact ⟨_, List.mem_cons_self, hl.1.1.lacksHome hp⟩

/-- A root, the folder of the installation or the path that the jar's setting comes to starts with
the home directory of somebody who has none. -/
def NamesStranger (h : Host) (install jar : Text) (roots : List Text) : Prop :=
  (∃ root ∈ roots, h.LacksHome (Path.ofText root)) ∨ h.LacksHome (Path.ofText install)
    ∨ ∃ p, h.expandHome (Path.ofText (Text.strip jar)) = .ok p ∧ h.LacksHome p

theorem OverrideChoice.namesStranger {jar : Text} {roots : List Text} {p? : Option Path}
    (hc : OverrideChoice h jar roots p?) (install : Text) {p : Path} (hp : p ∈ p?.toList)
    (hlacks : h.LacksHome p) : NamesStranger h install jar roots := by
  cases hc with
  | blank => simp at hp
  | alone _ hj _ =>
    obtain rfl : p = _ := by simpa using hp
    exact .inr (.inr ⟨p, hj, hlacks⟩)
  | joined _ hj _ hroot =>
    obtain rfl : p = _ := by simpa using hp
    obtain hlacks | hlacks := hlacks.of_div
    · exact .inl ⟨_, List.mem_of_mem_head? hroot, hlacks⟩
    · exact .inr (.inr ⟨_, hj, hlacks⟩)

theorem Itinerary.namesStranger {install : Text} {roots : List Text} {P : List (Origin × Path)}
    (hP : Itinerary h install config roots P) {n : Origin × Path} (hn : n ∈ P)
    (hlacks : h.LacksHome n.2) : NamesStranger h install config.jar roots := by
  obtain ⟨p?, jar?, ho, hl, rfl⟩ := hP
  rcases List.mem_append.1 hn with hn | hn
  · obtain ⟨p, hp, rfl⟩ := List.mem_map.1 hn
    exact ho.namesStranger install hp hlacks
  · split at hn
    · rcases List.mem_append.1 hn with hn | hn
      · rcases List.mem_append.1 hn with hn | hn
        · obtain ⟨root, hroot, rfl⟩ := List.mem_map.1 hn
          exact .inl ⟨root, hroot, lacksHome_of_jarIn hlacks⟩
        · obtain ⟨jar, hjar, rfl⟩ := List.mem_map.1 hn
          exact .inl (hl.lacksHome jar hjar hlacks)
      · obtain rfl := List.mem_singleton.1 hn
        refine .inr (.inl ((lacksHome_of_jarIn hlacks).of_div.resolve_right fun hname => ?_))
        exact absurd hname.startsWithTilde (by decide)
    · cases hn

/-- A search that finds something has found a path on its way. -/
theorem exists_path_of_search {install : Text} {roots : List Text}
    (hfound : (search h (.str install) config (.list (roots.map .str)) probe).outcome
      = .ok (some tc)) :
    ∃ P n s, Itinerary h install config (usable roots) P ∧ n ∈ P ∧ site h n.1 n.2 = .ok s
      ∧ tc = atSite config s := by
  rw [search_eq] at hfound
  have hu : ¬ IsUnusable h config.jar := by
    intro hu
    obtain ⟨fault, hfails⟩ := firstHit_of_isUnusable hu probe (.str install) (usable roots)
    rw [hfails] at hfound
    cases hfound
  obtain ⟨P, hP⟩ := exists_itinerary hu install (usable roots)
  rw [hP.sites_eq] at hfound
  obtain ⟨s, hs, htc⟩ := exists_site_of_firstHit hfound
  obtain ⟨n, hn, hs⟩ := List.mem_map.1 hs
  exact ⟨P, n, s, hP, hn, hs, htc⟩

/-! ## The jar that is found -/

/-- The jar that a search finds is named by an absolute path, unless it is a path that starts with
the home directory of somebody who has none: that is named as it stands. Only a root, the folder of
the installation or the jar's setting can bring in such a path. An absolute path leads to the same
place from every working directory. -/
theorem artifact_isAbsolute_iff {install : Text} {roots : List Text}
    (hfound : (search h (.str install) config (.list (roots.map .str)) probe).outcome
      = .ok (some tc)) :
    ((Path.ofText tc.artifact).isAbsolute ↔ ¬ ∃ p, h.LacksHome p ∧ tc.artifact = p.text)
    ∧ (¬ NamesStranger h install config.jar (usable roots) → (Path.ofText tc.artifact).isAbsolute)
    ∧ ((Path.ofText tc.artifact).isAbsolute →
      ∀ cwd, ({ h with cwd } : Host).locate tc.artifact = h.locate tc.artifact) := by
  obtain ⟨P, n, s, hP, hn, hs, rfl⟩ := exists_path_of_search hfound
  have hrelative : ∀ p, h.LacksHome p → s.path = p.text → ¬ (Path.ofText s.path).isAbsolute := by
    rintro p hp heq
    rw [heq]
    exact hp.not_isAbsolute
  refine ⟨⟨?_, ?_⟩, fun hno => ?_, fun ha => Host.locate_of_isAbsolute ha h⟩
  · rintro ha ⟨p, hp, heq⟩
    exact hrelative p hp heq ha
  · intro hno
    obtain ⟨-, ha⟩ | ⟨hp, heq⟩ := isAbsolute_of_site hs
    · exact ha
    · exact absurd ⟨n.2, hp, heq⟩ hno
  · obtain ⟨-, ha⟩ | ⟨hp, -⟩ := isAbsolute_of_site hs
    · exact ha
    · exact absurd (hP.namesStranger hn hp) hno

/-- The workspace in which the process works keeps its jar in a folder that is named like the home
directory of an unknown user. -/
def strangersRoot : Host where
  files := ⟨[(["w"], .folder), (["w", "~nosuchuser"], .folder),
    (["w", "~nosuchuser", "DhrLang.jar"], .file [] false), (["w", "src"], .folder)]⟩
  cwd := ["w"]
  home := "/home/dhr"
  homes := []
  programFolders := []
  settingsFolder := none

/-- A relative root is seen from the working directory, and its jar is found from everywhere. -/
theorem nearby_root_absolute :
    (search twoRoots (.str "/opt") detecting (.list [.str "b"])
        fun path => .ok (fileAt twoRoots path)).outcome
      = .ok (some ⟨"/w/b/DhrLang.jar", .workspaceRoot, "java"⟩)
    ∧ ¬ NamesStranger twoRoots "/opt" detecting.jar (usable ["b"])
    ∧ (Path.ofText "/w/b/DhrLang.jar").isAbsolute
    ∧ ∀ cwd, ({ twoRoots with cwd } : Host).locate "/w/b/DhrLang.jar"
      = .ok (.there ["w", "b", "DhrLang.jar"]) := by
  have hfound : (search twoRoots (.str "/opt") detecting (.list (List.map .str ["b"]))
      fun path => .ok (fileAt twoRoots path)).outcome
      = .ok (some ⟨"/w/b/DhrLang.jar", .workspaceRoot, "java"⟩) := rfl
  have hno : ¬ NamesStranger twoRoots "/opt" detecting.jar (usable ["b"]) := by
    rintro (⟨root, hroot, hlacks⟩ | hlacks | ⟨p, hp, hlacks⟩)
    · obtain rfl : root = "b" := List.mem_singleton.1 hroot
      cases hlacks
    · cases hlacks
    · cases hp
      cases hlacks
  obtain ⟨-, habsolute, hsame⟩ := artifact_isAbsolute_iff hfound
  exact ⟨hfound, hno, habsolute hno, hsame (habsolute hno)⟩

/-- The jar that is found is named by a relative path: it is there from the working directory and
not from a folder below it. -/
theorem stranger_found_relative :
    (search strangersRoot (.str "/opt") detecting (.list [.str "~nosuchuser"])
        fun path => .ok (fileAt strangersRoot path)).outcome
      = .ok (some ⟨"~nosuchuser/DhrLang.jar", .workspaceRoot, "java"⟩)
    ∧ ¬ (Path.ofText "~nosuchuser/DhrLang.jar").isAbsolute
    ∧ fileAt strangersRoot "~nosuchuser/DhrLang.jar" = true
    ∧ fileAt { strangersRoot with cwd := ["w", "src"] } "~nosuchuser/DhrLang.jar" = false :=
  ⟨rfl, by decide, rfl, rfl⟩

end Toolchain

end DhrWorkbench
