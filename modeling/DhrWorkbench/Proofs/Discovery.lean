import DhrWorkbench.Toolchain.Search
import DhrWorkbench.Proofs.Paths
import Mathlib.Order.Bounds.Basic

/-!
# A search is the first hit among the candidates

The candidates of a search are named here by what they are: the configured jar, the jar's name in
each root, the least jar that the folder `lib` of some root holds, and the jar of the installation,
all absolute. Where no root and no installation starts with a tilde, the sites of a search are its
candidates, and the search asks its probe for them in order, up to the first that is there.

A root whose folder `lib` holds a jar is passed over when the system refuses to say of one of the
names there whether it is a file, as it does for a path that is too long.
-/

namespace DhrWorkbench

namespace Toolchain

/-- The roots that are not blank, without the blanks around them. -/
def usable (roots : List Text) : List Text := (roots.map Text.strip).filter (!·.isEmpty)

/-- The site of a rule at a path, seen from the root. -/
def seen (h : Host) (origin : Origin) (p : Path) : Site := ⟨origin, (h.absolute p).text⟩

/-- The jar by its own name in a folder. -/
def jarIn (folder : Path) : Path := folder / Path.ofText artifactName

/-! ## The configured jar -/

/-- The path that the setting of the jar names, if any: a relative one is seen from the first
root. -/
inductive OverrideChoice (h : Host) (jar : Text) (roots : List Text) : Option Path → Prop
  | blank : Text.strip jar = [] → OverrideChoice h jar roots none
  | alone {p : Path} : Text.strip jar ≠ [] → h.expandHome (Path.ofText (Text.strip jar)) = .ok p →
      p.isAbsolute ∨ roots = [] → OverrideChoice h jar roots (some p)
  | joined {p : Path} {root : Text} : Text.strip jar ≠ [] →
      h.expandHome (Path.ofText (Text.strip jar)) = .ok p → ¬ p.isAbsolute →
      roots.head? = some root → OverrideChoice h jar roots (some (Path.ofText root / p))

/-! ## The jar of a library -/

def jarNamed (middle : Text) : Text := Text.ofString "DhrLang-" ++ middle ++ Text.ofString ".jar"

/-- The folder `lib` of a root lists a path, and under the name of a jar. -/
def LibEntry (h : Host) (root path : Text) : Prop :=
  ∃ location name middle, h.isFolder (libFolder root).text = .ok true
    ∧ h.locate (libFolder root).text = .ok (.there location)
    ∧ name ∈ h.files.names location
    ∧ name = jarNamed middle
    ∧ path = (libFolder root / Path.mk .here [name]).text

/-- The folder `lib` of a root holds a jar. -/
def IsLibJar (h : Host) (root path : Text) : Prop :=
  LibEntry h root path ∧ h.isFile path = .ok true

/-- The system refuses to say what the `lib` of a root is, or whether a jar in it is a file. -/
def RefusesLib (h : Host) (root : Text) : Prop :=
  (∃ fault, h.isFolder (libFolder root).text = .error fault)
    ∨ ∃ path fault, LibEntry h root path ∧ h.isFile path = .error fault

/-- The least jar in the `lib` of the first root that holds one there; refusing roots are passed
over. -/
inductive LibChoice (h : Host) : List Text → Option Text → Prop
  | none : LibChoice h [] none
  | skip {root : Text} {rest : List Text} {jar? : Option Text} :
      (RefusesLib h root ∨ ∀ path, ¬ IsLibJar h root path) → LibChoice h rest jar? →
      LibChoice h (root :: rest) jar?
  | take {root : Text} {rest : List Text} {jar : Text} : ¬ RefusesLib h root →
      IsLeast {path | IsLibJar h root path} jar → LibChoice h (root :: rest) (some jar)

theorem isJarName_iff {name : Text} : isJarName name ↔ ∃ middle, name = jarNamed middle := by
  simp only [isJarName, jarNamed, Bool.and_eq_true, List.isPrefixOf_iff_prefix,
    List.isSuffixOf_iff_suffix, decide_eq_true_eq]
  constructor
  · rintro ⟨⟨hp, start, rfl⟩, hl⟩
    have hs : (Text.ofString "DhrLang-").length ≤ start.length := by
      rw [List.length_append] at hl
      change 12 ≤ start.length + 4 at hl
      change 8 ≤ start.length
      omega
    obtain ⟨middle, rfl⟩ := List.prefix_of_prefix_length_le hp (List.prefix_append ..) hs
    exact ⟨middle, rfl⟩
  · rintro ⟨middle, rfl⟩
    refine ⟨⟨⟨middle ++ Text.ofString ".jar", by simp⟩, List.suffix_append ..⟩, ?_⟩
    rw [List.length_append, List.length_append]
    change 12 ≤ 8 + middle.length + 4
    omega

theorem holds_of_locate {h : Host} {t : Text} {location : Location} {node : Node}
    (hl : h.locate t = .ok (.there location)) (hg : h.files.get? location = some node)
    (kind : Node → Bool) : h.holds kind t = .ok (kind node) := by
  simp [Host.holds, Host.stat, hl, hg]

theorem locate_of_isFolder {h : Host} {t : Text} (hf : h.isFolder t = .ok true) :
    ∃ location, h.locate t = .ok (.there location) := by
  unfold Host.isFolder Host.holds Host.stat at hf
  cases hl : h.locate t with
  | error fault =>
    rw [hl] at hf
    simp only at hf
    split at hf <;> simp_all
  | ok spot =>
    cases spot with
    | there location => exact ⟨location, rfl⟩
    | free folder name => simp [hl] at hf

/-- The files among some paths, when the system answers for all of them. -/
theorem filesAmong_spec (h : Host) : ∀ paths : List Text,
    (∃ files, filesAmong h paths = .ok files ∧ (∀ path ∈ paths, ∃ found, h.isFile path = .ok found)
      ∧ ∀ path, path ∈ files ↔ path ∈ paths ∧ h.isFile path = .ok true)
    ∨ (∃ fault, filesAmong h paths = .error fault) ∧ ∃ path ∈ paths, ∃ fault,
      h.isFile path = .error fault
  | [] => .inl ⟨[], rfl, by simp, by simp⟩
  | path :: rest => by
    cases hp : h.isFile path with
    | error fault => exact .inr ⟨⟨fault, by simp [filesAmong, hp]⟩, path, by simp, fault, hp⟩
    | ok found =>
      rcases filesAmong_spec h rest with ⟨files, hf, ha, hm⟩ | ⟨⟨fault, hf⟩, other, ho, hr⟩
      · refine .inl ⟨if found then path :: files else files, ?_, ?_, fun other => ?_⟩
        · simp [filesAmong, hp, hf, Except.map]
        · simpa [hp] using ha
        · by_cases he : other = path
          · subst he
            cases found <;> simp_all
          · cases found <;> simp_all
      · exact .inr ⟨⟨fault, by simp [filesAmong, hp, hf, Except.map]⟩, other, by simp [ho], hr⟩

theorem libEntry_iff {h : Host} {root path : Text} {location : Location}
    (hf : h.isFolder (libFolder root).text = .ok true)
    (hl : h.locate (libFolder root).text = .ok (.there location)) :
    path ∈ ((h.files.names location).filter isJarName).map
        (fun name => (libFolder root / Path.mk .here [name]).text) ↔ LibEntry h root path := by
  simp only [List.mem_map, List.mem_filter, isJarName_iff]
  constructor
  · rintro ⟨name, ⟨hn, middle, hm⟩, rfl⟩
    exact ⟨location, name, middle, hf, hl, hn, hm, rfl⟩
  · rintro ⟨_, name, middle, -, hl', hn, hm, rfl⟩
    obtain rfl : location = _ := by simpa [hl] using hl'
    exact ⟨name, ⟨hn, middle, hm⟩, rfl⟩

/-- The jars of a root are those that its folder `lib` holds, unless the system refuses. -/
theorem libJars_spec (h : Host) (root : Text) :
    (RefusesLib h root ∧ libJars h root = [])
    ∨ ¬ RefusesLib h root ∧ (libJars h root).Pairwise (· ≤ ·)
      ∧ ∀ path, path ∈ libJars h root ↔ IsLibJar h root path := by
  cases hf : h.isFolder (libFolder root).text with
  | error fault => exact .inl ⟨.inl ⟨fault, hf⟩, by simp [libJars, namesIn, hf]⟩
  | ok isFolder =>
    cases isFolder with
    | false =>
      have hn : ∀ path, ¬ LibEntry h root path := by
        rintro path ⟨_, _, _, ht, _⟩
        simp [hf] at ht
      have he : libJars h root = [] := by simp [libJars, namesIn, hf, filesAmong]
      refine .inr ⟨?_, by simp [he], fun path => by simp [he, IsLibJar, hn]⟩
      rintro (⟨fault, hr⟩ | ⟨path, fault, hp, -⟩)
      · simp [hf] at hr
      · exact hn path hp
    | true =>
      obtain ⟨location, hl⟩ := locate_of_isFolder hf
      set paths := ((h.files.names location).filter isJarName).map
        fun name => (libFolder root / Path.mk .here [name]).text with hpaths
      have hm : ∀ path, path ∈ paths ↔ LibEntry h root path := fun _ => libEntry_iff hf hl
      rcases filesAmong_spec h paths with ⟨files, ha, hall, hfiles⟩ | ⟨⟨fault, ha⟩, path, hp, hr⟩
      · have hj : libJars h root = files.mergeSort Text.atMost := by
          simp [libJars, namesIn, hf, hl, ← hpaths, ha]
        rw [hj]
        refine .inr ⟨?_, Text.pairwise_mergeSort files, fun path => ?_⟩
        · rintro (⟨fault, hr⟩ | ⟨path, fault, hp, hr⟩)
          · simp [hf] at hr
          · obtain ⟨found, hfound⟩ := hall path ((hm path).2 hp)
            simp [hr] at hfound
        · rw [List.mem_mergeSort, hfiles, hm, IsLibJar]
      · have hj : libJars h root = [] := by
          simp [libJars, namesIn, hf, hl, ← hpaths, ha]
        obtain ⟨fault', hr⟩ := hr
        exact .inl ⟨.inr ⟨path, fault', (hm path).1 hp, hr⟩, hj⟩

theorem libJars_eq_nil {h : Host} {root : Text}
    (hb : RefusesLib h root ∨ ∀ path, ¬ IsLibJar h root path) : libJars h root = [] := by
  rcases libJars_spec h root with ⟨-, he⟩ | ⟨hr, -, hm⟩
  · exact he
  · refine List.eq_nil_iff_forall_not_mem.2 fun path hp => ?_
    exact hb.elim hr fun hn => hn path ((hm path).1 hp)

theorem isLeast_of_libJars {h : Host} {root jar : Text} {rest : List Text}
    (hj : libJars h root = jar :: rest) :
    ¬ RefusesLib h root ∧ IsLeast {path | IsLibJar h root path} jar := by
  rcases libJars_spec h root with ⟨-, he⟩ | ⟨hr, hs, hm⟩
  · simp [he] at hj
  · rw [hj] at hs hm
    refine ⟨hr, (hm jar).1 List.mem_cons_self, fun path hp => ?_⟩
    rcases List.mem_cons.1 ((hm path).2 hp) with rfl | hin
    · exact le_rfl
    · exact List.rel_of_pairwise_cons hs hin

theorem libJars_eq_cons {h : Host} {root jar : Text} (hr : ¬ RefusesLib h root)
    (hl : IsLeast {path | IsLibJar h root path} jar) : ∃ rest, libJars h root = jar :: rest := by
  rcases libJars_spec h root with ⟨hr', -⟩ | ⟨-, -, hm⟩
  · exact absurd hr' hr
  · cases hj : libJars h root with
    | nil =>
      have := (hm jar).2 hl.1
      simp [hj] at this
    | cons first rest =>
      exact ⟨rest, by rw [(isLeast_of_libJars hj).2.unique hl]⟩

theorem exists_libChoice (h : Host) : ∀ roots : List Text, ∃ jar?, LibChoice h roots jar?
  | [] => ⟨none, .none⟩
  | root :: rest => by
    cases hj : libJars h root with
    | nil =>
      obtain ⟨jar?, hc⟩ := exists_libChoice h rest
      refine ⟨jar?, .skip ?_ hc⟩
      rcases libJars_spec h root with ⟨hr, -⟩ | ⟨-, -, hm⟩
      · exact .inl hr
      · exact .inr fun path hp => by simpa [hj] using (hm path).2 hp
    | cons jar others =>
      obtain ⟨hr, hl⟩ := isLeast_of_libJars hj
      exact ⟨some jar, .take hr hl⟩

/-! ## Sites -/

theorem site_eq {h : Host} {p : Path} (hp : ¬ p.StartsWithTilde) (origin : Origin) :
    site h origin p = .ok (seen h origin p) := by
  simp [site, absoluteSite, h.expandHome_eq hp, Except.map, seen]

theorem isName_head_of_libFolder (root name : Text) :
    ∀ first ∈ (libFolder root / Path.mk .here [name]).parts.head?, Path.IsName first := by
  intro first hf
  have hparts : (libFolder root / Path.mk .here [name]).parts
      = Path.namesOf root ++ [Text.ofString "lib"] ++ [name] := rfl
  rw [hparts, List.append_assoc] at hf
  cases hroot : Path.namesOf root with
  | nil =>
    obtain rfl : Text.ofString "lib" = first := by simpa [hroot] using hf
    exact ⟨by decide, by decide, by decide⟩
  | cons name' rest =>
    obtain rfl : name' = first := by simpa [hroot] using hf
    exact Path.isName_of_mem_namesOf (hroot ▸ List.mem_cons_self)

theorem not_startsWithTilde_jarNamed (middle : Text) :
    ¬ (Path.mk .here [jarNamed middle]).StartsWithTilde := by
  rintro ⟨-, hhead⟩
  have hc : CodePoint.ofChar 'D' = CodePoint.ofChar '~' := Option.some.inj hhead
  exact absurd hc (by decide)

theorem LibEntry.not_startsWithTilde {h : Host} {root path : Text}
    (hr : ¬ (Path.ofText root).StartsWithTilde) (he : LibEntry h root path) :
    ¬ (Path.ofText path).StartsWithTilde := by
  obtain ⟨-, name, middle, -, -, -, rfl, rfl⟩ := he
  have hlib : ¬ (libFolder root).StartsWithTilde :=
    Path.not_startsWithTilde_append hr (by decide)
  rw [Path.startsWithTilde_ofText_text (isName_head_of_libFolder root _)]
  exact Path.not_startsWithTilde_append hlib (not_startsWithTilde_jarNamed middle)

theorem LibChoice.libSites_eq {h : Host} {roots : List Text} {jar? : Option Text}
    (hc : LibChoice h roots jar?) :
    libSites h roots = jar?.toList.map fun jar => site h .workspaceLib (Path.ofText jar) := by
  induction hc with
  | none => rfl
  | skip hb _ ih =>
    rw [libSites, libJars_eq_nil hb]
    exact ih
  | take hn hl =>
    obtain ⟨rest, hj⟩ := libJars_eq_cons hn hl
    rw [libSites, hj]
    rfl

theorem LibChoice.not_startsWithTilde {h : Host} {roots : List Text} {jar? : Option Text}
    (hr : ∀ root ∈ roots, ¬ (Path.ofText root).StartsWithTilde) (hc : LibChoice h roots jar?) :
    ∀ jar ∈ jar?.toList, ¬ (Path.ofText jar).StartsWithTilde := by
  induction hc with
  | none => simp
  | skip _ _ ih => exact ih fun root hm => hr root (List.mem_cons_of_mem _ hm)
  | take _ hl => simpa using hl.1.1.not_startsWithTilde (hr _ List.mem_cons_self)

theorem LibChoice.sites_eq {h : Host} {roots : List Text} {jar? : Option Text}
    (hr : ∀ root ∈ roots, ¬ (Path.ofText root).StartsWithTilde) (hc : LibChoice h roots jar?) :
    libSites h roots
      = (jar?.toList.map fun jar => seen h .workspaceLib (Path.ofText jar)).map .ok := by
  rw [hc.libSites_eq, List.map_map]
  exact List.map_congr_left fun jar hm => site_eq (hc.not_startsWithTilde hr jar hm) _

theorem exists_overrideChoice {h : Host} {jar : Text} {p : Path}
    (hj : h.expandHome (Path.ofText (Text.strip jar)) = .ok p) (roots : List Text) :
    ∃ p?, OverrideChoice h jar roots p? := by
  by_cases hb : Text.strip jar = []
  · exact ⟨none, .blank hb⟩
  · by_cases ha : p.isAbsolute
    · exact ⟨some p, .alone hb hj (.inl ha)⟩
    · cases roots with
      | nil => exact ⟨some p, .alone hb hj (.inr rfl)⟩
      | cons root rest => exact ⟨some (Path.ofText root / p), .joined hb hj ha rfl⟩

theorem OverrideChoice.overrideSites_eq {h : Host} {jar : Text} {roots : List Text}
    {p? : Option Path} (hc : OverrideChoice h jar roots p?) :
    overrideSites h jar roots = p?.toList.map (site h .override) := by
  cases hc with
  | blank hb => simp [overrideSites, hb]
  | alone hb hj ha =>
    cases roots with
    | nil => simp [overrideSites, hb, hj]
    | cons root rest =>
      simp [overrideSites, hb, hj, Path.append_of_isAbsolute (p := Path.ofText root)
        (by simpa using ha)]
  | joined hb hj ha hroot =>
    obtain ⟨rest, rfl⟩ := List.head?_eq_some_iff.1 hroot
    simp [overrideSites, hb, hj]

theorem OverrideChoice.not_startsWithTilde {h : Host} {jar : Text} {roots : List Text} {p : Path}
    {p? : Option Path} (hr : ∀ root ∈ roots, ¬ (Path.ofText root).StartsWithTilde)
    (hj : h.expandHome (Path.ofText (Text.strip jar)) = .ok p) (hp : ¬ p.StartsWithTilde)
    (hc : OverrideChoice h jar roots p?) : ∀ q ∈ p?.toList, ¬ q.StartsWithTilde := by
  cases hc with
  | blank => simp
  | alone hb hj' =>
    obtain rfl : p = _ := by simpa [hj] using hj'
    simpa using hp
  | joined hb hj' ha hroot =>
    obtain rfl : p = _ := by simpa [hj] using hj'
    simpa using Path.not_startsWithTilde_append (hr _ (List.mem_of_mem_head? hroot)) hp

theorem OverrideChoice.sites_eq {h : Host} {jar : Text} {roots : List Text} {p : Path}
    {p? : Option Path} (hr : ∀ root ∈ roots, ¬ (Path.ofText root).StartsWithTilde)
    (hj : h.expandHome (Path.ofText (Text.strip jar)) = .ok p) (hp : ¬ p.StartsWithTilde)
    (hc : OverrideChoice h jar roots p?) :
    overrideSites h jar roots = (p?.toList.map (seen h .override)).map .ok := by
  rw [hc.overrideSites_eq, List.map_map]
  exact List.map_congr_left fun q hm => site_eq (hc.not_startsWithTilde hr hj hp q hm) _

/-! ## The candidates of a search -/

/-- The candidates among which a search looks for its first hit, in order. -/
def Candidates (h : Host) (install : Text) (config : Config) (roots : List Text)
    (C : List Site) : Prop :=
  ∃ p? jar?, OverrideChoice h config.jar roots p? ∧ LibChoice h roots jar?
    ∧ C = p?.toList.map (seen h .override)
      ++ if config.autoDetect then
          roots.map (fun root => seen h .workspaceRoot (jarIn (Path.ofText root)))
            ++ jar?.toList.map (fun jar => seen h .workspaceLib (Path.ofText jar))
            ++ [seen h .bundled (jarIn (Path.ofText install / Path.ofText "compiler"))]
        else []

theorem Candidates.sites_eq {h : Host} {install : Text} {config : Config} {roots : List Text}
    {p : Path} {C : List Site} (hr : ∀ root ∈ roots, ¬ (Path.ofText root).StartsWithTilde)
    (hi : ¬ (Path.ofText install).StartsWithTilde)
    (hj : h.expandHome (Path.ofText (Text.strip config.jar)) = .ok p) (hp : ¬ p.StartsWithTilde)
    (hc : Candidates h install config roots C) :
    sites h (.str install) config roots = C.map .ok := by
  obtain ⟨p?, jar?, ho, hl, rfl⟩ := hc
  have hname : ¬ (Path.ofText artifactName).StartsWithTilde := by decide
  have hroots : rootSites h roots
      = (roots.map fun root => seen h .workspaceRoot (jarIn (Path.ofText root))).map .ok := by
    rw [rootSites, List.map_map]
    refine List.map_congr_left fun root hm => ?_
    exact site_eq (Path.not_startsWithTilde_append (hr root hm) hname) _
  have hbundled : bundledSites h (.str install)
      = [.ok (seen h .bundled (jarIn (Path.ofText install / Path.ofText "compiler")))] := by
    have hfolder : ¬ (Path.ofText install / Path.ofText "compiler").StartsWithTilde :=
      Path.not_startsWithTilde_append hi (by decide)
    have hn := Path.not_startsWithTilde_append hfolder hname
    simp [bundledSites, site_eq hn, jarIn]
  cases ha : config.autoDetect <;>
    simp [sites, rules, ha, sitesOf, ho.sites_eq hr hj hp, hl.sites_eq hr, hroots, hbundled]

theorem textOr_str (t : Text) : (Value.str t).textOr "" = t := by
  cases t <;> rfl

theorem cleanRoots_eq (roots : List Text) :
    cleanRoots (.list (roots.map .str)) = .ok (usable roots) := by
  cases roots with
  | nil => rfl
  | cons root rest =>
    simp [cleanRoots, Value.truthy, Value.items?, textOr_str, usable, Function.comp_def]

theorem not_startsWithTilde_of_usable {roots : List Text} {root : Text}
    (hr : ∀ root ∈ roots, ¬ (Path.ofText (Text.strip root)).StartsWithTilde)
    (hm : root ∈ usable roots) : ¬ (Path.ofText root).StartsWithTilde := by
  simp only [usable, List.mem_filter, List.mem_map] at hm
  obtain ⟨⟨raw, hraw, rfl⟩, -⟩ := hm
  exact hr raw hraw

/-! ## The first hit -/

/-- What a search comes to that asks its probe for some candidates in order, up to the first that
is there. It adds a line for each to a record. -/
inductive FirstHit (config : Config) (probe : Probe) (record : List Text) :
    List Site → Found → Prop
  | missed {C : List Site} : (∀ s ∈ C, probe s.path ≠ .ok true) →
      FirstHit config probe record C
        ⟨.ok none, record ++ C.map (probeLine · false), C.map Site.path⟩
  | hit {missed rest : List Site} {s : Site} : (∀ m ∈ missed, probe m.path ≠ .ok true) →
      probe s.path = .ok true → FirstHit config probe record (missed ++ s :: rest)
        ⟨.ok (some ⟨s.path, s.origin, config.java⟩),
          record ++ (missed.map (probeLine · false) ++ [probeLine s true]),
          missed.map Site.path ++ [s.path]⟩

theorem finds_iff {probe : Probe} {path : Text} : finds probe path ↔ probe path = .ok true := by
  unfold finds
  split <;> simp [*]

variable {config : Config} {probe : Probe} {record : List Text}

theorem FirstHit.cons {s : Site} {C : List Site} {found : Found}
    (hs : probe s.path ≠ .ok true)
    (hf : FirstHit config probe (record ++ [probeLine s false]) C found) :
    FirstHit config probe record (s :: C) { found with probed := s.path :: found.probed } := by
  cases hf with
  | missed hm =>
    have hall : ∀ m ∈ s :: C, probe m.path ≠ .ok true := by simpa [hs] using hm
    have h : FirstHit config probe record (s :: C) _ := .missed hall
    simpa using h
  | @hit missed rest s' hm hh =>
    have hall : ∀ m ∈ s :: missed, probe m.path ≠ .ok true := by simpa [hs] using hm
    have h : FirstHit config probe record (s :: missed ++ s' :: rest) _ := .hit hall hh
    simpa using h

theorem firstHit_found {s : Site} (hs : probe s.path = .ok true)
    (rest : List (Except PathFault Site)) : firstHit config probe (.ok s :: rest)
      = ⟨.ok (some (atSite config s)), [probeLine s true], [s.path]⟩ := by
  simp [firstHit, finds_iff, hs]

theorem firstHit_missing {s : Site} (hs : probe s.path ≠ .ok true)
    (rest : List (Except PathFault Site)) : firstHit config probe (.ok s :: rest)
      = ⟨(firstHit config probe rest).outcome,
        probeLine s false :: (firstHit config probe rest).lines,
        s.path :: (firstHit config probe rest).probed⟩ := by
  simp [firstHit, finds_iff, hs]

theorem firstHit_spec (C : List Site) (record : List Text) :
    FirstHit config probe record C
      { firstHit config probe (C.map .ok) with
        lines := record ++ (firstHit config probe (C.map .ok)).lines } := by
  induction C generalizing record with
  | nil => exact .missed (by simp)
  | cons s rest ih =>
    rw [List.map_cons]
    by_cases hs : probe s.path = .ok true
    · rw [firstHit_found hs]
      have h : FirstHit config probe record ([] ++ s :: rest) _ := .hit (by simp) hs
      exact h
    · rw [firstHit_missing hs]
      simpa using (ih (record ++ [probeLine s false])).cons hs

/-! ## A search in steps -/

namespace Search

/-- The search comes to an outcome, with its record, when it goes on in surroundings that do not
change. -/
inductive EndsIn (h : Host) (install : Value) (probe : Probe) :
    Search → Except Failure (Option Toolchain) × List Text → Prop
  | last {s : Search} {result : Except Failure (Option Toolchain) × List Text} :
      s.step h install probe = .inr result → EndsIn h install probe s result
  | next {s s' : Search} {result : Except Failure (Option Toolchain) × List Text} :
      s.step h install probe = .inl s' → EndsIn h install probe s' result →
      EndsIn h install probe s result

/-- The first hit among the sites that a search has yet to probe. -/
def ahead (h : Host) (install : Value) (probe : Probe) (s : Search) : Found :=
  firstHit s.config probe (s.pending ++ s.rules.flatMap (sitesOf h install s.config s.roots))

variable {h : Host} {install : Value}

/-- A search ends in what is ahead if it does so once the present rule is through. -/
theorem endsIn_pending {config : Config} {roots : List Text} {rules : List Origin}
    (hrules : ∀ lines, EndsIn h install probe ⟨config, roots, [], rules, lines⟩
      ((ahead h install probe ⟨config, roots, [], rules, lines⟩).outcome,
        lines ++ (ahead h install probe ⟨config, roots, [], rules, lines⟩).lines)) :
    ∀ pending lines, EndsIn h install probe ⟨config, roots, pending, rules, lines⟩
      ((ahead h install probe ⟨config, roots, pending, rules, lines⟩).outcome,
        lines ++ (ahead h install probe ⟨config, roots, pending, rules, lines⟩).lines)
  | [], lines => hrules lines
  | .error fault :: rest, lines => .last (by simp [step, ahead, firstHit])
  | .ok s :: rest, lines => by
    by_cases hs : probe s.path = .ok true
    · exact .last (by simp [step, ahead, firstHit_found hs, finds_iff, hs])
    · have ih := endsIn_pending hrules rest (lines ++ [probeLine s false])
      have hstep : step h install probe ⟨config, roots, .ok s :: rest, rules, lines⟩
          = .inl ⟨config, roots, rest, rules, lines ++ [probeLine s false]⟩ := by
        simp [step, finds_iff, hs]
      exact .next hstep (by simpa [ahead, firstHit_missing hs] using ih)

theorem endsIn_ahead (config : Config) (roots : List Text) :
    ∀ rules lines, EndsIn h install probe ⟨config, roots, [], rules, lines⟩
      ((ahead h install probe ⟨config, roots, [], rules, lines⟩).outcome,
        lines ++ (ahead h install probe ⟨config, roots, [], rules, lines⟩).lines)
  | [], lines => .last (by simp [step, ahead, firstHit])
  | rule :: rules, lines => by
    refine .next rfl ?_
    have h := endsIn_pending (endsIn_ahead config roots rules)
      (sitesOf h install config roots rule) lines
    simpa [ahead] using h

end Search

/-! ## The search -/

/-- A tilde at the start of the configured jar can be filled in. -/
def Expandable (h : Host) (jar : Text) : Prop :=
  ∃ p, h.expandHome (Path.ofText (Text.strip jar)) = .ok p ∧ ¬ p.StartsWithTilde

theorem search_eq (h : Host) (install : Value) (config : Config) (roots : List Text)
    (probe : Probe) : search h install config (.list (roots.map .str)) probe
      = { firstHit config probe (sites h install config (usable roots)) with
          lines := openingLines config
            ++ (firstHit config probe (sites h install config (usable roots))).lines } := by
  simp [search, cleanRoots_eq]

/-- A search has candidates, asks its probe for them in order up to the first that is there, and
returns that one with its rule and the configured program, or nothing. It ends alike when it goes
step by step and nothing changes meanwhile. -/
theorem search_first_hit (h : Host) (install : Text) (config : Config) (roots : List Text)
    (probe : Probe) (hr : ∀ root ∈ roots, ¬ (Path.ofText (Text.strip root)).StartsWithTilde)
    (hi : ¬ (Path.ofText install).StartsWithTilde) (hj : Expandable h config.jar) :
    (∃ C, Candidates h install config (usable roots) C)
    ∧ (∀ C, Candidates h install config (usable roots) C →
      FirstHit config probe (openingLines config) C
        (search h (.str install) config (.list (roots.map .str)) probe))
    ∧ (Search.start config (usable roots)).EndsIn h (.str install) probe
      ((search h (.str install) config (.list (roots.map .str)) probe).outcome,
        (search h (.str install) config (.list (roots.map .str)) probe).lines) := by
  obtain ⟨p, hp, hn⟩ := hj
  rw [search_eq]
  refine ⟨?_, fun C hc => ?_, ?_⟩
  · obtain ⟨p?, ho⟩ := exists_overrideChoice hp (usable roots)
    obtain ⟨jar?, hl⟩ := exists_libChoice h (usable roots)
    exact ⟨_, p?, jar?, ho, hl, rfl⟩
  · rw [hc.sites_eq (fun root => not_startsWithTilde_of_usable hr) hi hp hn]
    exact firstHit_spec C (openingLines config)
  · exact Search.endsIn_ahead config (usable roots) (rules config) (openingLines config)

/-- A workspace of two roots: the first has a library, the second the jar itself. -/
def twoRoots : Host where
  files := ⟨[(["w"], .folder), (["w", "a"], .folder), (["w", "a", "lib"], .folder),
    (["w", "a", "lib", "DhrLang-1.jar"], .file [] false), (["w", "b"], .folder),
    (["w", "b", "DhrLang.jar"], .file [] false)]⟩
  cwd := ["w"]
  home := "/home/dhr"
  homes := []
  programFolders := []
  settingsFolder := none

def homeJar : Config := ⟨"java", "~/DhrLang.jar", true⟩

theorem later_root_before_library :
    (∀ root ∈ ([" a", "", "b"] : List Text), ¬ (Path.ofText (Text.strip root)).StartsWithTilde)
    ∧ ¬ (Path.ofText "/opt").StartsWithTilde ∧ Expandable twoRoots homeJar.jar
    ∧ (∃ C, Candidates twoRoots "/opt" homeJar (usable [" a", "", "b"]) C
      ∧ FirstHit homeJar (fun path => .ok (fileAt twoRoots path)) (openingLines homeJar) C
        (search twoRoots (.str "/opt") homeJar (.list ([" a", "", "b"].map .str))
          fun path => .ok (fileAt twoRoots path)))
    ∧ (search twoRoots (.str "/opt") homeJar (.list ([" a", "", "b"].map .str))
        fun path => .ok (fileAt twoRoots path)).outcome
      = .ok (some ⟨"/w/b/DhrLang.jar", .workspaceRoot, "java"⟩) := by
  have hr : ∀ root ∈ ([" a", "", "b"] : List Text),
      ¬ (Path.ofText (Text.strip root)).StartsWithTilde := by decide
  have hj : Expandable twoRoots homeJar.jar := ⟨Path.ofText "/home/dhr/DhrLang.jar", by decide⟩
  obtain ⟨⟨C, hc⟩, hf, -⟩ := search_first_hit twoRoots "/opt" homeJar [" a", "", "b"]
    (fun path => .ok (fileAt twoRoots path)) hr (by decide) hj
  exact ⟨hr, by decide, hj, ⟨C, hc, hf C hc⟩, rfl⟩

/-! ## A library that is passed over -/

def parcel : Text := List.replicate 59 (CodePoint.ofChar '📦')

/-- A root of 4076 bytes: in its library the path of `DhrLang-1.jar` is just short enough for the
system, and that of `DhrLang-100.jar` is too long. -/
def deepRoot : Text := Text.join "/../" (List.replicate 17 parcel)

def deepHost : Host where
  files := ⟨[([parcel], .folder), ([parcel, "lib"], .folder),
    ([parcel, "lib", "DhrLang-1.jar"], .file [] false),
    ([parcel, "lib", "DhrLang-100.jar"], .file [] false)]⟩
  cwd := []
  home := "/home/dhr"
  homes := []
  programFolders := []
  settingsFolder := none

def detecting : Config := ⟨"java", "", true⟩

def deepJar (middle : Text) : Text := (libFolder deepRoot / Path.mk .here [jarNamed middle]).text

/-- The library and its first jar are found, and the path of the second is refused. -/
theorem deepHost_answers :
    deepHost.locate (libFolder deepRoot).text = .ok (.there [parcel, "lib"])
    ∧ deepHost.locate (deepJar "1") = .ok (.there [parcel, "lib", jarNamed "1"])
    ∧ deepHost.isFile (deepJar "100") = .error (.os ⟨.nameTooLong, deepJar "100"⟩) := by
  decide +kernel

theorem deepHost_libEntry {middle : Text}
    (hn : jarNamed middle ∈ deepHost.files.names [parcel, "lib"]) :
    LibEntry deepHost deepRoot (deepJar middle) := by
  have hg : deepHost.files.get? [parcel, "lib"] = some .folder := by
    simp [deepHost, FileSystem.get?]
  have hf : deepHost.isFolder (libFolder deepRoot).text = .ok true :=
    holds_of_locate deepHost_answers.1 hg Node.isFolder
  exact ⟨[parcel, "lib"], jarNamed middle, middle, hf, deepHost_answers.1, hn, rfl, rfl⟩

theorem deepHost_candidates : Candidates deepHost "/opt" detecting [deepRoot]
    [seen deepHost .workspaceRoot (jarIn (Path.ofText deepRoot)),
      seen deepHost .bundled (jarIn (Path.ofText "/opt" / Path.ofText "compiler"))] := by
  have hr : RefusesLib deepHost deepRoot :=
    .inr ⟨deepJar "100", _, deepHost_libEntry (by decide), deepHost_answers.2.2⟩
  exact ⟨none, none, .blank rfl, .skip (.inl hr) .none, rfl⟩

/-- The library of a root holds a jar and is not probed, for one path in it is refused. A root that
shows a tilde only when its path is read is probed as it stands, not as an absolute path. -/
theorem unprobed_library_and_tilde :
    IsLibJar deepHost deepRoot (deepJar "1")
    ∧ (search deepHost (.str "/opt") detecting (.list [.str deepRoot]) fun _ => .ok false).probed
      = [(deepHost.absolute (jarIn (Path.ofText deepRoot))).text,
        Text.ofString "/opt/compiler/DhrLang.jar"]
    ∧ (Text.ofString "./~nosuchuser").head? ≠ some (CodePoint.ofChar '~')
    ∧ (search deepHost (.str "/opt") detecting (.list [.str "./~nosuchuser"])
        fun _ => .ok false).probed
      = [Text.ofString "~nosuchuser/DhrLang.jar", Text.ofString "/opt/compiler/DhrLang.jar"] := by
  refine ⟨⟨deepHost_libEntry (by decide), ?_⟩, ?_, by decide, by decide +kernel⟩
  · have hg : deepHost.files.get? [parcel, "lib", jarNamed "1"] = some (.file [] false) := by
      simp [deepHost, FileSystem.get?, show jarNamed "1" = Text.ofString "DhrLang-1.jar" from rfl]
    exact holds_of_locate deepHost_answers.2.1 hg fun node => !node.isFolder
  · have hu : usable [deepRoot] = [deepRoot] := by decide +kernel
    have ht : ∀ root ∈ [deepRoot], ¬ (Path.ofText root).StartsWithTilde := by decide
    have hs := deepHost_candidates.sites_eq ht (by decide) rfl (by decide)
    have hf := search_eq deepHost (.str "/opt") detecting [deepRoot] fun _ => .ok false
    rw [hu, hs] at hf
    rw [show [Value.str deepRoot] = [deepRoot].map Value.str from rfl, hf]
    rfl

end Toolchain

end DhrWorkbench
