import DhrWorkbench.Language
import DhrWorkbench.Proofs.Blanks
import DhrWorkbench.Proofs.PathTexts

/-!
# File names of the language

Two rules tell a file of the language by its extension. Routing drops the blanks around a path and
looks at its last name, whatever slashes and single dots follow it; the language pack looks at what
follows the last slash of the text as it stands. Either rule wants a stem before the extension, but
they do not count the same as one (`isDhrPath_iff`, `packAccepts_iff`). So they agree, except on a
stem of blanks alone, which the pack accepts, and on a stem of dots alone or a text that goes on
after the name, which are routed all the same (`accepted_iff_routed_iff`).
-/

namespace DhrWorkbench

namespace Text

/-! ## Cutting at the last separator -/

section Cut

variable {c : CodePoint} {f s t : Text}

theorem notMem_afterLast (c : CodePoint) (t : Text) : c ∉ afterLast c t := by
  intro hc
  simpa using List.mem_takeWhile_imp (List.mem_reverse.1 hc)

theorem throughLast_append_afterLast (c : CodePoint) (t : Text) :
    throughLast c t ++ afterLast c t = t := by
  rw [throughLast, afterLast, ← List.reverse_append, List.takeWhile_append_dropWhile,
    List.reverse_reverse]

theorem throughLast_of_notMem (h : c ∉ t) : throughLast c t = [] := by
  have hall : ∀ a ∈ t.reverse, decide (a ≠ c) := by
    intro a ha
    exact decide_eq_true fun heq => h (heq ▸ List.mem_reverse.1 ha)
  rw [throughLast, List.dropWhile_eq_nil_iff.2 hall, List.reverse_nil]

theorem throughLast_ends (c : CodePoint) (t : Text) :
    throughLast c t = [] ∨ (throughLast c t).getLast? = some c := by
  have hhead := List.head?_dropWhile_not (· ≠ c) t.reverse
  rw [throughLast, List.getLast?_reverse]
  cases hdrop : t.reverse.dropWhile (· ≠ c) with
  | nil => exact .inl rfl
  | cons a rest =>
    rw [hdrop] at hhead
    exact .inr (congrArg some (by simpa using hhead))

/-- A text is cut in one way only into a part that ends in a separator, if it is not empty, and a
part without one. -/
theorem cut_iff : (t = f ++ s ∧ (f = [] ∨ f.getLast? = some c) ∧ c ∉ s)
    ↔ f = throughLast c t ∧ s = afterLast c t := by
  constructor
  · rintro ⟨rfl, hf, hs⟩
    have hthrough : throughLast c (f ++ s) = f := by
      obtain rfl | hlast := hf
      · exact throughLast_of_notMem hs
      · obtain ⟨f, rfl⟩ := List.getLast?_eq_some_iff.1 hlast
        rw [List.append_assoc]
        exact throughLast_append f hs
    have hcut := throughLast_append_afterLast c (f ++ s)
    rw [hthrough] at hcut
    exact ⟨hthrough.symm, (List.append_cancel_left hcut).symm⟩
  · rintro ⟨rfl, rfl⟩
    exact ⟨(throughLast_append_afterLast c t).symm, throughLast_ends c t, notMem_afterLast c t⟩

/-- A text has no separator, or it is cut at the last one. -/
theorem cut_cases (c : CodePoint) (t : Text) : c ∉ t ∨ ∃ f s, t = f ++ c :: s ∧ c ∉ s := by
  obtain ⟨hcut, hends, hnot⟩ := (@cut_iff c _ _ t).2 ⟨rfl, rfl⟩
  obtain hnil | hlast := hends
  · rw [hnil, List.nil_append] at hcut
    exact .inl (hcut ▸ hnot)
  · obtain ⟨f, hf⟩ := List.getLast?_eq_some_iff.1 hlast
    rw [hf, List.append_assoc] at hcut
    exact .inr ⟨f, _, hcut, hnot⟩

end Cut

/-! ## Letters by their lower case -/

set_option maxRecDepth 2000 in
theorem capitalRuns_bounded : ∀ run ∈ capitalRuns, 0 < run.stride ∧ 0 ≤ run.first + run.shift
    ∧ (run.first + run.stride * run.count : ℕ) + run.shift ≤ 0x110000 := by
  decide

set_option maxRecDepth 2000 in
/-- No run but that of the ASCII capitals leads to one of the three letters. -/
theorem capitalRuns_letters : ∀ run ∈ capitalRuns, ∀ n ∈ ([100, 104, 114] : List ℕ),
    run.covers ((n : ℤ) - run.shift).toNat → ((n : ℤ) - run.shift).toNat = n - 32 := by
  decide

theorem CapitalRun.lt_of_covers {run : CapitalRun} {n : ℕ} (h : run.covers n)
    (hstride : 0 < run.stride) : run.first ≤ n ∧ n < run.first + run.stride * run.count := by
  simp only [CapitalRun.covers, Bool.and_eq_true, decide_eq_true_eq] at h
  obtain ⟨⟨hle, -⟩, hlt⟩ := h
  rw [Nat.div_lt_iff_lt_mul hstride, Nat.mul_comm] at hlt
  omega

theorem lowerCodePoint_cases (c : CodePoint) : lowerCodePoint c = c
    ∨ ∃ run ∈ capitalRuns, run.covers c.val ∧ ((lowerCodePoint c).val : ℤ) = c.val + run.shift := by
  unfold lowerCodePoint
  cases hfind : capitalRuns.find? (·.covers c.val) with
  | none => exact .inl rfl
  | some run =>
    have hmem := List.mem_of_find?_eq_some hfind
    have hcovers : run.covers c.val := by simpa using List.find?_some hfind
    obtain ⟨hstride, hlow, hhigh⟩ := capitalRuns_bounded run hmem
    obtain ⟨hle, hlt⟩ := CapitalRun.lt_of_covers hcovers hstride
    refine .inr ⟨run, hmem, hcovers, ?_⟩
    have hval : (CodePoint.ofNat (c.val + run.shift).toNat).val
        = (c.val + run.shift).toNat % 0x110000 := rfl
    simp only [hval]
    omega

theorem eq_of_lowerCodePoint {c : CodePoint} {n : ℕ} (hn : n ∈ [100, 104, 114])
    (h : (lowerCodePoint c).val = n) : c.val = n ∨ c.val = n - 32 := by
  obtain hsame | ⟨run, hmem, hcovers, hval⟩ := lowerCodePoint_cases c
  · rw [hsame] at h
    exact .inl h
  · have hc : ((n : ℤ) - run.shift).toNat = c.val := by omega
    have hletter := capitalRuns_letters run hmem n hn
    rw [hc] at hletter
    exact .inr (hletter hcovers)

/-- A text whose lower case has neither a dotted `i` nor a sigma is lowered point by point. -/
theorem map_lowerCodePoint : ∀ {before t : Text},
    (∀ c ∈ lowerAfter before t, c.val ≠ 0x69 ∧ c.val ≠ 0x3C2 ∧ c.val ≠ 0x3C3) →
    lowerAfter before t = t.map lowerCodePoint
  | _, [], _ => rfl
  | before, c :: rest, h => by
    rw [lowerAfter] at h ⊢
    rw [List.forall_mem_append] at h
    obtain ⟨hfirst, hrest⟩ := h
    rw [map_lowerCodePoint hrest]
    split_ifs at hfirst ⊢ with hi hsigma hfinal
    · exact absurd rfl (hfirst _ List.mem_cons_self).1
    · exact absurd rfl (hfirst _ List.mem_cons_self).2.1
    · exact absurd rfl (hfirst _ List.mem_cons_self).2.2
    · rfl

end Text

namespace Path

/-! ## The last name of a text -/

/-- Texts with a slash before each. -/
def afterSlashes (pieces : List Text) : Text := pieces.flatMap (CodePoint.ofChar '/' :: ·)

/-- A piece between slashes that is no name. -/
def IsDropped (piece : Text) : Prop := piece = [] ∨ piece = Text.ofString "."

theorem namesOf_of_notMem {t : Text} (h : CodePoint.ofChar '/' ∉ t) :
    (IsDropped t ∧ namesOf t = []) ∨ (IsName t ∧ namesOf t = [t]) := by
  have hsplit : Text.splitOn '/' t = [t] := by
    rw [Text.splitOn_eq, List.splitOn_eq_singleton h]
  rw [namesOf, hsplit]
  by_cases hdropped : IsDropped t
  · refine .inl ⟨hdropped, ?_⟩
    obtain rfl | rfl := hdropped <;> rfl
  · obtain ⟨hne, hdot⟩ := not_or.1 hdropped
    exact .inr ⟨⟨hne, hdot, h⟩, by simp [hne, hdot]⟩

theorem namesOf_afterSlashes : ∀ {pieces : List Text} (t : Text),
    (∀ piece ∈ pieces, IsDropped piece) → namesOf (t ++ afterSlashes pieces) = namesOf t
  | [], t, _ => by simp [afterSlashes]
  | piece :: rest, t, h => by
    obtain ⟨hpiece, hrest⟩ := List.forall_mem_cons.1 h
    have hnames : namesOf piece = [] := by obtain rfl | rfl := hpiece <;> rfl
    have happ : t ++ afterSlashes (piece :: rest)
        = (t ++ CodePoint.ofChar '/' :: piece) ++ afterSlashes rest := by
      simp [afterSlashes]
    rw [happ, namesOf_afterSlashes _ hrest, namesOf_append_slash, hnames, List.append_nil]

/-- The last name of a text stands behind a slash or at the start, and after it come slashes with
nothing that is a name. -/
theorem exists_of_name {n : Text} (hn : n ≠ []) (t : Text) (h : (ofText t).name = n) :
    ∃ folder pieces, t = folder ++ (n ++ afterSlashes pieces)
      ∧ (folder = [] ∨ folder.getLast? = some (CodePoint.ofChar '/')) ∧ IsName n
      ∧ ∀ piece ∈ pieces, IsDropped piece := by
  obtain hslash | ⟨folder, base, heq, hslash⟩ := Text.cut_cases (CodePoint.ofChar '/') t
  · obtain ⟨-, hnames⟩ | ⟨hbase, hnames⟩ := namesOf_of_notMem hslash
    · simp only [name, ofText, hnames] at h
      exact absurd h.symm hn
    · obtain rfl : t = n := by simpa [name, ofText, hnames] using h
      exact ⟨[], [], by simp [afterSlashes], .inl rfl, hbase, by simp⟩
  · have hnames := namesOf_append_slash folder base
    obtain ⟨hdropped, hnone⟩ | ⟨hbase, hone⟩ := namesOf_of_notMem hslash
    · have hname : (ofText folder).name = n := by
        simpa [name, ofText, heq, hnames, hnone] using h
      obtain ⟨outer, pieces, hfolder, houter, hisName, hpieces⟩ := exists_of_name hn folder hname
      refine ⟨outer, pieces ++ [base], by simp [heq, hfolder, afterSlashes], houter, hisName, ?_⟩
      exact List.forall_mem_append.2 ⟨hpieces, List.forall_mem_singleton.2 hdropped⟩
    · obtain rfl : base = n := by simpa [name, ofText, heq, hnames, hone] using h
      exact ⟨folder ++ [CodePoint.ofChar '/'], [], by simp [heq, afterSlashes], .inr (by simp),
        hbase, by simp⟩
termination_by t.length
decreasing_by
  rw [heq, List.length_append, List.length_cons]
  omega

theorem name_ofText {folder n : Text} {pieces : List Text}
    (hfolder : folder = [] ∨ folder.getLast? = some (CodePoint.ofChar '/')) (hn : IsName n)
    (hpieces : ∀ piece ∈ pieces, IsDropped piece) :
    (ofText (folder ++ (n ++ afterSlashes pieces))).name = n := by
  have hnames : namesOf n = [n] := by
    obtain ⟨hdropped, -⟩ | ⟨-, hone⟩ := namesOf_of_notMem hn.2.2
    · exact absurd hdropped (not_or.2 ⟨hn.1, hn.2.1⟩)
    · exact hone
  have hkept : namesOf (folder ++ (n ++ afterSlashes pieces)) = namesOf (folder ++ n) := by
    rw [← List.append_assoc, namesOf_afterSlashes _ hpieces]
  change (namesOf (folder ++ (n ++ afterSlashes pieces))).getLastD [] = n
  rw [hkept]
  obtain rfl | hlast := hfolder
  · rw [List.nil_append, hnames]
    rfl
  · obtain ⟨outer, rfl⟩ := List.getLast?_eq_some_iff.1 hlast
    rw [List.append_assoc, List.singleton_append, namesOf_append_slash, hnames,
      List.getLastD_concat]

end Path

namespace Language

/-! ## The extension -/

/-- The extension of the language, with each letter small or capital. -/
def IsExtension (e : Text) : Prop := ∃ d h r : CodePoint, e = [CodePoint.ofChar '.', d, h, r]
  ∧ (d = CodePoint.ofChar 'd' ∨ d = CodePoint.ofChar 'D')
  ∧ (h = CodePoint.ofChar 'h' ∨ h = CodePoint.ofChar 'H')
  ∧ (r = CodePoint.ofChar 'r' ∨ r = CodePoint.ofChar 'R')

theorem dhr_eq : Text.ofString ".dhr" = [CodePoint.ofChar '.', CodePoint.ofChar 'd',
    CodePoint.ofChar 'h', CodePoint.ofChar 'r'] := rfl

/-- A dot with something behind it is the extension when its lower case is. -/
theorem lower_eq_iff {t : Text} :
    Text.lower (CodePoint.ofChar '.' :: t) = Text.ofString ".dhr"
      ↔ IsExtension (CodePoint.ofChar '.' :: t) := by
  constructor
  · intro hlower
    have hplain : ∀ c ∈ Text.ofString ".dhr", c.val ≠ 0x69 ∧ c.val ≠ 0x3C2 ∧ c.val ≠ 0x3C3 := by
      rw [dhr_eq]
      refine List.forall_mem_cons.2 ⟨by decide, List.forall_mem_cons.2 ⟨by decide,
        List.forall_mem_cons.2 ⟨by decide, List.forall_mem_singleton.2 (by decide)⟩⟩⟩
    rw [← hlower] at hplain
    rw [Text.lower, Text.map_lowerCodePoint hplain, List.map_cons, dhr_eq] at hlower
    obtain ⟨-, htail⟩ := List.cons_eq_cons.1 hlower
    obtain ⟨d, t, rfl, hd, htail⟩ := List.map_eq_cons_iff.1 htail
    obtain ⟨h, t, rfl, hh, htail⟩ := List.map_eq_cons_iff.1 htail
    obtain ⟨r, t, rfl, hr, htail⟩ := List.map_eq_cons_iff.1 htail
    obtain rfl := List.map_eq_nil_iff.1 htail
    refine ⟨d, h, r, rfl, ?_, ?_, ?_⟩
    · exact (@Text.eq_of_lowerCodePoint _ 100 (by decide) (congrArg Fin.val hd)).imp Fin.ext Fin.ext
    · exact (@Text.eq_of_lowerCodePoint _ 104 (by decide) (congrArg Fin.val hh)).imp Fin.ext Fin.ext
    · exact (@Text.eq_of_lowerCodePoint _ 114 (by decide) (congrArg Fin.val hr)).imp Fin.ext Fin.ext
  · rintro ⟨d, h, r, heq, hd, hh, hr⟩
    rw [heq]
    rcases hd with rfl | rfl <;> rcases hh with rfl | rfl <;> rcases hr with rfl | rfl <;>
      decide

namespace IsExtension

variable {e : Text}

theorem notMem_slash (h : IsExtension e) : CodePoint.ofChar '/' ∉ e := by
  obtain ⟨d, h, r, rfl, hd, hh, hr⟩ := h
  rcases hd with rfl | rfl <;> rcases hh with rfl | rfl <;> rcases hr with rfl | rfl <;> decide

theorem exists_tail (h : IsExtension e) :
    ∃ t, e = CodePoint.ofChar '.' :: t ∧ t ≠ [] ∧ CodePoint.ofChar '.' ∉ t := by
  obtain ⟨d, h, r, rfl, hd, hh, hr⟩ := h
  refine ⟨[d, h, r], rfl, by simp, ?_⟩
  rcases hd with rfl | rfl <;> rcases hh with rfl | rfl <;> rcases hr with rfl | rfl <;> decide

/-- The extension ends in a letter. -/
theorem exists_getLast (h : IsExtension e) : ∃ r, e.getLast? = some r ∧ Text.isBlank r = false
    ∧ r ≠ CodePoint.ofChar '/' ∧ r ≠ CodePoint.ofChar '.' := by
  obtain ⟨d, h, r, rfl, -, -, hr⟩ := h
  refine ⟨r, rfl, ?_⟩
  rcases hr with rfl | rfl <;> decide

theorem length_eq (h : IsExtension e) : e.length = 4 := by
  obtain ⟨d, h, r, rfl, -⟩ := h
  rfl

end IsExtension

/-- A name is a stem and the extension just if it is so when it is cut before its last dot. -/
theorem exists_stem_iff {n : Text} {P : Text → Prop} :
    (∃ stem e, n = stem ++ e ∧ IsExtension e ∧ P stem)
      ↔ IsExtension (CodePoint.ofChar '.' :: Text.afterLast '.' n) ∧ Text.throughLast '.' n ≠ []
        ∧ P (Text.throughLast '.' n).dropLast := by
  constructor
  · rintro ⟨stem, e, rfl, he, hP⟩
    obtain ⟨t, rfl, -, hdot⟩ := he.exists_tail
    obtain ⟨hthrough, hafter⟩ := (@Text.cut_iff '.' (stem ++ [CodePoint.ofChar '.']) t
      (stem ++ CodePoint.ofChar '.' :: t)).1 ⟨by simp, by simp, hdot⟩
    rw [← hthrough, ← hafter]
    exact ⟨he, by simp, by simpa using hP⟩
  · rintro ⟨he, hne, hP⟩
    refine ⟨_, _, ?_, he, hP⟩
    have hlast := (Text.throughLast_ends '.' n).resolve_left hne
    have hcut := Text.throughLast_append_afterLast '.' n
    obtain ⟨stem, hstem⟩ := List.getLast?_eq_some_iff.1 hlast
    rw [hstem] at hcut ⊢
    simpa using hcut.symm

theorem not_lower_nil : Text.lower [] ≠ Text.ofString ".dhr" := by decide

theorem lower_extensionText_iff {t : Text} :
    Text.lower (Path.extensionText t) = Text.ofString ".dhr"
      ↔ ∃ stem e, Text.afterLast '/' t = stem ++ e ∧ IsExtension e
        ∧ ∃ c ∈ stem, c ≠ CodePoint.ofChar '.' := by
  rw [exists_stem_iff, Path.extensionText]
  split_ifs with hany
  · rw [lower_eq_iff]
    simp only [List.any_eq_true, decide_eq_true_eq] at hany
    refine ⟨fun he => ⟨he, ?_, hany⟩, fun h => h.1⟩
    rintro hnil
    simp [hnil] at hany
  · refine iff_of_false not_lower_nil fun h => hany ?_
    simpa using h.2.2

theorem lower_extension_iff {p : Path} : Text.lower p.extension = Text.ofString ".dhr"
    ↔ ∃ stem e, p.name = stem ++ e ∧ IsExtension e ∧ stem ≠ [] := by
  rw [exists_stem_iff, Path.extension]
  have hlength : (Text.throughLast '.' p.name).dropLast ≠ []
      ↔ 2 ≤ (Text.throughLast '.' p.name).length := by
    rw [← List.length_pos_iff, List.length_dropLast]
    omega
  rw [hlength]
  split_ifs with hstem
  · rw [lower_eq_iff]
    refine ⟨fun he => ⟨he, ?_, hstem.1⟩, fun h => h.1⟩
    rintro hnil
    simp [hnil] at hstem
  · refine iff_of_false not_lower_nil fun h => hstem ⟨h.2.2, ?_⟩
    rintro hnil
    obtain ⟨t, ht, hne, -⟩ := h.1.exists_tail
    rw [hnil] at ht
    exact hne (by simpa using ht.symm)

/-! ## The two rules -/

/-- What may stand behind the last name of a path and leave it so: slashes with nothing that is a
name, then blanks. -/
def IsIdle (tail : Text) : Prop := ∃ pieces blanks, tail = Path.afterSlashes pieces ++ blanks
  ∧ (∀ piece ∈ pieces, Path.IsDropped piece) ∧ ∀ c ∈ blanks, Text.isBlank c

/-- A path has the extension, with what is idle behind it. -/
structure Spells (p folder stem e tail : Text) : Prop where
  eq : p = folder ++ (stem ++ (e ++ tail))
  ends : folder = [] ∨ folder.getLast? = some (CodePoint.ofChar '/')
  notMem : CodePoint.ofChar '/' ∉ stem
  isExtension : IsExtension e
  isIdle : IsIdle tail

/-- A path that has nothing but blanks before the extension. -/
def BlankStem (p : Text) : Prop :=
  ∃ blanks e, Spells p [] blanks e [] ∧ blanks ≠ [] ∧ ∀ c ∈ blanks, Text.isBlank c

/-- A path whose name has nothing but dots before the extension. -/
def DottedStem (p : Text) : Prop := ∃ folder dots e, Spells p folder dots e [] ∧ dots ≠ []
  ∧ ∀ c ∈ dots, c = CodePoint.ofChar '.'

/-- A path that goes on after a name with the extension. -/
def GoesOn (p : Text) : Prop := ∃ folder stem e tail, Spells p folder stem e tail ∧ tail ≠ []
  ∧ stem ≠ [] ∧ ∃ c ∈ folder ++ stem, Text.isBlank c = false

theorem IsIdle.nil : IsIdle [] := ⟨[], [], rfl, by simp, by simp⟩

theorem getLast?_afterSlashes {pieces : List Text}
    (h : ∀ piece ∈ pieces, Path.IsDropped piece) :
    ∀ c ∈ (Path.afterSlashes pieces).getLast?,
      c = CodePoint.ofChar '/' ∨ c = CodePoint.ofChar '.' := by
  intro c hc
  obtain rfl | ⟨init, piece, rfl⟩ := List.eq_nil_or_concat' pieces
  · cases hc
  · have hcut : Path.afterSlashes (init ++ [piece])
        = Path.afterSlashes init ++ CodePoint.ofChar '/' :: piece := by
      simp [Path.afterSlashes]
    rw [hcut, List.getLast?_append_of_ne_nil _ (List.cons_ne_nil _ _)] at hc
    obtain rfl | rfl := h piece (by simp)
    · exact .inl (Option.some_inj.1 hc).symm
    · exact .inr (Option.some_inj.1 hc).symm

theorem IsIdle.getLast? {tail : Text} (h : IsIdle tail) : ∀ c ∈ tail.getLast?,
    Text.isBlank c ∨ c = CodePoint.ofChar '/' ∨ c = CodePoint.ofChar '.' := by
  obtain ⟨pieces, blanks, rfl, hpieces, hblanks⟩ := h
  intro c hc
  obtain rfl | ⟨init, last, rfl⟩ := List.eq_nil_or_concat' blanks
  · rw [List.append_nil] at hc
    exact .inr (getLast?_afterSlashes hpieces c hc)
  · obtain rfl : last = c := by simpa [← List.append_assoc] using hc
    exact .inl (hblanks last (by simp))

section Spelled

variable {p folder stem e tail : Text}

/-- A path that ends in the extension does so in one way. -/
theorem Spells.unique {folder' stem' e' : Text} (h : Spells p folder stem e [])
    (h' : Spells p folder' stem' e' tail) : folder' = folder ∧ stem' = stem ∧ tail = [] := by
  obtain ⟨r, hr, hblank, hslash, hdot⟩ := h.isExtension.exists_getLast
  have hlast : p.getLast? = some r := by
    rw [h.eq, List.append_nil, ← List.append_assoc, List.getLast?_append, hr]
    rfl
  have htail : tail = [] := by
    by_contra hne
    obtain ⟨c, hc⟩ := Option.ne_none_iff_exists'.1 (mt List.getLast?_eq_none_iff.1 hne)
    have hsame : p.getLast? = some c := by
      rw [h'.eq, ← List.append_assoc, ← List.append_assoc, List.getLast?_append, hc]
      rfl
    obtain rfl : r = c := by simpa [hlast] using hsame
    obtain hb | hs | hd := h'.isIdle.getLast? r hc
    · simp [hblank] at hb
    · exact hslash hs
    · exact hdot hd
  subst htail
  have hcut : ∀ {f s x : Text}, Spells p f s x [] → f = Text.throughLast '/' p
      ∧ s ++ x = Text.afterLast '/' p := fun {f s x} hs =>
    (@Text.cut_iff '/' f (s ++ x) p).1 ⟨by simpa using hs.eq, hs.ends,
      by simpa using ⟨hs.notMem, hs.isExtension.notMem_slash⟩⟩
  obtain ⟨hfolder, hname⟩ := hcut h
  obtain ⟨hfolder', hname'⟩ := hcut h'
  have hstem := List.append_inj' (hname'.trans hname.symm)
    (h'.isExtension.length_eq.trans h.isExtension.length_eq.symm)
  exact ⟨hfolder'.trans hfolder.symm, hstem.1, rfl⟩

theorem packAccepts_iff : packAccepts p ↔ ∃ folder stem e, Spells p folder stem e []
    ∧ ∃ c ∈ stem, c ≠ CodePoint.ofChar '.' := by
  have hlower : packAccepts p ↔ Text.lower (Path.extensionText p) = Text.ofString ".dhr" := by
    simp [packAccepts, Text.isAmong, packExtensions, eq_comm]
  rw [hlower, lower_extensionText_iff]
  constructor
  · rintro ⟨stem, e, hbase, he, hstem⟩
    obtain ⟨heq, hends, hnot⟩ := (@Text.cut_iff '/' _ _ p).2 ⟨rfl, rfl⟩
    rw [hbase] at heq hnot
    refine ⟨_, stem, e, ⟨by simpa using heq, hends, ?_, he, .nil⟩, hstem⟩
    exact fun hmem => hnot (List.mem_append_left e hmem)
  · rintro ⟨folder, stem, e, h, hstem⟩
    have hnot : CodePoint.ofChar '/' ∉ stem ++ e := by
      simpa using ⟨h.notMem, h.isExtension.notMem_slash⟩
    obtain ⟨-, hbase⟩ := (@Text.cut_iff '/' folder (stem ++ e) p).1
      ⟨by simpa using h.eq, h.ends, hnot⟩
    exact ⟨stem, e, hbase.symm, h.isExtension, hstem⟩

theorem byExtension_dhrlang : ∀ entry ∈ byExtension,
    entry.2 = dhrlang ↔ entry.1 = Text.ofString ".dhr" := by
  rw [byExtension]
  exact List.forall_mem_cons.2 ⟨by decide, List.forall_mem_cons.2 ⟨by decide,
    List.forall_mem_singleton.2 (by decide)⟩⟩

theorem isDhrPath_iff_lower : isDhrPath p
    ↔ Text.lower (Path.ofText (Text.strip p)).extension = Text.ofString ".dhr" := by
  simp only [isDhrPath, ofPath, decide_eq_true_eq, List.isEmpty_iff]
  split_ifs with hnil
  · rw [hnil]
    exact iff_of_false (by decide) (by decide)
  · generalize Text.lower (Path.ofText (Text.strip p)).extension = extension
    cases hfind : byExtension.find? (·.1 = extension) with
    | none =>
      have hnone : Text.ofString ".dhr" ≠ extension := by
        simpa using List.find?_eq_none.1 hfind _ List.mem_cons_self
      exact iff_of_false (by decide) hnone.symm
    | some entry =>
      have hentry : entry.1 = extension := by simpa using List.find?_some hfind
      rw [← hentry]
      exact byExtension_dhrlang entry (List.mem_of_find?_eq_some hfind)

/-- Stripping a path with something before the extension takes the blanks off that. -/
theorem strip_spelled {lead : Text} {pieces : List Text} {blanks : Text} (he : IsExtension e)
    (hpieces : ∀ piece ∈ pieces, Path.IsDropped piece) (hblanks : ∀ c ∈ blanks, Text.isBlank c)
    (hlead : ∃ c ∈ lead, Text.isBlank c = false) :
    Text.strip (lead ++ (e ++ (Path.afterSlashes pieces ++ blanks)))
      = lead.dropWhile Text.isBlank ++ (e ++ Path.afterSlashes pieces) := by
  have hne : lead.dropWhile Text.isBlank ≠ [] := by
    intro hnil
    obtain ⟨c, hc, hblank⟩ := hlead
    simp [List.dropWhile_eq_nil_iff.1 hnil c hc] at hblank
  have htrim : Text.IsTrim (lead.dropWhile Text.isBlank ++ (e ++ Path.afterSlashes pieces)) := by
    refine ⟨fun c hc => ?_, fun c hc => ?_⟩
    · rw [List.head?_append_of_ne_nil _ hne] at hc
      have hhead := List.head?_dropWhile_not Text.isBlank lead
      rw [hc] at hhead
      exact hhead
    · obtain ⟨r, hr, hblank, -, -⟩ := he.exists_getLast
      cases hlast : (Path.afterSlashes pieces).getLast? with
      | none =>
        rw [List.getLast?_append, List.getLast?_append, hlast, hr] at hc
        obtain rfl : r = c := by simpa using hc
        exact hblank
      | some c' =>
        rw [List.getLast?_append, List.getLast?_append, hlast] at hc
        obtain rfl : c' = c := by simpa using hc
        obtain rfl | rfl := getLast?_afterSlashes hpieces _ hlast <;> decide
  have htaken : ∀ c ∈ lead.takeWhile Text.isBlank, Text.isBlank c :=
    fun c hc => List.mem_takeWhile_imp hc
  have hbetween := Text.strip_between htrim htaken hblanks
  simpa only [← List.append_assoc, List.takeWhile_append_dropWhile] using hbetween

/-- Taking the blanks off what is before the extension leaves a folder and a stem. -/
theorem Spells.exists_dropWhile (h : Spells p folder stem e tail) (hstem : stem ≠ [])
    (hlead : ∃ c ∈ folder ++ stem, Text.isBlank c = false) :
    ∃ folder' stem', (folder ++ stem).dropWhile Text.isBlank = folder' ++ stem'
      ∧ (folder' = [] ∨ folder'.getLast? = some (CodePoint.ofChar '/'))
      ∧ CodePoint.ofChar '/' ∉ stem' ∧ stem' ≠ [] := by
  obtain rfl | hlast := h.ends
  · refine ⟨[], stem.dropWhile Text.isBlank, rfl, .inl rfl, ?_, ?_⟩
    · exact fun hmem => h.notMem ((List.dropWhile_sublist _).mem hmem)
    · intro hnil
      obtain ⟨c, hc, hblank⟩ := hlead
      simp [List.dropWhile_eq_nil_iff.1 hnil c hc] at hblank
  · obtain ⟨outer, rfl⟩ := List.getLast?_eq_some_iff.1 hlast
    have hslash : Text.isBlank (CodePoint.ofChar '/') = false := by decide
    refine ⟨outer.dropWhile Text.isBlank ++ [CodePoint.ofChar '/'], stem, ?_, .inr (by simp),
      h.notMem, hstem⟩
    rw [List.append_assoc, List.append_assoc, List.singleton_append, List.dropWhile_append,
      List.dropWhile_cons_of_neg (by simp [hslash])]
    split_ifs with hnil
    · rw [List.isEmpty_iff.1 hnil, List.nil_append]
    · rfl

theorem isDhrPath_iff : isDhrPath p ↔ ∃ folder stem e tail, Spells p folder stem e tail
    ∧ stem ≠ [] ∧ ∃ c ∈ folder ++ stem, Text.isBlank c = false := by
  rw [isDhrPath_iff_lower, lower_extension_iff]
  constructor
  · rintro ⟨stem, e, hname, he, hstem⟩
    obtain ⟨folder, pieces, hstrip, hends, hisName, hpieces⟩ :=
      Path.exists_of_name (by simp [hstem]) (Text.strip p) hname
    obtain ⟨before, after, hp, hbefore, hafter⟩ := Text.exists_strip p
    have hidle : IsIdle (Path.afterSlashes pieces ++ after) := ⟨_, _, rfl, hpieces, hafter⟩
    have hnot : CodePoint.ofChar '/' ∉ stem := fun hmem => hisName.2.2 (List.mem_append_left e hmem)
    rw [hstrip] at hp
    obtain rfl | hlast := hends
    · have hblank : CodePoint.ofChar '/' ∉ before :=
        fun hmem => absurd (hbefore _ hmem) (by decide)
      obtain ⟨c, rest, rfl⟩ := List.exists_cons_of_ne_nil hstem
      have hc : Text.isBlank c = false :=
        (Text.isTrim_strip p).1 c (by rw [hstrip]; rfl)
      refine ⟨[], before ++ c :: rest, e, _, ⟨by simpa using hp, .inl rfl, ?_, he, hidle⟩, by simp,
        c, by simp, hc⟩
      exact List.not_mem_append hblank hnot
    · refine ⟨before ++ folder, stem, e, _, ⟨by simpa using hp, .inr ?_, hnot, he, hidle⟩, hstem,
        CodePoint.ofChar '/', ?_, by decide⟩
      · rw [List.getLast?_append, hlast]
        rfl
      · simp [List.mem_of_getLast? hlast]
  · rintro ⟨folder, stem, e, tail, h, hstem, hlead⟩
    obtain ⟨pieces, blanks, rfl, hpieces, hblanks⟩ := h.isIdle
    obtain ⟨folder', stem', hdrop, hends, hnot, hne⟩ := h.exists_dropWhile hstem hlead
    have hstrip : Text.strip p = folder' ++ (stem' ++ e ++ Path.afterSlashes pieces) := by
      rw [h.eq, ← List.append_assoc, strip_spelled h.isExtension hpieces hblanks hlead, hdrop]
      simp
    have hisName : Path.IsName (stem' ++ e) := by
      refine ⟨by simp [hne], fun hdot => ?_, ?_⟩
      · have hlength := congrArg List.length hdot
        rw [List.length_append, h.isExtension.length_eq] at hlength
        change _ = 1 at hlength
        omega
      · exact List.not_mem_append hnot h.isExtension.notMem_slash
    refine ⟨stem', e, ?_, h.isExtension, hne⟩
    rw [hstrip]
    exact Path.name_ofText hends hisName hpieces

end Spelled

/-! ## Where they differ -/

theorem BlankStem.accepted_only {p : Text} (h : BlankStem p) :
    packAccepts p ∧ isDhrPath p = false := by
  obtain ⟨blanks, e, hspells, hne, hblanks⟩ := h
  obtain ⟨c, rest, rfl⟩ := List.exists_cons_of_ne_nil hne
  constructor
  · refine packAccepts_iff.2 ⟨[], _, e, hspells, c, List.mem_cons_self, ?_⟩
    rintro rfl
    exact absurd (hblanks _ List.mem_cons_self) (by decide)
  · rw [← Bool.not_eq_true, isDhrPath_iff]
    rintro ⟨folder, stem, e', tail, hspells', -, c', hc', hblank⟩
    obtain ⟨rfl, rfl, -⟩ := hspells.unique hspells'
    simp [hblanks c' hc'] at hblank

theorem DottedStem.routed_only {p : Text} (h : DottedStem p) :
    isDhrPath p ∧ packAccepts p = false := by
  obtain ⟨folder, dots, e, hspells, hne, hdots⟩ := h
  obtain ⟨c, rest, rfl⟩ := List.exists_cons_of_ne_nil hne
  constructor
  · refine isDhrPath_iff.2 ⟨folder, _, e, [], hspells, hne, c, by simp, ?_⟩
    rw [hdots c List.mem_cons_self]
    decide
  · rw [← Bool.not_eq_true, packAccepts_iff]
    rintro ⟨folder', stem, e', hspells', c', hc', hdot⟩
    obtain ⟨-, rfl, -⟩ := hspells.unique hspells'
    exact hdot (hdots c' hc')

theorem GoesOn.routed_only {p : Text} (h : GoesOn p) : isDhrPath p ∧ packAccepts p = false := by
  obtain ⟨folder, stem, e, tail, hspells, htail, hstem, hnamed⟩ := h
  refine ⟨isDhrPath_iff.2 ⟨folder, stem, e, tail, hspells, hstem, hnamed⟩, ?_⟩
  rw [← Bool.not_eq_true, packAccepts_iff]
  rintro ⟨folder', stem', e', hspells', -⟩
  exact htail (hspells'.unique hspells).2.2

theorem blankStem_of_accepted {p : Text} (haccepted : packAccepts p)
    (hrouted : ¬ isDhrPath p) : BlankStem p := by
  obtain ⟨folder, stem, e, hspells, c, hc, -⟩ := packAccepts_iff.1 haccepted
  have hstem : stem ≠ [] := List.ne_nil_of_mem hc
  have hblank : ∀ c ∈ folder ++ stem, Text.isBlank c := by
    intro c hc
    by_contra hnot
    exact hrouted (isDhrPath_iff.2
      ⟨folder, stem, e, [], hspells, hstem, c, hc, by simpa using hnot⟩)
  obtain rfl | hlast := hspells.ends
  · exact ⟨stem, e, hspells, hstem, hblank⟩
  · exact absurd (hblank _ (List.mem_append_left stem (List.mem_of_getLast? hlast))) (by decide)

theorem dottedStem_or_goesOn_of_routed {p : Text} (hrouted : isDhrPath p)
    (haccepted : ¬ packAccepts p) : DottedStem p ∨ GoesOn p := by
  obtain ⟨folder, stem, e, tail, hspells, hstem, hnamed⟩ := isDhrPath_iff.1 hrouted
  obtain rfl | htail := eq_or_ne tail []
  · refine .inl ⟨folder, stem, e, hspells, hstem, fun c hc => ?_⟩
    by_contra hdot
    exact haccepted (packAccepts_iff.2 ⟨folder, stem, e, hspells, c, hc, hdot⟩)
  · exact .inr ⟨folder, stem, e, tail, hspells, htail, hstem, hnamed⟩

/-- A file is routed to the language just if the language pack accepts it, unless its path has
blanks or dots alone before the extension or goes on after it: of these three kinds of path, the
first is only accepted and the other two are only routed. -/
theorem accepted_iff_routed_iff (p : Text) :
    ((packAccepts p ↔ isDhrPath p) ↔ ¬ BlankStem p ∧ ¬ DottedStem p ∧ ¬ GoesOn p)
    ∧ (packAccepts p ∧ isDhrPath p = false ↔ BlankStem p)
    ∧ (isDhrPath p ∧ packAccepts p = false ↔ DottedStem p ∨ GoesOn p)
    ∧ (isDhrPath p ↔ ofPath p plain = dhrlang) := by
  have haccepted : packAccepts p ∧ isDhrPath p = false ↔ BlankStem p :=
    ⟨fun h => blankStem_of_accepted h.1 (by simp [h.2]), BlankStem.accepted_only⟩
  have hrouted : isDhrPath p ∧ packAccepts p = false ↔ DottedStem p ∨ GoesOn p :=
    ⟨fun h => dottedStem_or_goesOn_of_routed h.1 (by simp [h.2]),
      fun h => h.elim DottedStem.routed_only GoesOn.routed_only⟩
  refine ⟨?_, haccepted, hrouted, by simp [isDhrPath]⟩
  rw [← not_or (p := DottedStem p), ← haccepted, ← hrouted]
  cases packAccepts p <;> cases isDhrPath p <;> simp

/-- A blank after the name, and two dots before the extension, hide a file from the pack; a stem of
blanks hides it from routing. -/
theorem differing_paths : (isDhrPath "a.dhr " ∧ packAccepts "a.dhr " = false)
    ∧ (isDhrPath "..dhr" ∧ packAccepts "..dhr" = false)
    ∧ packAccepts " .dhr" ∧ isDhrPath " .dhr" = false := by
  decide

end Language

end DhrWorkbench
