import DhrWorkbench.Proofs.Paths
import Mathlib.Data.List.TakeWhile

/-!
# Texts of absolute paths

The text of an absolute path is read as the path (`ofText_text`), its folder has the names but the
last (`folderText_text`), and a relative path behind it is one path (`ofText_joinText`). Folded, a
relative path climbs and then descends, from any folder in the same way (`exists_textFrom`). So seen
from its own folder it leads to another place, unless it descends by one name more than it climbs,
or climbs to the root and descends no further (`textFrom_folderText_iff`).
-/

namespace DhrWorkbench

namespace Text

theorem splitOn_append_cons (c : CodePoint) : ∀ s t : Text,
    splitOn c (s ++ c :: t) = splitOn c s ++ splitOn c t
  | [], t => by simp [splitOn]
  | a :: s, t => by
    rw [List.cons_append, splitOn, splitOn, splitOn_append_cons c s t]
    split
    · rfl
    · cases hs : splitOn c s with
      | nil => exact absurd hs (by rw [splitOn_eq]; exact List.splitOn_ne_nil c s)
      | cons part parts => rfl

theorem join_concat (separator last : Text) : ∀ {texts : List Text}, texts ≠ [] →
    join separator (texts ++ [last]) = join separator texts ++ (separator ++ last)
  | [], h => absurd rfl h
  | [t], _ => rfl
  | t :: s :: texts, _ => by
    have ih : join separator (s :: texts ++ [last]) = _ := join_concat separator last (by simp)
    change t ++ (separator ++ join separator (s :: texts ++ [last])) = _
    rw [ih]
    simp [join]

theorem throughLast_append {c : CodePoint} {s : Text} (t : Text) (h : c ∉ s) :
    throughLast c (t ++ c :: s) = t ++ [c] := by
  have hs : ∀ a ∈ s.reverse, decide (a ≠ c) = true := by
    intro a ha
    have hne : a ≠ c := fun hc => h (hc ▸ List.mem_reverse.1 ha)
    simpa using hne
  unfold throughLast
  rw [List.reverse_append, List.reverse_cons, List.append_assoc,
    List.dropWhile_append_of_pos hs]
  simp

theorem drop_append_eq_self_iff {α : Type} {n : ℕ} {s t : List α} :
    (s ++ t).drop n = t ↔ n = s.length ∨ (s.length ≤ n ∧ t = []) := by
  rcases Nat.le_total n s.length with hle | hle
  · rw [List.drop_append_of_le_length hle, List.append_left_eq_self, List.drop_eq_nil_iff]
    constructor
    · intro hge
      exact .inl (Nat.le_antisymm hle hge)
    · rintro (rfl | ⟨hge, -⟩)
      · exact le_rfl
      · exact hge
  · have hdrop : (s ++ t).drop n = t.drop (n - s.length) := by
      rw [List.drop_append, List.drop_eq_nil_of_le hle, List.nil_append]
    rw [hdrop]
    constructor
    · intro heq
      have hlength := congrArg List.length heq
      rw [List.length_drop] at hlength
      rcases Nat.eq_zero_or_pos t.length with hzero | hpos
      · exact .inr ⟨hle, List.length_eq_zero_iff.1 hzero⟩
      · exact .inl (by omega)
    · rintro (rfl | ⟨-, rfl⟩)
      · simp
      · simp

end Text

namespace Path

/-! ## Texts of absolute paths -/

theorem namesOf_append_slash (s t : Text) :
    namesOf (s ++ CodePoint.ofChar '/' :: t) = namesOf s ++ namesOf t := by
  unfold namesOf
  rw [Text.splitOn_append_cons, List.filter_append]

theorem namesOf_slash (t : Text) : namesOf (CodePoint.ofChar '/' :: t) = namesOf t :=
  namesOf_append_slash [] t

theorem namesOf_join : ∀ {names : List Text}, (∀ name ∈ names, IsName name) →
    namesOf (Text.join "/" names) = names
  | [], _ => rfl
  | first :: rest, h => by
    obtain ⟨hfirst, hrest⟩ := List.forall_mem_cons.1 h
    rw [namesOf_join_cons hfirst, namesOf_join hrest]

theorem head?_join {names : List Text} (h : ∀ name ∈ names, IsName name) :
    (Text.join "/" names).head? ≠ some (CodePoint.ofChar '/') := by
  cases names with
  | nil => simp [Text.join]
  | cons first rest =>
    obtain ⟨hne, -, hslash⟩ := h first List.mem_cons_self
    obtain ⟨c, t, rfl⟩ := List.exists_cons_of_ne_nil hne
    have hc : c ≠ CodePoint.ofChar '/' := fun hc => hslash (by simp [hc])
    cases rest <;> simpa [Text.join] using hc

theorem getLast?_join {names : List Text} (h : ∀ name ∈ names, IsName name) :
    (Text.join "/" names).getLast? ≠ some (CodePoint.ofChar '/') := by
  rcases List.eq_nil_or_concat names with rfl | ⟨init, last, rfl⟩
  · simp [Text.join]
  · obtain ⟨hne, -, hslash⟩ := h last (by simp)
    obtain ⟨s, c, rfl⟩ : ∃ s c, last = s ++ [c] :=
      ⟨_, _, (List.dropLast_append_getLast hne).symm⟩
    have hc : c ≠ CodePoint.ofChar '/' := fun hc => hslash (by simp [hc])
    by_cases hinit : init = []
    · subst hinit
      simpa [Text.join] using hc
    · rw [List.concat_eq_append, Text.join_concat _ _ hinit]
      simpa [← List.append_assoc] using hc

theorem leadingSlashes_of_head? {t : Text} (h : t.head? ≠ some (CodePoint.ofChar '/')) :
    leadingSlashes t = 0 := by
  cases t with
  | nil => rfl
  | cons c t =>
    have hc : c ≠ CodePoint.ofChar '/' := by simpa using h
    simp [leadingSlashes, hc]

theorem leadingSlashes_slash (t : Text) :
    leadingSlashes (CodePoint.ofChar '/' :: t) = leadingSlashes t + 1 := by
  simp [leadingSlashes]

theorem isAbsolute_ofText_iff {t : Text} :
    (ofText t).isAbsolute ↔ t.head? = some (CodePoint.ofChar '/') := by
  constructor
  · intro h
    by_contra hhead
    simp [isAbsolute, ofText, anchorOf, leadingSlashes_of_head? hhead] at h
  · intro h
    obtain ⟨t', rfl⟩ := List.head?_eq_some_iff.1 h
    exact decide_eq_true (anchorOf_slash t')

theorem ofText_slash {t : Text} (h : t.head? ≠ some (CodePoint.ofChar '/')) :
    ofText (CodePoint.ofChar '/' :: t) = ⟨.root, namesOf t⟩ := by
  have hanchor : anchorOf (CodePoint.ofChar '/' :: t) = .root := by
    rw [anchorOf, leadingSlashes_slash, leadingSlashes_of_head? h]
    rfl
  rw [ofText, hanchor, namesOf_slash]

theorem text_root (names : List Text) :
    (Path.mk .root names).text = CodePoint.ofChar '/' :: Text.join "/" names := rfl

/-- The text of an absolute path is read as the path. -/
theorem ofText_text {p : Path} (ha : p.isAbsolute) (h : ∀ name ∈ p.parts, IsName name) :
    ofText p.text = p := by
  obtain ⟨anchor, names⟩ := p
  have hnames := namesOf_join h
  have hhead := head?_join h
  cases anchor with
  | here => cases ha
  | root => rw [text_root, ofText_slash hhead, hnames]
  | doubleRoot =>
    have htext : (Path.mk .doubleRoot names).text
        = CodePoint.ofChar '/' :: CodePoint.ofChar '/' :: Text.join "/" names := rfl
    have hanchor : anchorOf (Path.mk .doubleRoot names).text = .doubleRoot := by
      rw [htext, anchorOf, leadingSlashes_slash, leadingSlashes_slash,
        leadingSlashes_of_head? hhead]
      rfl
    rw [ofText, hanchor, htext, namesOf_slash, namesOf_slash, hnames]

theorem text_root_inj {names names' : List Text} (h : ∀ name ∈ names, IsName name)
    (h' : ∀ name ∈ names', IsName name) :
    (Path.mk .root names).text = (Path.mk .root names').text ↔ names = names' := by
  refine ⟨fun htext => ?_, fun heq => by rw [heq]⟩
  have hread := congrArg ofText htext
  rw [ofText_text rfl h, ofText_text rfl h'] at hread
  exact (Path.mk.inj hread).2

theorem folderText_slash {t : Text} (ht : CodePoint.ofChar '/' ∉ t) :
    folderText (CodePoint.ofChar '/' :: t) = [CodePoint.ofChar '/'] := by
  have hthrough : Text.throughLast '/' (CodePoint.ofChar '/' :: t) = [CodePoint.ofChar '/'] :=
    Text.throughLast_append [] ht
  unfold folderText
  rw [hthrough]
  rfl

theorem folderText_append {s t : Text} (hs : s ≠ [])
    (hlast : s.getLast? ≠ some (CodePoint.ofChar '/')) (ht : CodePoint.ofChar '/' ∉ t) :
    folderText (s ++ CodePoint.ofChar '/' :: t) = s := by
  obtain ⟨s, c, rfl⟩ : ∃ s' c, s = s' ++ [c] := ⟨_, _, (List.dropLast_append_getLast hs).symm⟩
  have hc : c ≠ CodePoint.ofChar '/' := by simpa using hlast
  unfold folderText
  rw [Text.throughLast_append _ ht]
  simp [hc]

theorem join_ne_nil {names : List Text} (h : ∀ name ∈ names, IsName name) (hne : names ≠ []) :
    Text.join "/" names ≠ [] := by
  intro hnil
  have hread := namesOf_join h
  rw [hnil] at hread
  exact hne hread.symm

theorem getLast?_text {names : List Text} (h : ∀ name ∈ names, IsName name) (hne : names ≠ []) :
    (Path.mk .root names).text.getLast? ≠ some (CodePoint.ofChar '/') := by
  rw [text_root, List.getLast?_cons_of_ne_nil (join_ne_nil h hne)]
  exact getLast?_join h

/-- The folder of an absolute path has its names but the last. -/
theorem folderText_text {names : List Text} (h : ∀ name ∈ names, IsName name) :
    folderText (Path.mk .root names).text = (Path.mk .root names.dropLast).text := by
  rcases List.eq_nil_or_concat names with rfl | ⟨init, last, rfl⟩
  · rfl
  · rw [List.concat_eq_append] at h ⊢
    obtain ⟨-, -, hslash⟩ := h last (by simp)
    have hinit : ∀ name ∈ init, IsName name := fun name hname => h name (by simp [hname])
    rw [List.dropLast_concat]
    by_cases hnil : init = []
    · subst hnil
      exact folderText_slash hslash
    · have htext : (Path.mk .root (init ++ [last])).text
          = (Path.mk .root init).text ++ CodePoint.ofChar '/' :: last := by
        rw [text_root, text_root, Text.join_concat _ _ hnil]
        rfl
      rw [htext, folderText_append (by simp [text_root]) (getLast?_text hinit hnil) hslash]

/-- A relative path seen from an absolute folder. -/
theorem ofText_joinText {names : List Text} (h : ∀ name ∈ names, IsName name) {t : Text}
    (ht : ¬ (ofText t).isAbsolute) :
    ofText (joinText (Path.mk .root names).text t) = ⟨.root, names ++ namesOf t⟩ := by
  have hhead : t.head? ≠ some (CodePoint.ofChar '/') := fun hc => ht (isAbsolute_ofText_iff.2 hc)
  unfold joinText
  rw [if_neg hhead]
  by_cases hnames : names = []
  · subst hnames
    exact ofText_slash hhead
  · have happ : (Path.mk .root names).text ++ Text.ofString "/" ++ t
        = CodePoint.ofChar '/' :: (Text.join "/" names ++ CodePoint.ofChar '/' :: t) := by
      rw [text_root]
      simp [Text.ofString]
    have hfirst : (Text.join "/" names ++ CodePoint.ofChar '/' :: t).head?
        ≠ some (CodePoint.ofChar '/') := by
      rw [List.head?_append_of_ne_nil _ (join_ne_nil h hnames)]
      exact head?_join h
    rw [if_neg (not_or.2 ⟨by simp [text_root], getLast?_text h hnames⟩), happ,
      ofText_slash hfirst, namesOf_append_slash, namesOf_join h]

/-! ## Climbing and descending -/

/-- At the root two dots take the last name back, if there is one. -/
theorem stepUp_true {done : List Text} (h : Text.ofString ".." ∉ done) :
    stepUp true done = done.tail := by
  cases done with
  | nil => rfl
  | cons last before => exact if_neg fun hc => h (by simp [hc])

/-- From a folder, names climb some way and then descend, however deep the folder is; a relative
path, folded, shows how far. -/
theorem exists_climb : ∀ (names downs : List Text) (ups : ℕ), Text.ofString ".." ∉ downs →
    ∃ rise falls, Text.ofString ".." ∉ falls
      ∧ foldDots false (downs ++ List.replicate ups (Text.ofString "..")) names
        = List.replicate rise (Text.ofString "..") ++ falls
      ∧ ∀ done : List Text, Text.ofString ".." ∉ done →
        foldDots true (downs ++ done.drop ups) names = (done.drop rise).reverse ++ falls
  | [], downs, ups, hdowns => by
    refine ⟨ups, downs.reverse, by simpa using hdowns, ?_, fun done _ => ?_⟩
    · simp [foldDots]
    · simp [foldDots]
  | name :: rest, downs, ups, hdowns => by
    by_cases hup : name = Text.ofString ".."
    · subst hup
      cases downs with
      | cons last before =>
        -- A name that was descended by is taken back.
        obtain ⟨hlast, hbefore⟩ := not_or.1 (fun hc => hdowns (List.mem_cons.2 hc))
        have hstep : ∀ rooted others, stepUp rooted (last :: before ++ others) = before ++ others :=
          fun rooted others => if_neg (Ne.symm hlast)
        obtain ⟨rise, falls, hfalls, hrelative, hrooted⟩ := exists_climb rest before ups hbefore
        refine ⟨rise, falls, hfalls, ?_, fun done hdone => ?_⟩
        · rw [foldDots, if_pos rfl, hstep, hrelative]
        · rw [foldDots, if_pos rfl, hstep, hrooted done hdone]
      | nil =>
        -- Nothing is left to take back, so the path climbs one folder more.
        obtain ⟨rise, falls, hfalls, hrelative, hrooted⟩ := exists_climb rest [] (ups + 1) hdowns
        refine ⟨rise, falls, hfalls, ?_, fun done hdone => ?_⟩
        · have hstep : stepUp false ([] ++ List.replicate ups (Text.ofString ".."))
              = List.replicate (ups + 1) (Text.ofString "..") := by
            cases ups <;> simp [stepUp, List.replicate_succ]
          rw [foldDots, if_pos rfl, hstep]
          exact hrelative
        · have hstep : stepUp true ([] ++ done.drop ups) = done.drop (ups + 1) := by
            rw [List.nil_append, ← List.tail_drop]
            exact stepUp_true fun hc => hdone (List.mem_of_mem_drop hc)
          rw [foldDots, if_pos rfl, hstep]
          exact hrooted done hdone
    · obtain ⟨rise, falls, hfalls, hrelative, hrooted⟩ :=
        exists_climb rest (name :: downs) ups (by simpa [Ne.symm hup] using hdowns)
      refine ⟨rise, falls, hfalls, ?_, fun done hdone => ?_⟩
      · rw [foldDots, if_neg hup]
        exact hrelative
      · rw [foldDots, if_neg hup]
        exact hrooted done hdone

theorem mem_foldDots_true : ∀ {names done : List Text}, Text.ofString ".." ∉ done →
    ∀ name ∈ foldDots true done names, (name ∈ done ∨ name ∈ names) ∧ name ≠ Text.ofString ".."
  | [], done, hdone, name, hname => by
    have hmem : name ∈ done := by simpa [foldDots] using hname
    exact ⟨.inl hmem, fun hc => hdone (hc ▸ hmem)⟩
  | first :: rest, done, hdone, name, hname => by
    rw [foldDots] at hname
    split at hname
    · rw [stepUp_true hdone] at hname
      have htail : Text.ofString ".." ∉ done.tail := fun hc => hdone (List.mem_of_mem_tail hc)
      obtain ⟨hmem, hne⟩ := mem_foldDots_true htail name hname
      exact ⟨hmem.imp List.mem_of_mem_tail (List.mem_cons_of_mem _), hne⟩
    · rename_i hfirst
      obtain ⟨hmem, hne⟩ := mem_foldDots_true (by simpa [Ne.symm hfirst] using hdone) name hname
      refine ⟨?_, hne⟩
      simpa [or_assoc, or_left_comm] using hmem

theorem foldDots_append (rooted : Bool) : ∀ {names : List Text} (done rest : List Text),
    Text.ofString ".." ∉ names →
    foldDots rooted done (names ++ rest) = foldDots rooted (names.reverse ++ done) rest
  | [], done, rest, _ => rfl
  | name :: names, done, rest, h => by
    obtain ⟨hname, hnames⟩ := not_or.1 fun hc => h (List.mem_cons.2 hc)
    rw [List.cons_append, foldDots, if_neg (Ne.symm hname), foldDots_append rooted _ _ hnames]
    simp

/-- How many folders a path climbs, once folded. -/
def climb (p : Path) : ℕ := p.normal.parts.countP (· = Text.ofString "..")

/-- By how many names a path descends, once folded. -/
def descent (p : Path) : ℕ := p.normal.parts.countP (· ≠ Text.ofString "..")

/-- The names of a place that a walk from the root leads to. -/
def IsPlace (names : List Text) : Prop := ∀ name ∈ names, IsName name ∧ name ≠ Text.ofString ".."

instance (t : Text) : Decidable (IsName t) := inferInstanceAs (Decidable (_ ∧ _ ∧ _))

instance (names : List Text) : Decidable (IsPlace names) :=
  inferInstanceAs (Decidable (∀ name ∈ names, _))

theorem IsPlace.isName {names : List Text} (h : IsPlace names) : ∀ name ∈ names, IsName name :=
  fun name hname => (h name hname).1

theorem IsPlace.notMem {names : List Text} (h : IsPlace names) : Text.ofString ".." ∉ names :=
  fun hc => (h _ hc).2 rfl

theorem IsPlace.climbed {names falls : List Text} (h : IsPlace names) (hfalls : IsPlace falls)
    (n : ℕ) : IsPlace ((names.reverse.drop n).reverse ++ falls) := by
  intro name hname
  rcases List.mem_append.1 hname with hmem | hmem
  · exact h name (List.mem_reverse.1 (List.mem_of_mem_drop (List.mem_reverse.1 hmem)))
  · exact hfalls name hmem

/-- Seen from any folder, a relative path climbs and descends in the same way. -/
theorem exists_textFrom {t : Text} (ht : ¬ (ofText t).isAbsolute) :
    ∃ falls, IsPlace falls ∧ falls.length = (ofText t).descent ∧ ∀ names, IsPlace names →
      textFrom (Path.mk .root names).text t
        = (Path.mk .root ((names.reverse.drop (ofText t).climb).reverse ++ falls)).text := by
  obtain ⟨rise, falls, hfalls, hrelative, hrooted⟩ := exists_climb (namesOf t) [] 0 (by simp)
  have hnormal : (ofText t).normal.parts
      = List.replicate rise (Text.ofString "..") ++ falls := by
    rw [normal, Bool.eq_false_of_not_eq_true ht]
    exact hrelative
  have hdown : ∀ name ∈ falls, name ≠ Text.ofString ".." := fun name hname hc => hfalls (hc ▸ hname)
  have hclimb : (ofText t).climb = rise := by
    rw [climb, hnormal, List.countP_append, List.countP_replicate, if_pos (by simp),
      List.countP_eq_zero.2 (by simpa using hdown), Nat.add_zero]
  have hdescent : (ofText t).descent = falls.length := by
    rw [descent, hnormal, List.countP_append, List.countP_replicate, if_neg (by simp),
      List.countP_eq_length.2 (by simpa using hdown), Nat.zero_add]
  have hplace : IsPlace falls := by
    have hfold : foldDots true [] (namesOf t) = falls := by simpa using hrooted [] (by simp)
    intro name hname
    obtain ⟨hmem, hne⟩ := mem_foldDots_true (by simp) name (hfold ▸ hname)
    exact ⟨isName_of_mem_namesOf (by simpa using hmem), hne⟩
  refine ⟨falls, hplace, hdescent.symm, fun names hnames => ?_⟩
  have hfold : foldDots true [] (names ++ namesOf t)
      = (names.reverse.drop rise).reverse ++ falls := by
    rw [foldDots_append true _ _ hnames.notMem]
    simpa using hrooted names.reverse (by simpa using hnames.notMem)
  unfold textFrom normalText
  rw [ofText_joinText hnames.isName ht, hclimb, ← hfold]
  rfl

/-- Seen from its own folder a relative path leads to another place, unless it descends by one name
more than it climbs, or climbs to the root and descends no further. -/
theorem textFrom_folderText_iff {names : List Text} (hnames : IsPlace names) {t : Text}
    (ht : ¬ (ofText t).isAbsolute) :
    textFrom (folderText (textFrom (Path.mk .root names).text t)) t
        = textFrom (Path.mk .root names).text t
      ↔ (ofText t).descent = (ofText t).climb + 1
        ∨ ((ofText t).descent ≤ (ofText t).climb ∧ names.length ≤ (ofText t).climb) := by
  obtain ⟨falls, hfalls, hlength, hfrom⟩ := exists_textFrom ht
  have hplace := hnames.climbed hfalls (ofText t).climb
  rw [hfrom names hnames, folderText_text hplace.isName]
  set climbed := names.reverse.drop (ofText t).climb with hclimbed
  have hfolder : IsPlace (climbed.reverse ++ falls).dropLast :=
    fun name hname => hplace name (List.dropLast_subset _ hname)
  have hreverse : (climbed.reverse ++ falls).dropLast.reverse
      = (falls.reverse ++ climbed).drop 1 := by
    simp [← List.tail_reverse]
  have hroot : climbed = [] ↔ names.length ≤ (ofText t).climb := by
    rw [hclimbed, List.drop_eq_nil_iff, List.length_reverse]
  rw [hfrom _ hfolder, text_root_inj (hfolder.climbed hfalls _).isName hplace.isName,
    List.append_left_inj, List.reverse_inj, hreverse, List.drop_drop, Text.drop_append_eq_self_iff,
    hroot, List.length_reverse, hlength]
  omega

/-! ## Absolute paths -/

theorem textFrom_of_isAbsolute {t : Text} (ht : (ofText t).isAbsolute) (folder : Text) :
    textFrom folder t = normalText t := by
  rw [textFrom, joinText, if_pos (isAbsolute_ofText_iff.1 ht)]

theorem foldDots_eq_self {names : List Text} (h : Text.ofString ".." ∉ names) :
    foldDots true [] names = names := by
  have hfold := foldDots_append true [] [] h
  simpa [foldDots] using hfold

/-- The text of a folded absolute path stays what it is. -/
theorem normalText_text {p : Path} (ha : p.isAbsolute) (h : IsPlace p.parts) :
    normalText p.text = p.text := by
  rw [normalText, ofText_text ha h.isName, normal, ha, foldDots_eq_self h.notMem]

theorem isPlace_normal {p : Path} (ha : p.isAbsolute) (h : ∀ name ∈ p.parts, IsName name) :
    IsPlace p.normal.parts := by
  intro name hname
  rw [normal, ha] at hname
  obtain ⟨hmem, hne⟩ := mem_foldDots_true (by simp) name hname
  exact ⟨h name (by simpa using hmem), hne⟩

theorem isAbsolute_joinText {folder : Text} (hf : (ofText folder).isAbsolute) (t : Text) :
    (ofText (joinText folder t)).isAbsolute := by
  obtain ⟨rest, rfl⟩ := List.head?_eq_some_iff.1 (isAbsolute_ofText_iff.1 hf)
  rw [isAbsolute_ofText_iff, joinText]
  split_ifs with ht
  · exact ht
  · rfl
  · rfl

theorem folderText_ne_nil {t : Text} (h : CodePoint.ofChar '/' ∈ t) : folderText t ≠ [] := by
  unfold folderText
  dsimp only
  split_ifs with hall
  · rw [Text.throughLast, Ne, List.reverse_eq_nil_iff, List.dropWhile_eq_nil_iff]
    exact fun hnone => absurd (hnone _ (List.mem_reverse.2 h)) (by simp)
  · rw [Ne, List.reverse_eq_nil_iff, List.dropWhile_eq_nil_iff]
    simpa using hall

end Path

end DhrWorkbench
