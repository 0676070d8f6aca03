import DhrWorkbench.Json.Writer
import DhrWorkbench.Proofs.Encoding
import DhrWorkbench.Proofs.NumberText
import DhrWorkbench.Proofs.Sameness

/-!
# The text of a settings file

What a value looks like when it is written: a list or an object is its parts in order, each on a
line of its own, between brackets. A written value is a text of its own in front of what follows
(`puts_writeOnto`); it starts with no space and no closing bracket (`exists_start`), and its code
points are plain or come from the texts in the value, control characters apart. So it has no
carriage return, and it has a UTF-8 form exactly when the value's texts have no surrogates
(`encodable_write_iff`).
-/

namespace DhrWorkbench

namespace Json

open Binary64 (signText)

/-! ## The layout of values -/

/-- A field in front of a text. -/
def putField (level : ℕ) (f : Text × Value) (after : Text) : Text :=
  writeString false f.1 ++ (": " ++ writeOnto .settings level f.2 after)

/-- The items of a list in front of a text. -/
def putItems (level : ℕ) (items : List Value) : Text → Text :=
  joinOnto (Style.settings.separator level) (items.map (writeOnto .settings level))

/-- Fields in front of a text. -/
def putFields (level : ℕ) (fields : Fields) : Text → Text :=
  joinOnto (Style.settings.separator level) (fields.map (putField level))

theorem itemWriters_eq (style : Style) (level : ℕ) : ∀ items : List Value,
    itemWriters style level items = items.map (writeOnto style level)
  | [] => rfl
  | v :: rest => by rw [itemWriters, itemWriters_eq style level rest, List.map_cons]

theorem fieldWriters_eq (style : Style) (level : ℕ) : ∀ fields : Fields,
    fieldWriters style level fields = fields.map fun f => (f.1, writeOnto style level f.2)
  | [] => rfl
  | (k, v) :: rest => by rw [fieldWriters, fieldWriters_eq style level rest, List.map_cons]

theorem arrange_settings (level : ℕ) (fields : Fields) :
    arrange .settings (fieldWriters .settings level fields)
      = (Fields.sorted fields).map (putField level) := by
  have hsort := List.map_mergeSort (r := fun f g : Text × Value => Text.atMost f.1 g.1)
    (s := fun f g : Text × (Text → Text) => Text.atMost f.1 g.1)
    (f := fun f : Text × Value => (f.1, writeOnto .settings level f.2)) (l := fields)
    fun _ _ _ _ => rfl
  have hsorted : Style.settings.sorted = true := rfl
  rw [arrange, fieldWriters_eq, if_pos hsorted, ← hsort, List.map_map]
  rfl

theorem writeOnto_items (style : Style) (level : ℕ) (items : List Value) (after : Text) :
    writeOnto style level (.list items) after
      = enclose style level '[' ']' (itemWriters style (level + 1) items) after := rfl

theorem writeOnto_fields (style : Style) (level : ℕ) (fields : Fields) (after : Text) :
    writeOnto style level (.object fields) after
      = enclose style level '\x7b' '\x7d' (arrange style (fieldWriters style (level + 1) fields))
        after := rfl

theorem writeOnto_list_nil (level : ℕ) (after : Text) :
    writeOnto .settings level (.list []) after
      = [CodePoint.ofChar '[', CodePoint.ofChar ']'] ++ after := by
  rw [writeOnto_items, enclose, itemWriters]
  rfl

theorem writeOnto_object_nil (level : ℕ) (after : Text) :
    writeOnto .settings level (.object []) after
      = [CodePoint.ofChar '\x7b', CodePoint.ofChar '\x7d'] ++ after := by
  rw [writeOnto_fields, enclose, arrange_settings]
  simp [Fields.sorted]

theorem sorted_ne_nil {fields : Fields} (h : fields ≠ []) : Fields.sorted fields ≠ [] := by
  rwa [ne_eq, ← List.length_eq_zero_iff, (Fields.sorted_perm fields).length_eq,
    List.length_eq_zero_iff]

theorem writeOnto_list {level : ℕ} {items : List Value} (h : items ≠ []) (after : Text) :
    writeOnto .settings level (.list items) after
      = CodePoint.ofChar '[' :: (Style.settings.newline (level + 1)
        ++ putItems (level + 1) items
          (Style.settings.newline level ++ CodePoint.ofChar ']' :: after)) := by
  rw [writeOnto_items, enclose, itemWriters_eq, if_neg (by simpa using h), putItems]

theorem writeOnto_object {level : ℕ} {fields : Fields} (h : fields ≠ []) (after : Text) :
    writeOnto .settings level (.object fields) after
      = CodePoint.ofChar '\x7b' :: (Style.settings.newline (level + 1)
        ++ putFields (level + 1) (Fields.sorted fields)
          (Style.settings.newline level ++ CodePoint.ofChar '\x7d' :: after)) := by
  rw [writeOnto_fields, enclose, arrange_settings, if_neg (by simpa using sorted_ne_nil h),
    putFields]

theorem writeString_append (t after : Text) : writeString false t ++ after
    = CodePoint.ofChar '"'
      :: (t.flatMap (writeCodePoint false) ++ CodePoint.ofChar '"' :: after) := by
  simp [writeString, Text.ofString]

theorem unicodeEscape_eq (n : ℕ) : unicodeEscape n = [CodePoint.ofChar '\\', CodePoint.ofChar 'u',
    Text.hexDigit (n / 4096 % 16), Text.hexDigit (n / 256 % 16), Text.hexDigit (n / 16 % 16),
    Text.hexDigit (n % 16)] := by
  simp [unicodeEscape, Text.hex, Text.ofString, Nat.div_div_eq_div_mul]

theorem putField_eq (level : ℕ) (f : Text × Value) (after : Text) : putField level f after
    = CodePoint.ofChar '"' :: (f.1.flatMap (writeCodePoint false) ++ CodePoint.ofChar '"'
      :: CodePoint.ofChar ':' :: CodePoint.ofChar ' ' :: writeOnto .settings level f.2 after) := by
  rw [putField, writeString_append]
  rfl

theorem putItems_cons_cons (level : ℕ) (v w : Value) (rest : List Value) (after : Text) :
    putItems level (v :: w :: rest) after = writeOnto .settings level v
      (CodePoint.ofChar ','
        :: (Style.settings.newline level ++ putItems level (w :: rest) after)) :=
  rfl

theorem putFields_cons_cons (level : ℕ) (f g : Text × Value) (rest : Fields) (after : Text) :
    putFields level (f :: g :: rest) after = putField level f
      (CodePoint.ofChar ','
        :: (Style.settings.newline level ++ putFields level (g :: rest) after)) :=
  rfl

/-! ## How a written value starts -/

/-- Whether a written value can start with a code point: no space and no closing bracket. -/
def isStart (c : CodePoint) : Bool :=
  !Cursor.isSpace c && c ≠ CodePoint.ofChar ']' && c ≠ CodePoint.ofChar '\x7d'

theorem ne_of_isAsciiDigit {c : CodePoint} (hc : isAsciiDigit c) {d : CodePoint}
    (hd : isAsciiDigit d = false) : c ≠ d := by
  rintro rfl
  simp [hc] at hd

theorem isStart_of_isAsciiDigit {c : CodePoint} (hc : isAsciiDigit c) : isStart c := by
  have hne : ∀ {d : Char}, isAsciiDigit (CodePoint.ofChar d) = false → c ≠ CodePoint.ofChar d :=
    fun hd => ne_of_isAsciiDigit hc hd
  simp [isStart, Cursor.isSpace, hne (d := ' ') (by decide), hne (d := '\t') (by decide),
    hne (d := '\n') (by decide), hne (d := '\r') (by decide), hne (d := ']') (by decide),
    hne (d := '\x7d') (by decide)]

theorem ofInt_eq (n : ℤ) : Text.ofInt n = signText (decide (n < 0)) ++ Text.ofNat n.natAbs := by
  cases n with
  | ofNat n => simp [Text.ofInt, signText, Text.ofString]
  | negSucc n => simp [Text.ofInt, signText, Text.ofString, Int.negSucc_lt_zero]

/-- The text of a number starts with a digit. -/
theorem exists_digit_of_isNumeral {t : Text} (ht : Text.IsNumeral t) (h : t ≠ []) :
    ∃ c rest, t = c :: rest ∧ isAsciiDigit c := by
  obtain ⟨c, rest, rfl⟩ := List.exists_cons_of_ne_nil h
  exact ⟨c, rest, rfl, ht c List.mem_cons_self⟩

theorem exists_digit_magnitudeText (e : Fin 2047) (f : Fin 4503599627370496) :
    ∃ c rest, Binary64.magnitudeText e f = c :: rest ∧ isAsciiDigit c := by
  obtain ⟨d, ⟨whole, digits, exponent, ht, hw, -⟩, -⟩ := spells_magnitudeText e f
  obtain ⟨c, rest, rfl, hc⟩ := exists_digit_of_isNumeral hw.numeral hw.ne_nil
  exact ⟨c, _, ht, hc⟩

theorem exists_start_number {negative : Bool} {t : Text}
    (h : ∃ c rest, t = c :: rest ∧ isAsciiDigit c)
    (after : Text) : ∃ c rest, signText negative ++ t ++ after = c :: rest ∧ isStart c := by
  obtain ⟨c, rest, rfl, hc⟩ := h
  cases negative with
  | false => exact ⟨c, _, rfl, isStart_of_isAsciiDigit hc⟩
  | true => exact ⟨CodePoint.ofChar '-', _, rfl, by decide⟩

theorem exists_start (level : ℕ) (v : Value) (after : Text) :
    ∃ c rest, writeOnto .settings level v after = c :: rest ∧ isStart c := by
  cases v with
  | null =>
    rw [writeOnto]
    exact ⟨CodePoint.ofChar 'n', _, rfl, by decide⟩
  | bool b =>
    cases b with
    | false =>
      rw [writeOnto]
      exact ⟨CodePoint.ofChar 'f', _, rfl, by decide⟩
    | true =>
      rw [writeOnto]
      exact ⟨CodePoint.ofChar 't', _, rfl, by decide⟩
  | int n =>
    rw [writeOnto, ofInt_eq]
    exact exists_start_number
      (exists_digit_of_isNumeral (Text.isNumeral_ofNat _) (Text.ofNat_ne_nil _))
      after
  | float x =>
    rw [writeOnto]
    cases x with
    | nan => exact ⟨CodePoint.ofChar 'N', _, rfl, by decide⟩
    | infinite negative =>
      cases negative with
      | false => exact ⟨CodePoint.ofChar 'I', _, rfl, by decide⟩
      | true => exact ⟨CodePoint.ofChar '-', _, rfl, by decide⟩
    | finite negative e f => exact exists_start_number (exists_digit_magnitudeText e f) after
  | str t =>
    rw [writeOnto]
    exact ⟨CodePoint.ofChar '"', _, writeString_append t after, by decide⟩
  | list items =>
    rw [writeOnto_items, enclose]
    split
    · exact ⟨CodePoint.ofChar '[', _, rfl, by decide⟩
    · exact ⟨CodePoint.ofChar '[', _, rfl, by decide⟩
  | object fields =>
    rw [writeOnto_fields, enclose]
    split
    · exact ⟨CodePoint.ofChar '\x7b', _, rfl, by decide⟩
    · exact ⟨CodePoint.ofChar '\x7b', _, rfl, by decide⟩

theorem exists_start_putItems {level : ℕ} {items : List Value} (hne : items ≠ []) (after : Text) :
    ∃ c rest, putItems level items after = c :: rest ∧ isStart c := by
  match items, hne with
  | [v], _ => exact exists_start level v _
  | v :: w :: rest, _ => exact exists_start level v _

theorem exists_quote_putFields {level : ℕ} {fields : Fields} (hne : fields ≠ []) (after : Text) :
    ∃ rest, putFields level fields after = CodePoint.ofChar '"' :: rest := by
  match fields, hne with
  | [f], _ => exact ⟨_, putField_eq level f _⟩
  | f :: g :: rest, _ => exact ⟨_, putField_eq level f _⟩

/-! ## The code points of a written value -/

/-- Whether a code point is of printable ASCII or ends a line. -/
def isPlain (c : CodePoint) : Bool := (0x20 ≤ c.val && c.val < 0x7F) || c = CodePoint.ofChar '\n'

/-- Whether a value that is a text has only code points that pass a test. -/
def textTest (q : CodePoint → Bool) : Value → Bool
  | .str t => t.all q
  | _ => true

/-- Puts a text that is not empty in front of another one, all of it passing a test. -/
def Puts (p : CodePoint → Bool) (f : Text → Text) : Prop :=
  ∀ after, ∃ t, t ≠ [] ∧ (∀ c ∈ t, p c) ∧ f after = t ++ after

section Puts

variable {p q : CodePoint → Bool}

theorem puts_append {t : Text} (hne : t ≠ []) (ht : ∀ c ∈ t, p c) : Puts p (t ++ ·) :=
  fun _ => ⟨t, hne, ht, rfl⟩

theorem puts_joinOnto {separator : Text} (hs : ∀ c ∈ separator, p c) :
    ∀ {items : List (Text → Text)}, items ≠ [] → (∀ item ∈ items, Puts p item) →
      Puts p (joinOnto separator items)
  | [], hne, _ => absurd rfl hne
  | [item], _, h => h item (by simp)
  | item :: next :: rest, _, h => by
    intro after
    obtain ⟨s, -, hsp, hrest⟩ := puts_joinOnto hs (List.cons_ne_nil next rest)
      (fun i hi => h i (List.mem_cons_of_mem _ hi)) after
    obtain ⟨t, hne, htp, hitem⟩ := h item List.mem_cons_self
      (separator ++ joinOnto separator (next :: rest) after)
    refine ⟨t ++ (separator ++ s), by simp [hne], ?_, ?_⟩
    · simp only [List.mem_append]
      rintro c (hc | hc | hc)
      · exact htp c hc
      · exact hs c hc
      · exact hsp c hc
    · change item (separator ++ joinOnto separator (next :: rest) after) = _
      rw [hitem, hrest]
      simp only [List.append_assoc]

theorem isPlain_of_isAsciiDigit {c : CodePoint} (hc : isAsciiDigit c) : isPlain c := by
  simp only [isAsciiDigit, Bool.and_eq_true, decide_eq_true_eq] at hc
  simp only [isPlain, Bool.or_eq_true, Bool.and_eq_true, decide_eq_true_eq]
  omega

theorem isPlain_signText (negative : Bool) : (signText negative).all isPlain := by
  cases negative <;> decide

theorem isPlain_newline (level : ℕ) : ∀ c ∈ Style.settings.newline level, isPlain c := by
  intro c hc
  rcases List.mem_cons.1 hc with rfl | hc
  · decide
  · rw [(List.mem_replicate.1 hc).2]
    decide

theorem isPlain_hexDigit : ∀ {d : ℕ}, d < 16 → isPlain (Text.hexDigit d) := by decide

theorem isPlain_magnitudeText (e : Fin 2047) (f : Fin 4503599627370496) :
    ∀ c ∈ Binary64.magnitudeText e f, isPlain c := by
  obtain ⟨d, ⟨whole, digits, exponent, ht, hw, hd, he, -⟩, -⟩ := spells_magnitudeText e f
  have hdigit : ∀ {t : Text}, Text.IsNumeral t → ∀ c ∈ t, isPlain c :=
    fun h c hc => isPlain_of_isAsciiDigit (h c hc)
  intro c hc
  rw [ht, List.mem_append, List.mem_append] at hc
  rcases hc with hc | hc | hc
  · exact hdigit hw.numeral c hc
  · unfold fractionText at hc
    split at hc
    · simp at hc
    · rcases List.mem_cons.1 hc with rfl | hc
      · decide
      · exact hdigit hd c hc
  · cases exponent with
    | none => simp [exponentText] at hc
    | some ex =>
      rcases List.mem_cons.1 hc with rfl | hc
      · decide
      · rcases List.mem_cons.1 hc with rfl | hc
        · cases ex.1 <;> decide
        · exact hdigit (he ex rfl).1 c hc

variable (hp : ∀ c, isPlain c → p c) (hq : ∀ c : CodePoint, q c → 0x20 ≤ c.val → p c)

include hp hq

theorem mem_writeCodePoint {c d : CodePoint} (hc : q c) (hd : d ∈ writeCodePoint false c) :
    p d := by
  have hplain : ∀ {t : Text}, t.all isPlain → d ∈ t → p d :=
    fun h hd => hp d (List.all_eq_true.1 h d hd)
  unfold writeCodePoint at hd
  simp only [Bool.not_false, Bool.true_or, ↓reduceIte] at hd
  split_ifs at hd with h1 h2 h3 h4 h5 h6 h7
  · refine hplain ?_ hd
    rcases h1 with rfl | rfl <;> decide
  · exact hplain (by decide) hd
  · exact hplain (by decide) hd
  · exact hplain (by decide) hd
  · exact hplain (by decide) hd
  · exact hplain (by decide) hd
  · have hlt : ∀ m, m % 16 < 16 := fun m => Nat.mod_lt m (by decide)
    refine hplain ?_ hd
    rw [unicodeEscape_eq]
    have hslash : isPlain (CodePoint.ofChar '\\') && isPlain (CodePoint.ofChar 'u') := by decide
    simpa [isPlain_hexDigit (hlt _)] using hslash
  · rw [List.mem_singleton.1 hd]
    exact hq c hc (Nat.not_lt.1 h7)

theorem puts_writeString {t : Text} (ht : t.all q) : Puts p (writeString false t ++ ·) := by
  have hquote : (Text.ofString "\"").all isPlain := by decide
  refine puts_append (by simp [writeString, Text.ofString]) fun c hc => ?_
  simp only [writeString, List.mem_append] at hc
  rcases hc with (hc | hc) | hc
  · exact hp c (List.all_eq_true.1 hquote c hc)
  · obtain ⟨d, hd, hc⟩ := List.mem_flatMap.1 hc
    exact mem_writeCodePoint hp hq (List.all_eq_true.1 ht d hd) hc
  · exact hp c (List.all_eq_true.1 hquote c hc)

omit hq in
theorem puts_plain {t : Text} (hne : t ≠ []) (ht : t.all isPlain) : Puts p (t ++ ·) :=
  puts_append hne fun c hc => hp c (List.all_eq_true.1 ht c hc)

omit hq in
theorem puts_signed {negative : Bool} {t : Text} (hne : t ≠ []) (ht : ∀ c ∈ t, isPlain c) :
    Puts p (signText negative ++ t ++ ·) := by
  refine puts_plain hp (by simp [hne]) ?_
  rw [List.all_append, isPlain_signText, List.all_eq_true.2 ht]
  rfl

omit hq in
/-- What is put between brackets. -/
theorem puts_between {f : Text → Text} (hf : Puts p f) {opening closing : CodePoint}
    (ho : isPlain opening) (hc : isPlain closing) (level : ℕ) :
    Puts p fun after => opening :: (Style.settings.newline (level + 1)
      ++ f (Style.settings.newline level ++ closing :: after)) := by
  intro after
  obtain ⟨t, -, htp, hfa⟩ := hf (Style.settings.newline level ++ closing :: after)
  refine ⟨opening :: (Style.settings.newline (level + 1)
    ++ (t ++ (Style.settings.newline level ++ [closing]))), by simp, ?_, ?_⟩
  · simp only [List.mem_cons, List.mem_append, List.not_mem_nil, or_false]
    rintro c (rfl | hc | hc | hc | rfl)
    · exact hp _ ho
    · exact hp c (isPlain_newline _ c hc)
    · exact htp c hc
    · exact hp c (isPlain_newline _ c hc)
    · exact hp _ hc
  · simp [hfa]

omit hq in
theorem separator_plain (level : ℕ) : ∀ c ∈ Style.settings.separator level, p c := by
  intro c hc
  rcases List.mem_cons.1 hc with rfl | hc
  · exact hp _ (by decide)
  · exact hp c (isPlain_newline level c hc)

theorem puts_putField {f : Text × Value} {level : ℕ} (hname : f.1.all q)
    (hvalue : Puts p (writeOnto .settings level f.2)) : Puts p (putField level f) := by
  intro after
  obtain ⟨t, -, htp, ht⟩ := hvalue after
  obtain ⟨s, hne, hsp, hs⟩ :=
    puts_writeString hp hq hname (": " ++ writeOnto .settings level f.2 after)
  refine ⟨s ++ (Text.ofString ": " ++ t), by simp [hne], ?_, ?_⟩
  · have hcolon : (Text.ofString ": ").all isPlain := by decide
    simp only [List.mem_append]
    rintro c (hc | hc | hc)
    · exact hsp c hc
    · exact hp c (List.all_eq_true.1 hcolon c hc)
    · exact htp c hc
  · refine hs.trans ?_
    rw [ht]
    simp only [List.append_assoc]

/-- A written value is a text of its own, made of plain code points and of those in its texts. -/
theorem puts_writeOnto (v : Value) : v.isFormed (textTest q) (fun k => k.all q) →
    ∀ level, Puts p (writeOnto .settings level v) := by
  induction v using Value.induction with
  | null =>
    intro _ level after
    rw [writeOnto]
    exact puts_plain hp (by simp [Text.ofString]) (by decide) after
  | bool b =>
    intro _ level after
    cases b with
    | false =>
      rw [writeOnto]
      exact puts_plain hp (by simp [Text.ofString]) (by decide) after
    | true =>
      rw [writeOnto]
      exact puts_plain hp (by simp [Text.ofString]) (by decide) after
  | int n =>
    intro _ level after
    rw [writeOnto, ofInt_eq]
    exact puts_signed hp (Text.ofNat_ne_nil _)
      (fun c hc => isPlain_of_isAsciiDigit (Text.isNumeral_ofNat _ c hc)) after
  | float x =>
    intro _ level after
    rw [writeOnto]
    cases x with
    | nan => exact puts_plain hp (by simp [Binary64.textWith, Text.ofString]) (by decide) after
    | infinite negative =>
      have hword : (Text.ofString "Infinity").all isPlain := by decide
      exact puts_signed hp (by simp [Text.ofString]) (List.all_eq_true.1 hword) after
    | finite negative e f =>
      obtain ⟨c, rest, ht, -⟩ := exists_digit_magnitudeText e f
      exact puts_signed hp (by simp [ht]) (isPlain_magnitudeText e f) after
  | str t =>
    intro ht level after
    rw [writeOnto]
    exact puts_writeString hp hq ht after
  | list items ih =>
    intro h level
    have hitems := Value.isFormed_list.1 h
    by_cases hne : items = []
    · intro after
      rw [hne, writeOnto_list_nil]
      exact puts_plain hp (by simp) (by decide) after
    · have hjoin : Puts p (putItems (level + 1) items) := by
        refine puts_joinOnto (separator_plain hp _) (by simpa using hne) ?_
        simp only [List.forall_mem_map]
        exact fun v hv => ih v hv (hitems v hv) _
      intro after
      rw [writeOnto_list hne]
      exact puts_between hp hjoin (by decide) (by decide) level after
  | object fields ih =>
    intro h level
    obtain ⟨-, hnames, hvalues⟩ := Value.isFormed_object.1 h
    by_cases hne : fields = []
    · intro after
      rw [hne, writeOnto_object_nil]
      exact puts_plain hp (by simp) (by decide) after
    · have hjoin : Puts p (putFields (level + 1) (Fields.sorted fields)) := by
        refine puts_joinOnto (separator_plain hp _) (by simpa using sorted_ne_nil hne) ?_
        simp only [List.forall_mem_map]
        intro f hf
        have hmem := (Fields.sorted_perm fields).mem_iff.1 hf
        exact puts_putField hp hq (hnames f.1 (List.mem_map_of_mem hmem))
          (ih f hmem (hvalues f hmem) _)
      intro after
      rw [writeOnto_object hne]
      exact puts_between hp hjoin (by decide) (by decide) level after

end Puts

theorem isFormed_of_isProper {v : Value} (hv : v.isProper) :
    v.isFormed (textTest fun _ => true) (fun k => k.all fun _ => true) := by
  refine Value.isFormed_mono (fun w _ => ?_) (fun k _ => by simp) v hv
  cases w <;> simp [textTest]

theorem length_writeOnto {v : Value} (hv : v.isProper) (level : ℕ) (after : Text) :
    after.length < (writeOnto .settings level v after).length := by
  obtain ⟨t, hne, -, ht⟩ :=
    puts_writeOnto (p := fun _ => true) (fun _ _ => rfl) (fun _ _ _ => rfl) v
    (isFormed_of_isProper hv) level after
  rw [ht, List.length_append]
  have := List.length_pos_iff.2 hne
  omega

/-- Whether no surrogate is in a text. -/
def isClearText (t : Text) : Bool := t.all fun c => !Utf8.isSurrogate c

/-- Whether no surrogate is in the texts and names of a value, the names in each of its objects
being distinct. -/
def isClear : Value → Bool := Value.isFormed (textTest fun c => !Utf8.isSurrogate c) isClearText

theorem isProper_of_isClear {v : Value} (hv : isClear v) : v.isProper :=
  Value.isProper_of_isFormed v hv

theorem not_isSurrogate_of_isPlain {c : CodePoint} (hc : isPlain c) : !Utf8.isSurrogate c := by
  have hlt : c.val < 0x7F := by
    simp only [isPlain, Bool.or_eq_true, Bool.and_eq_true, decide_eq_true_eq] at hc
    rcases hc with hc | rfl
    · exact hc.2
    · decide
  simp only [Utf8.isSurrogate, Bool.not_eq_true', Bool.and_eq_false_imp, decide_eq_true_eq,
    decide_eq_false_iff_not]
  omega

theorem encodable_write {v : Value} (level : ℕ) (hv : isClear v) :
    Utf8.Encodable (write .settings level v) := by
  obtain ⟨t, -, htp, ht⟩ :=
    puts_writeOnto (fun _ => not_isSurrogate_of_isPlain) (fun c hc _ => hc) v hv level []
  rw [write, ht, List.append_nil]
  exact fun c hc => by simpa using htp c hc

theorem writeCodePoint_of_isSurrogate {c : CodePoint} (hc : Utf8.isSurrogate c) :
    writeCodePoint false c = [c] := by
  have hlow : 0xD800 ≤ c.val := by
    simp only [Utf8.isSurrogate, Bool.and_eq_true, decide_eq_true_eq] at hc
    exact hc.1
  have hne : ∀ {d : Char}, (CodePoint.ofChar d).val < 0xD800 → c ≠ CodePoint.ofChar d := by
    rintro d hd rfl
    omega
  unfold writeCodePoint
  rw [if_neg (not_or.2 ⟨hne (by decide), hne (by decide)⟩), if_neg (hne (by decide)),
    if_neg (hne (by decide)), if_neg (hne (by decide)), if_neg (by omega), if_neg (by omega),
    if_neg (by omega), if_pos (by simp)]

theorem isClearText_of_writeString {t after : Text}
    (h : Utf8.Encodable (writeString false t ++ after)) : isClearText t := by
  rw [writeString_append] at h
  refine List.all_eq_true.2 fun c hc => ?_
  by_contra hnot
  have hsurrogate : Utf8.isSurrogate c := by simpa using hnot
  have hmem : c ∈ t.flatMap (writeCodePoint false) := by
    refine List.mem_flatMap.2 ⟨c, hc, ?_⟩
    rw [writeCodePoint_of_isSurrogate hsurrogate]
    exact List.mem_singleton_self c
  have hclear := h c (List.mem_cons_of_mem _ (List.mem_append_left _ hmem))
  rw [hsurrogate] at hclear
  cases hclear

/-- Of items joined to a text with a UTF-8 form, each is written with one. -/
theorem encodable_of_joinOnto {separator after : Text} : ∀ {items : List (Text → Text)},
    (∀ item ∈ items, Puts (fun _ => true) item) →
    Utf8.Encodable (joinOnto separator items after) →
    ∀ item ∈ items, ∃ rest, Utf8.Encodable (item rest)
  | [], _, _ => by simp
  | [item], _, h => List.forall_mem_singleton.2 ⟨after, h⟩
  | item :: next :: others, hputs, h => by
    obtain ⟨hitem, hothers⟩ := List.forall_mem_cons.1 hputs
    change Utf8.Encodable (item (separator ++ joinOnto separator (next :: others) after)) at h
    have hrest : Utf8.Encodable (joinOnto separator (next :: others) after) := by
      obtain ⟨t, -, -, ht⟩ := hitem (separator ++ joinOnto separator (next :: others) after)
      rw [ht, ← List.append_assoc] at h
      exact h.of_subset (List.subset_append_right _ _)
    exact List.forall_mem_cons.2 ⟨⟨_, h⟩, encodable_of_joinOnto hothers hrest⟩

/-- A document whose text has a UTF-8 form has no surrogates. -/
theorem isClear_of_encodable (v : Value) : v.isProper → ∀ {level : ℕ} {after : Text},
    Utf8.Encodable (writeOnto .settings level v after) → isClear v := by
  have hputs : ∀ {w : Value} (level : ℕ), w.isProper →
      Puts (fun _ => true) (writeOnto .settings level w) := fun {w} level hw =>
    puts_writeOnto (fun _ _ => rfl) (fun _ _ _ => rfl) w (isFormed_of_isProper hw) level
  induction v using Value.induction with
  | null => exact fun _ _ _ _ => rfl
  | bool b => exact fun _ _ _ _ => rfl
  | int n => exact fun _ _ _ _ => rfl
  | float x => exact fun _ _ _ _ => rfl
  | str t =>
    intro _ level after h
    rw [writeOnto] at h
    exact isClearText_of_writeString h
  | list items ih =>
    intro hproper level after h
    have hitems := Value.isFormed_list.1 hproper
    refine Value.isFormed_list.2 fun w hw => ?_
    rw [writeOnto_list (List.ne_nil_of_mem hw)] at h
    have hjoin : Utf8.Encodable (putItems (level + 1) items _) :=
      h.of_subset (List.subset_cons_of_subset _ (List.subset_append_right _ _))
    obtain ⟨rest, hrest⟩ := encodable_of_joinOnto
      (List.forall_mem_map.2 fun v hv => hputs _ (hitems v hv)) hjoin _ (List.mem_map_of_mem hw)
    exact ih w hw (hitems w hw) hrest
  | object fields ih =>
    intro hproper level after h
    obtain ⟨hnodup, -, hvalues⟩ := Value.isFormed_object.1 hproper
    have hfield : ∀ f ∈ fields, ∃ rest, Utf8.Encodable (putField (level + 1) f rest) := by
      intro f hf
      rw [writeOnto_object (List.ne_nil_of_mem hf)] at h
      have hjoin : Utf8.Encodable (putFields (level + 1) (Fields.sorted fields) _) :=
        h.of_subset (List.subset_cons_of_subset _ (List.subset_append_right _ _))
      refine encodable_of_joinOnto (List.forall_mem_map.2 fun g hg => ?_) hjoin _
        (List.mem_map_of_mem ((Fields.sorted_perm fields).mem_iff.2 hf))
      exact puts_putField (q := fun _ => true) (fun _ _ => rfl) (fun _ _ _ => rfl) (by simp)
        (hputs _ (hvalues g ((Fields.sorted_perm fields).mem_iff.1 hg)))
    refine Value.isFormed_object.2 ⟨hnodup, List.forall_mem_map.2 fun f hf => ?_, fun f hf => ?_⟩
    · obtain ⟨rest, hrest⟩ := hfield f hf
      exact isClearText_of_writeString hrest
    · obtain ⟨rest, hrest⟩ := hfield f hf
      exact ih f hf (hvalues f hf) (hrest.of_subset
        (List.subset_append_of_subset_right _ (List.subset_append_right _ _)))

theorem encodable_write_iff {v : Value} (level : ℕ) (hv : v.isProper) :
    Utf8.Encodable (write .settings level v) ↔ isClear v :=
  ⟨isClear_of_encodable v hv, encodable_write level⟩

theorem notMem_write {v : Value} (level : ℕ) (hv : v.isProper) :
    CodePoint.ofChar '\r' ∉ write .settings level v := by
  have hplain : ∀ c, isPlain c → decide (c ≠ CodePoint.ofChar '\r') := by
    rintro c hc
    rw [decide_eq_true_eq]
    rintro rfl
    exact absurd hc (by decide)
  have hother : ∀ c : CodePoint, true → 0x20 ≤ c.val → decide (c ≠ CodePoint.ofChar '\r') := by
    intro c _ hc
    rw [decide_eq_true_eq]
    rintro rfl
    exact absurd hc (by decide)
  obtain ⟨t, -, htp, ht⟩ := puts_writeOnto hplain hother v (isFormed_of_isProper hv) level []
  rw [write, ht, List.append_nil]
  exact fun hmem => by simpa using htp _ hmem

end Json

end DhrWorkbench
