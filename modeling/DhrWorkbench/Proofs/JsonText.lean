import DhrWorkbench.Proofs.JsonLayout

/-!
# Values that are read back

The text that a value is written as is read as that value with its fields in order, whatever
follows the text (`isReadBack`). The induction is on the value; what is read has to stop where the
value ends, which the next code point decides (`Stops`), and the bound of the recursion has to
exceed twice the length of the text that is left. The reader gives distinct names to the fields of
every object (`isProper_of_readBytes`).
-/

namespace DhrWorkbench

namespace Json

open Binary64 (signText)

/-! ## Strings -/

theorem hexValue?_hexDigit : ∀ {d : ℕ}, d < 16 → Text.hexValue? (Text.hexDigit d) = some d := by
  decide

theorem hexUnit?_hexDigit {n : ℕ} (h : n < 65536) : hexUnit? (Text.hexDigit (n / 4096 % 16))
    (Text.hexDigit (n / 256 % 16)) (Text.hexDigit (n / 16 % 16)) (Text.hexDigit (n % 16))
      = some n := by
  have hlt : ∀ m, m % 16 < 16 := fun m => Nat.mod_lt m (by decide)
  have hsum : n / 4096 % 16 * 0x1000 + n / 256 % 16 * 0x100 + n / 16 % 16 * 0x10 + n % 16 = n := by
    omega
  simp only [hexUnit?, hexValue?_hexDigit (hlt _), Option.bind_eq_bind, Option.bind_some,
    Option.pure_def, hsum]

theorem readString_cons (start p : ℕ) (c : CodePoint) (rest : Text) :
    readString start p 0 (c :: rest) =
      if c = CodePoint.ofChar '"' then .ok ([], ⟨p + 1, rest⟩)
      else if c = CodePoint.ofChar '\\' then
        match readEscape start p rest with
        | .error fault => .error fault
        | .ok (c, length) => push c (readString start (p + 1) length rest)
      else if c.val < 0x20 then .error (.malformed .control p)
      else push c (readString start (p + 1) 0 rest) := rfl

theorem readString_skip (start : ℕ) : ∀ (skipped rest : Text) (p : ℕ),
    readString start p skipped.length (skipped ++ rest)
      = readString start (p + skipped.length) 0 rest
  | [], rest, p => rfl
  | c :: skipped, rest, p => by
    refine (readString_skip start skipped rest (p + 1)).trans ?_
    rw [List.length_cons]
    congr 1
    omega

/-- An escaped code point is read as that code point. -/
theorem readString_escaped {start p : ℕ} {c : CodePoint} {escape rest : Text}
    (h : readEscape start p (escape ++ rest) = .ok (c, escape.length)) :
    ∃ q, readString start p 0 (CodePoint.ofChar '\\' :: (escape ++ rest))
      = push c (readString start q 0 rest) := by
  have hquote : CodePoint.ofChar '\\' ≠ CodePoint.ofChar '"' := by decide
  refine ⟨p + 1 + escape.length, ?_⟩
  rw [readString_cons, if_neg hquote, if_pos rfl, h]
  simp only
  rw [readString_skip]

theorem readString_codePoint (start p : ℕ) (c : CodePoint) {rest : Text} (hrest : rest ≠ []) :
    ∃ q, readString start p 0 (writeCodePoint false c ++ rest)
      = push c (readString start q 0 rest) := by
  have hletter : ∀ {e : CodePoint}, e ≠ CodePoint.ofChar 'u' → escapeOf? e = some c →
      ∃ q, readString start p 0 (CodePoint.ofChar '\\' :: ([e] ++ rest))
        = push c (readString start q 0 rest) := by
    intro e hu he
    refine readString_escaped ?_
    unfold readEscape
    simp only [List.singleton_append, if_neg hu, he, List.length_singleton]
  unfold writeCodePoint
  simp only [Bool.not_false, Bool.true_or, ↓reduceIte]
  split_ifs with h1 h2 h3 h4 h5 h6 h7
  · refine hletter ?_ (by rcases h1 with rfl | rfl <;> decide)
    rcases h1 with rfl | rfl <;> decide
  · exact hletter (e := CodePoint.ofChar 'n') (by decide) (by rw [h2]; decide)
  · exact hletter (e := CodePoint.ofChar 'r') (by decide) (by rw [h3]; decide)
  · exact hletter (e := CodePoint.ofChar 't') (by decide) (by rw [h4]; decide)
  · obtain rfl : c = CodePoint.ofNat 8 := Fin.ext h5
    exact hletter (e := CodePoint.ofChar 'b') (by decide) (by decide)
  · obtain rfl : c = CodePoint.ofNat 12 := Fin.ext h6
    exact hletter (e := CodePoint.ofChar 'f') (by decide) (by decide)
  · obtain ⟨more, rest, rfl⟩ := List.exists_cons_of_ne_nil hrest
    have hhigh : isHigh c.val = false := by
      simp only [isHigh, Bool.and_eq_false_imp, decide_eq_true_eq, decide_eq_false_iff_not]
      omega
    have hpoint : CodePoint.ofNat c.val = c := Fin.ext (Nat.mod_eq_of_lt c.isLt)
    rw [unicodeEscape_eq, List.cons_append]
    refine readString_escaped ?_
    simp only [List.cons_append, List.nil_append, readEscape, ↓reduceIte,
      hexUnit?_hexDigit (show c.val < 65536 by omega), hhigh, hpoint]
    rfl
  · refine ⟨p + 1, ?_⟩
    rw [List.singleton_append, readString_cons, if_neg fun h => h1 (.inl h),
      if_neg fun h => h1 (.inr h), if_neg h7]

theorem readString_write (start : ℕ) (after : Text) : ∀ (t : Text) (p : ℕ),
    ∃ q, readString start p 0 (t.flatMap (writeCodePoint false) ++ CodePoint.ofChar '"' :: after)
      = .ok (t, ⟨q, after⟩)
  | [], p => by
    refine ⟨p + 1, ?_⟩
    rw [List.flatMap_nil, List.nil_append, readString_cons, if_pos rfl]
  | c :: t, p => by
    have hrest : t.flatMap (writeCodePoint false) ++ CodePoint.ofChar '"' :: after ≠ [] := by simp
    obtain ⟨q, hq⟩ := readString_codePoint start p c hrest
    obtain ⟨r, hr⟩ := readString_write start after t q
    refine ⟨r, ?_⟩
    rw [List.flatMap_cons, List.append_assoc, hq, hr]
    rfl

/-! ## Space -/

theorem isAt_cons (p : ℕ) (c : CodePoint) (rest : Text) (ch : Char) :
    (Cursor.mk p (c :: rest)).isAt ch = decide (c = CodePoint.ofChar ch) := by
  simp [Cursor.isAt, Cursor.next?]

theorem advance_cons (p : ℕ) (c : CodePoint) (rest : Text) :
    (Cursor.mk p (c :: rest)).advance 1 = ⟨p + 1, rest⟩ := rfl

theorem skipSpace_append {spaces rest : Text} (p : ℕ) (hs : ∀ c ∈ spaces, Cursor.isSpace c)
    (hr : ∀ c ∈ rest.head?, Cursor.isSpace c = false) :
    ∃ q, (Cursor.mk p (spaces ++ rest)).skipSpace = ⟨q, rest⟩ := by
  have htake : (spaces ++ rest).takeWhile Cursor.isSpace = spaces := by
    rw [List.takeWhile_append_of_pos hs]
    cases rest with
    | nil => simp
    | cons c rest => simp [hr c rfl]
  refine ⟨p + spaces.length, ?_⟩
  rw [Cursor.skipSpace, htake, Cursor.advance, List.drop_left]

theorem isSpace_newline (level : ℕ) : ∀ c ∈ Style.settings.newline level, Cursor.isSpace c := by
  intro c hc
  rcases List.mem_cons.1 hc with rfl | hc
  · decide
  · rw [(List.mem_replicate.1 hc).2]
    decide

theorem skipSpace_newline {level p : ℕ} {c : CodePoint} {rest : Text}
    (hc : Cursor.isSpace c = false) :
    ∃ q, (Cursor.mk p (Style.settings.newline level ++ c :: rest)).skipSpace = ⟨q, c :: rest⟩ :=
  skipSpace_append p (isSpace_newline level) (by simpa using hc)

theorem skipSpace_cons {p : ℕ} {c : CodePoint} {rest : Text} (hc : Cursor.isSpace c = false) :
    (Cursor.mk p (c :: rest)).skipSpace = ⟨p, c :: rest⟩ := by
  simp [Cursor.skipSpace, hc, Cursor.advance]

theorem isSpace_of_isStart {c : CodePoint} (hc : isStart c) : Cursor.isSpace c = false := by
  simp only [isStart, Bool.and_eq_true, Bool.not_eq_true'] at hc
  exact hc.1.1

/-! ## Numbers and words -/

theorem find?_literals {negative : Bool} {c : CodePoint} {rest : Text} (hc : isAsciiDigit c) :
    (literals.find? fun l => l.1.isPrefixOf (signText negative ++ c :: rest)) = none := by
  have hne : ∀ {d : Char}, isAsciiDigit (CodePoint.ofChar d) = false →
      ¬ CodePoint.ofChar d = c := fun hd => (ne_of_isAsciiDigit hc hd).symm
  cases negative <;>
    simp [literals, signText, Text.ofString, List.isPrefixOf, hne (d := 'n') (by decide),
      hne (d := 't') (by decide), hne (d := 'f') (by decide), hne (d := 'N') (by decide),
      hne (d := 'I') (by decide), hne (d := '-') (by decide)]

theorem readValue_literal {word : Text} {value : Value} (h : (word, value) ∈ literals)
    (fuel depth p : ℕ) (after : Text) : readValue (fuel + 1) depth ⟨p, word ++ after⟩
      = .ok (value, ⟨p + word.length, after⟩) := by
  simp only [literals, List.mem_cons, Prod.mk.injEq, List.not_mem_nil, or_false] at h
  unfold readValue
  rcases h with ⟨rfl, rfl⟩ | ⟨rfl, rfl⟩ | ⟨rfl, rfl⟩ | ⟨rfl, rfl⟩ | ⟨rfl, rfl⟩ | ⟨rfl, rfl⟩ <;>
    simp [literals, Text.ofString, isAt_cons, Cursor.advance]

/-- A number in a text is read as a number. -/
theorem readValue_number {fuel depth p : ℕ} {negative : Bool} {c : CodePoint} {rest : Text}
    (hc : isAsciiDigit c) : readValue (fuel + 1) depth ⟨p, signText negative ++ c :: rest⟩
      = readNumber ⟨p, signText negative ++ c :: rest⟩ := by
  have hne : ∀ {d : Char}, isAsciiDigit (CodePoint.ofChar d) = false →
      ¬ c = CodePoint.ofChar d := fun hd => ne_of_isAsciiDigit hc hd
  have hat : ∀ {d : Char}, isAsciiDigit (CodePoint.ofChar d) = false → d ≠ '-' →
      (Cursor.mk p (signText negative ++ c :: rest)).isAt d = false := by
    intro d hd hminus
    cases negative with
    | false => simpa [signText, Text.ofString, isAt_cons] using hne hd
    | true => simpa [signText, Text.ofString, isAt_cons] using hminus.symm
  unfold readValue
  simp only [hat (d := '"') (by decide) (by decide), hat (d := '\x7b') (by decide) (by decide),
    hat (d := '[') (by decide) (by decide), Bool.false_eq_true, ↓reduceIte, find?_literals hc]

theorem readValue_int {n : ℤ} {after : Text} {fuel depth : ℕ} (p : ℕ) (hs : Stops after)
    (hn : (Value.int n).hasLongInteger = false) :
    ∃ q, readValue (fuel + 1) depth ⟨p, Text.ofInt n ++ after⟩ = .ok (.int n, ⟨q, after⟩) := by
  have hlen : Decimal.digitCount n.natAbs ≤ Text.digitLimit := by
    simpa [Value.hasLongInteger] using hn
  obtain ⟨q, hq⟩ := readNumber_int (decide (n < 0)) p hs hlen
  obtain ⟨c, rest, hdigits, hc⟩ :=
    exists_digit_of_isNumeral (Text.isNumeral_ofNat n.natAbs) (Text.ofNat_ne_nil _)
  have hvalue : (if decide (n < 0) then -(n.natAbs : ℤ) else n.natAbs) = n := by
    simp only [decide_eq_true_eq]
    split <;> omega
  refine ⟨q, ?_⟩
  rw [hvalue] at hq
  rw [ofInt_eq, List.append_assoc]
  rw [hdigits, List.cons_append] at hq ⊢
  rw [readValue_number hc, hq]

theorem readValue_float {x : Binary64} {after : Text} {fuel depth : ℕ} (p : ℕ) (hs : Stops after) :
    ∃ q, readValue (fuel + 1) depth ⟨p, x.textWith "NaN" "Infinity" ++ after⟩
      = .ok (.float x, ⟨q, after⟩) := by
  cases x with
  | nan =>
    have hword : (Binary64.nan.textWith "NaN" "Infinity", .float .nan) ∈ literals := by
      simp [literals, Binary64.textWith, Text.ofString]
    exact ⟨_, readValue_literal hword fuel depth p after⟩
  | infinite negative =>
    have hword : ((Binary64.infinite negative).textWith "NaN" "Infinity",
        .float (.infinite negative)) ∈ literals := by
      cases negative <;> simp [literals, Binary64.textWith, signText, Text.ofString]
    exact ⟨_, readValue_literal hword fuel depth p after⟩
  | finite negative e f =>
    obtain ⟨q, hq⟩ := readNumber_finite negative e f p hs
    obtain ⟨c, rest, hdigits, hc⟩ := exists_digit_magnitudeText e f
    refine ⟨q, ?_⟩
    rw [Binary64.textWith, List.append_assoc]
    rw [hdigits, List.cons_append] at hq ⊢
    rw [readValue_number hc, hq]

theorem readValue_str (t after : Text) (fuel depth p : ℕ) :
    ∃ q, readValue (fuel + 1) depth ⟨p, writeString false t ++ after⟩
      = .ok (.str t, ⟨q, after⟩) := by
  obtain ⟨q, hq⟩ := readString_write p after t (p + 1)
  refine ⟨q, ?_⟩
  rw [writeString_append]
  unfold readValue
  rw [isAt_cons, decide_eq_true rfl, if_pos rfl]
  simp only [List.drop_succ_cons, List.drop_zero, hq]
  rfl

/-! ## Lists and objects -/

/-- Where a value ends in a settings file. -/
theorem stops_of_head {c : CodePoint} {rest : Text}
    (hc : c = CodePoint.ofChar ',' ∨ c = CodePoint.ofChar '\n') :
    Stops (c :: rest) where
  digit := by
    rintro d ⟨⟩
    rcases hc with rfl | rfl <;> decide
  point := by rcases hc with rfl | rfl <;> simp
  small := by rcases hc with rfl | rfl <;> simp
  capital := by rcases hc with rfl | rfl <;> simp

theorem stops_newline (level : ℕ) (rest : Text) : Stops (Style.settings.newline level ++ rest) :=
  stops_of_head (.inr rfl)

/-- A value that is read back wherever it is written, up to the order of its fields. -/
def IsReadBack (v : Value) : Prop :=
  ∀ {fuel depth level p : ℕ} {after : Text}, Stops after →
    2 * (writeOnto .settings level v after).length ≤ fuel → v.height ≤ depth →
    ∃ q, readValue fuel depth ⟨p, writeOnto .settings level v after⟩
      = .ok (v.arranged, ⟨q, after⟩)

/-- The items of a list are read back up to its closing bracket. -/
theorem readItems_putItems {depth level close : ℕ} {after : Text} : ∀ {items : List Value},
    items ≠ [] → (∀ v ∈ items, v.isProper ∧ IsReadBack v ∧ v.height ≤ depth) →
    ∀ {fuel p : ℕ}, 2 * (putItems level items
        (Style.settings.newline close ++ CodePoint.ofChar ']' :: after)).length < fuel →
    ∃ q, readItems fuel depth ⟨p, putItems level items
        (Style.settings.newline close ++ CodePoint.ofChar ']' :: after)⟩
      = .ok (items.map Value.arranged, ⟨q, after⟩)
  | [], hne, _, _, _, _ => absurd rfl hne
  | [v], _, h, fuel, p, hfuel => by
    obtain ⟨-, hback, hheight⟩ := h v (by simp)
    obtain ⟨fuel, rfl⟩ : ∃ n, fuel = n + 1 := ⟨fuel - 1, by omega⟩
    obtain ⟨q, hq⟩ := hback (p := p) (stops_newline close _) (Nat.le_of_lt_succ hfuel) hheight
    obtain ⟨r, hr⟩ := @skipSpace_newline close q (CodePoint.ofChar ']') after (by decide)
    refine ⟨r + 1, ?_⟩
    change readItems (fuel + 1) depth ⟨p, writeOnto .settings level v _⟩ = _
    unfold readItems
    simp only [hq, hr, isAt_cons, decide_true, ↓reduceIte]
    rfl
  | v :: w :: rest, _, h, fuel, p, hfuel => by
    obtain ⟨hproper, hback, hheight⟩ := h v (by simp)
    obtain ⟨fuel, rfl⟩ : ∃ n, fuel = n + 1 := ⟨fuel - 1, by omega⟩
    rw [putItems_cons_cons] at hfuel ⊢
    have hlength := length_writeOnto hproper level (CodePoint.ofChar ',' ::
      (Style.settings.newline level ++ putItems level (w :: rest)
        (Style.settings.newline close ++ CodePoint.ofChar ']' :: after)))
    rw [List.length_cons, List.length_append] at hlength
    obtain ⟨q, hq⟩ := hback (p := p) (stops_of_head (.inl rfl)) (Nat.le_of_lt_succ hfuel) hheight
    obtain ⟨c, tail, hstart, hc⟩ := @exists_start_putItems level _ (List.cons_ne_nil w rest)
      (Style.settings.newline close ++ CodePoint.ofChar ']' :: after)
    obtain ⟨r, hr⟩ := @skipSpace_newline level (q + 1) c tail (isSpace_of_isStart hc)
    rw [← hstart] at hr
    have hleft : 2 * (putItems level (w :: rest)
        (Style.settings.newline close ++ CodePoint.ofChar ']' :: after)).length < fuel := by omega
    obtain ⟨e, he⟩ := readItems_putItems (p := r) (List.cons_ne_nil w rest)
      (fun u hu => h u (List.mem_cons_of_mem _ hu)) hleft
    refine ⟨e, ?_⟩
    have hcomma : CodePoint.ofChar ',' ≠ CodePoint.ofChar ']' := by decide
    unfold readItems
    simp only [hq, skipSpace_cons (show Cursor.isSpace (CodePoint.ofChar ',') = false by decide),
      isAt_cons, advance_cons, hcomma, decide_false, Bool.false_eq_true, decide_true, ↓reduceIte,
      hr, he]
    rfl

/-- A field is read and set; then the object ends or goes on. -/
theorem readFields_putField {fuel depth level : ℕ} (p : ℕ) {f : Text × Value} {after : Text}
    (fields : Fields) (hback : IsReadBack f.2) (hs : Stops after)
    (hfuel : 2 * (putField level f after).length ≤ fuel) (hheight : f.2.height ≤ depth) :
    ∃ q, readFields (fuel + 1) depth fields ⟨p, putField level f after⟩
      = (let cursor := (Cursor.mk q after).skipSpace
        if cursor.isAt '\x7d' then .ok (Fields.insert f.1 f.2.arranged fields, cursor.advance 1)
        else if cursor.isAt ',' then
          readFields fuel depth (Fields.insert f.1 f.2.arranged fields) (cursor.advance 1).skipSpace
        else cursor.fail .comma) := by
  obtain ⟨q, hq⟩ := readString_write p (CodePoint.ofChar ':' :: CodePoint.ofChar ' '
    :: writeOnto .settings level f.2 after) f.1 (p + 1)
  obtain ⟨c, tail, hstart, hc⟩ := exists_start level f.2 after
  obtain ⟨r, hr⟩ :=
    @skipSpace_append [CodePoint.ofChar ' '] (c :: tail) (q + 1) (by simp [Cursor.isSpace])
    (by simpa using isSpace_of_isStart hc)
  rw [← hstart, List.singleton_append] at hr
  have hlength : 2 * (writeOnto .settings level f.2 after).length ≤ fuel := by
    rw [putField_eq] at hfuel
    simp only [List.length_cons, List.length_append] at hfuel
    omega
  obtain ⟨e, he⟩ := hback (p := r) hs hlength hheight
  refine ⟨e, ?_⟩
  rw [putField_eq, readFields]
  simp only [isAt_cons, decide_true, Bool.not_true, Bool.false_eq_true, ↓reduceIte,
    List.drop_succ_cons, List.drop_zero, hq, advance_cons,
    skipSpace_cons (show Cursor.isSpace (CodePoint.ofChar ':') = false by decide), hr, he]

/-- The fields of an object are read back up to its closing brace, after those that were read. -/
theorem readFields_putFields {depth level close : ℕ} {after : Text} : ∀ {fs : Fields}, fs ≠ [] →
    (∀ f ∈ fs, f.2.isProper ∧ IsReadBack f.2 ∧ f.2.height ≤ depth) →
    ∀ {done : Fields}, (Fields.keys (done ++ fs)).Nodup →
    ∀ {fuel p : ℕ}, 2 * (putFields level fs
        (Style.settings.newline close ++ CodePoint.ofChar '\x7d' :: after)).length < fuel →
    ∃ q, readFields fuel depth done ⟨p, putFields level fs
        (Style.settings.newline close ++ CodePoint.ofChar '\x7d' :: after)⟩
      = .ok (done ++ Fields.mapValues Value.arranged fs, ⟨q, after⟩)
  | [], hne, _, _, _, _, _, _ => absurd rfl hne
  | [f], _, h, done, hkeys, fuel, p, hfuel => by
    obtain ⟨-, hback, hheight⟩ := h f (by simp)
    obtain ⟨fuel, rfl⟩ : ∃ n, fuel = n + 1 := ⟨fuel - 1, by omega⟩
    obtain ⟨q, hq⟩ := readFields_putField p done hback (stops_newline close _)
      (Nat.le_of_lt_succ hfuel) hheight
    obtain ⟨r, hr⟩ := @skipSpace_newline close q (CodePoint.ofChar '\x7d') after (by decide)
    have hnew : f.1 ∉ Fields.keys done := by
      simp only [Fields.keys, List.map_append, List.nodup_append] at hkeys
      exact fun hmem => hkeys.2.2 _ hmem f.1 (by simp) rfl
    refine ⟨r + 1, ?_⟩
    change readFields (fuel + 1) depth done ⟨p, putField level f _⟩ = _
    rw [hq]
    simp only [hr, isAt_cons, decide_true, ↓reduceIte, advance_cons, Fields.insert_of_notMem _ hnew]
    rfl
  | f :: g :: rest, _, h, done, hkeys, fuel, p, hfuel => by
    obtain ⟨hproper, hback, hheight⟩ := h f (by simp)
    obtain ⟨fuel, rfl⟩ : ∃ n, fuel = n + 1 := ⟨fuel - 1, by omega⟩
    rw [putFields_cons_cons] at hfuel ⊢
    obtain ⟨q, hq⟩ := readFields_putField p done hback (stops_of_head (.inl rfl))
      (Nat.le_of_lt_succ hfuel) hheight
    have hlength := length_writeOnto hproper level (CodePoint.ofChar ',' ::
      (Style.settings.newline level ++ putFields level (g :: rest)
        (Style.settings.newline close ++ CodePoint.ofChar '\x7d' :: after)))
    have hleft : 2 * (putFields level (g :: rest)
        (Style.settings.newline close ++ CodePoint.ofChar '\x7d' :: after)).length < fuel := by
      rw [putField_eq] at hfuel
      simp only [List.length_cons, List.length_append] at hfuel hlength
      omega
    obtain ⟨tail, hstart⟩ := @exists_quote_putFields level _ (List.cons_ne_nil g rest)
      (Style.settings.newline close ++ CodePoint.ofChar '\x7d' :: after)
    obtain ⟨r, hr⟩ := @skipSpace_newline level (q + 1) (CodePoint.ofChar '"') tail (by decide)
    rw [← hstart] at hr
    have hnew : f.1 ∉ Fields.keys done := by
      simp only [Fields.keys, List.map_append, List.nodup_append] at hkeys
      exact fun hmem => hkeys.2.2 _ hmem f.1 (by simp) rfl
    have hkeys' : (Fields.keys (done ++ [(f.1, f.2.arranged)] ++ g :: rest)).Nodup := by
      simpa [Fields.keys] using hkeys
    obtain ⟨e, he⟩ := readFields_putFields (p := r) (List.cons_ne_nil g rest)
      (fun i hi => h i (List.mem_cons_of_mem _ hi)) hkeys' hleft
    have hcomma : CodePoint.ofChar ',' ≠ CodePoint.ofChar '\x7d' := by decide
    refine ⟨e, ?_⟩
    rw [hq]
    simp only [skipSpace_cons (show Cursor.isSpace (CodePoint.ofChar ',') = false by decide),
      isAt_cons, advance_cons, hcomma, decide_false, Bool.false_eq_true, decide_true, ↓reduceIte,
      hr, Fields.insert_of_notMem _ hnew, he]
    simp [Fields.mapValues]

/-- Reading a value needs a turn of the recursion, and one level of depth. -/
theorem exists_bounds {v : Value} {fuel depth level : ℕ} {after : Text}
    (hfuel : 2 * (writeOnto .settings level v after).length ≤ fuel) (hheight : v.height ≤ depth) :
    (∃ n, fuel = n + 1) ∧ ∃ n, depth = n + 1 := by
  obtain ⟨c, rest, hstart, -⟩ := exists_start level v after
  have hpos := v.height_pos
  rw [hstart, List.length_cons] at hfuel
  exact ⟨⟨fuel - 1, by omega⟩, ⟨depth - 1, by omega⟩⟩

theorem isReadBack_list {items : List Value} (hback : ∀ v ∈ items, v.isProper ∧ IsReadBack v) :
    IsReadBack (.list items) := by
  intro fuel depth level p after hs hfuel hheight
  obtain ⟨⟨fuel, rfl⟩, depth, rfl⟩ := exists_bounds hfuel hheight
  have hheights := Value.height_list_le_iff.1 hheight
  have hquote : CodePoint.ofChar '[' ≠ CodePoint.ofChar '"' := by decide
  have hbrace : CodePoint.ofChar '[' ≠ CodePoint.ofChar '\x7b' := by decide
  by_cases hne : items = []
  · subst hne
    refine ⟨p + 1 + 1, ?_⟩
    rw [writeOnto_list_nil, Value.arranged_list]
    unfold readValue
    simp only [List.cons_append, List.nil_append, isAt_cons, hquote, hbrace, decide_false,
      Bool.false_eq_true, decide_true, ↓reduceIte, advance_cons,
      skipSpace_cons (show Cursor.isSpace (CodePoint.ofChar ']') = false by decide)]
    rfl
  · rw [writeOnto_list hne] at hfuel ⊢
    obtain ⟨c, rest, hstart, hc⟩ := @exists_start_putItems (level + 1) _ hne
      (Style.settings.newline level ++ CodePoint.ofChar ']' :: after)
    obtain ⟨r, hr⟩ := @skipSpace_newline (level + 1) (p + 1) c rest (isSpace_of_isStart hc)
    have hclose : c ≠ CodePoint.ofChar ']' := by
      rintro rfl
      exact absurd hc (by decide)
    have hleft : 2 * (putItems (level + 1) items
        (Style.settings.newline level ++ CodePoint.ofChar ']' :: after)).length < fuel := by
      simp only [List.length_cons, List.length_append] at hfuel
      omega
    obtain ⟨q, hq⟩ := readItems_putItems (p := r) hne
      (fun v hv => ⟨(hback v hv).1, (hback v hv).2, hheights v hv⟩) hleft
    refine ⟨q, ?_⟩
    rw [hstart] at hq
    rw [hstart, Value.arranged_list]
    unfold readValue
    simp only [isAt_cons, hquote, hbrace, hclose, decide_false, Bool.false_eq_true, decide_true,
      ↓reduceIte, advance_cons, hr, hq]
    rfl

theorem sorted_mapValues (f : Value → Value) (fields : Fields) :
    Fields.sorted (Fields.mapValues f fields) = Fields.mapValues f (Fields.sorted fields) := by
  have hsort := List.map_mergeSort (r := fun f g : Text × Value => Text.atMost f.1 g.1)
    (s := fun f g : Text × Value => Text.atMost f.1 g.1)
    (f := fun g : Text × Value => (g.1, f g.2)) (l := fields) fun _ _ _ _ => rfl
  exact hsort.symm

theorem isReadBack_object {fields : Fields} (hkeys : (Fields.keys fields).Nodup)
    (hback : ∀ f ∈ fields, f.2.isProper ∧ IsReadBack f.2) : IsReadBack (.object fields) := by
  intro fuel depth level p after hs hfuel hheight
  obtain ⟨⟨fuel, rfl⟩, depth, rfl⟩ := exists_bounds hfuel hheight
  have hheights := Value.height_object_le_iff.1 hheight
  have hquote : CodePoint.ofChar '\x7b' ≠ CodePoint.ofChar '"' := by decide
  by_cases hne : fields = []
  · subst hne
    refine ⟨p + 1 + 1, ?_⟩
    rw [writeOnto_object_nil, Value.arranged_object]
    unfold readValue
    simp only [List.cons_append, List.nil_append, isAt_cons, hquote, decide_false,
      Bool.false_eq_true, decide_true, ↓reduceIte, advance_cons,
      skipSpace_cons (show Cursor.isSpace (CodePoint.ofChar '\x7d') = false by decide)]
    simp [Fields.mapValues, Fields.sorted]
  · have hperm := Fields.sorted_perm fields
    have hnodup : (Fields.keys ([] ++ Fields.sorted fields)).Nodup :=
      (hperm.map _).nodup_iff.2 hkeys
    rw [writeOnto_object hne] at hfuel ⊢
    obtain ⟨rest, hstart⟩ := @exists_quote_putFields (level + 1) _ (sorted_ne_nil hne)
      (Style.settings.newline level ++ CodePoint.ofChar '\x7d' :: after)
    obtain ⟨r, hr⟩ := @skipSpace_newline (level + 1) (p + 1) (CodePoint.ofChar '"') rest (by decide)
    have hclose : CodePoint.ofChar '"' ≠ CodePoint.ofChar '\x7d' := by decide
    have hleft : 2 * (putFields (level + 1) (Fields.sorted fields)
        (Style.settings.newline level ++ CodePoint.ofChar '\x7d' :: after)).length < fuel := by
      simp only [List.length_cons, List.length_append] at hfuel
      omega
    obtain ⟨q, hq⟩ := readFields_putFields (p := r) (sorted_ne_nil hne)
      (fun f hf => by
        have hmem := hperm.mem_iff.1 hf
        exact ⟨(hback f hmem).1, (hback f hmem).2, hheights f hmem⟩) hnodup hleft
    refine ⟨q, ?_⟩
    rw [hstart] at hq
    rw [hstart, Value.arranged_object, sorted_mapValues]
    unfold readValue
    simp only [isAt_cons, hquote, hclose, decide_false, Bool.false_eq_true, decide_true,
      ↓reduceIte, advance_cons, hr, hq]
    rfl

theorem hasLongIntegerIn_iff : ∀ {items : List Value},
    Value.hasLongIntegerIn items = false ↔ ∀ v ∈ items, v.hasLongInteger = false
  | [] => by simp [Value.hasLongIntegerIn]
  | v :: rest => by simp [Value.hasLongIntegerIn, @hasLongIntegerIn_iff rest]

theorem hasLongIntegerAmong_iff : ∀ {fields : Fields},
    Value.hasLongIntegerAmong fields = false ↔ ∀ f ∈ fields, f.2.hasLongInteger = false
  | [] => by simp [Value.hasLongIntegerAmong]
  | (k, v) :: rest => by
    rw [Value.hasLongIntegerAmong, Bool.or_eq_false_iff, @hasLongIntegerAmong_iff rest,
      List.forall_mem_cons]

/-- A written value is read back, with its fields in order. -/
theorem isReadBack (v : Value) : v.isProper → v.hasLongInteger = false → IsReadBack v := by
  induction v using Value.induction with
  | list items ih =>
    intro hv hlong
    rw [Value.hasLongInteger, hasLongIntegerIn_iff] at hlong
    refine isReadBack_list fun v hmem => ?_
    have hproper := Value.isFormed_list.1 hv v hmem
    exact ⟨hproper, ih v hmem hproper (hlong v hmem)⟩
  | object fields ih =>
    intro hv hlong
    rw [Value.hasLongInteger, hasLongIntegerAmong_iff] at hlong
    refine isReadBack_object (Fields.nodup_of_isProper hv) fun f hmem => ?_
    have hproper := Fields.isProper_of_mem hv hmem
    exact ⟨hproper, ih f hmem hproper (hlong f hmem)⟩
  | int n =>
    intro _ hlong fuel depth level p after hs hfuel hheight
    obtain ⟨⟨fuel, rfl⟩, -⟩ := exists_bounds hfuel hheight
    rw [writeOnto, Value.arranged_name rfl]
    exact readValue_int p hs hlong
  | float x =>
    intro _ _ fuel depth level p after hs hfuel hheight
    obtain ⟨⟨fuel, rfl⟩, -⟩ := exists_bounds hfuel hheight
    rw [writeOnto, Value.arranged_name rfl]
    exact readValue_float p hs
  | str t =>
    intro _ _ fuel depth level p after hs hfuel hheight
    obtain ⟨⟨fuel, rfl⟩, -⟩ := exists_bounds hfuel hheight
    rw [writeOnto, Value.arranged_name rfl]
    exact readValue_str t after fuel depth p
  | null =>
    intro _ _ fuel depth level p after hs hfuel hheight
    obtain ⟨⟨fuel, rfl⟩, -⟩ := exists_bounds hfuel hheight
    rw [writeOnto, Value.arranged_name rfl]
    exact ⟨_, readValue_literal (by simp [literals]) fuel depth p after⟩
  | bool b =>
    intro _ _ fuel depth level p after hs hfuel hheight
    obtain ⟨⟨fuel, rfl⟩, -⟩ := exists_bounds hfuel hheight
    cases b with
    | false =>
      rw [writeOnto, Value.arranged_name rfl]
      exact ⟨_, readValue_literal (by simp [literals]) fuel depth p after⟩
    | true =>
      rw [writeOnto, Value.arranged_name rfl]
      exact ⟨_, readValue_literal (by simp [literals]) fuel depth p after⟩

/-! ## Files -/

theorem stops_nil : Stops [] := ⟨by simp [NoDigit], by simp, by simp, by simp⟩

/-- A written document is read as that document. -/
theorem read_write {fields : Fields} (hv : (Value.object fields).isProper)
    (hlong : (Value.object fields).hasLongInteger = false)
    (hheight : (Value.object fields).height ≤ depthLimit) :
    read (write .settings 0 (.object fields)) = .ok (Value.object fields).arranged := by
  obtain ⟨rest, hrest⟩ : ∃ rest, write .settings 0 (.object fields)
      = CodePoint.ofChar '\x7b' :: rest := by
    by_cases hne : fields = []
    · rw [write, hne, writeOnto_object_nil]
      exact ⟨_, rfl⟩
    · rw [write, writeOnto_object hne]
      exact ⟨_, rfl⟩
  obtain ⟨q, hq⟩ := isReadBack _ hv hlong (p := 0) stops_nil (Nat.le_succ _) hheight
  have hmark : CodePoint.ofChar '\x7b' ≠ CodePoint.ofNat 0xFEFF := by decide
  unfold write at hrest
  rw [hrest] at hq
  unfold read write
  rw [hrest, List.head?_cons, if_neg (by simpa using hmark),
    skipSpace_cons (show Cursor.isSpace (CodePoint.ofChar '\x7b') = false by decide), hq]
  rfl

/-- The bytes of a written document are read as that document. -/
theorem readBytes_encode {fields : Fields} (hv : (Value.object fields).isProper)
    (hlong : (Value.object fields).hasLongInteger = false)
    (hheight : (Value.object fields).height ≤ depthLimit)
    (henc : Utf8.Encodable (write .settings 0 (.object fields))) :
    readBytes (Utf8.encode (write .settings 0 (.object fields)))
      = .ok (Value.object fields).arranged := by
  unfold readBytes
  simp only [Utf8.decode_encode henc, Text.unifyNewlines_eq (notMem_write 0 hv),
    read_write hv hlong hheight]

/-! ## What the reader gives -/

theorem exists_of_map_eq_ok {α β : Type} {f : α → β} {b : β} : ∀ {r : Except Fault α},
    r.map f = .ok b → ∃ a, r = .ok a ∧ f a = b
  | .ok a, h => ⟨a, rfl, Except.ok.inj h⟩

theorem isProper_of_mem_literals {l : Text × Value} (h : l ∈ literals) : l.2.isProper := by
  simp only [literals, List.mem_cons, List.not_mem_nil, or_false] at h
  rcases h with rfl | rfl | rfl | rfl | rfl | rfl <;> rfl

theorem isProper_of_readNumber {c c' : Cursor} {v : Value} (h : readNumber c = .ok (v, c')) :
    v.isProper := by
  unfold readNumber at h
  extract_lets negative signed whole afterWhole fraction afterFraction exponent done digits power
    d at h
  clear_value d power digits done exponent afterFraction fraction
  split at h
  · cases h
  · split at h
    · split at h
      · cases h
        rfl
      · cases h
    · cases h
      rfl

/-- The reader gives distinct names to the fields of every object. -/
theorem isProper_reads : ∀ fuel : ℕ,
    (∀ {depth c v c'}, readValue fuel depth c = .ok (v, c') → v.isProper)
    ∧ (∀ {depth c items c'}, readItems fuel depth c = .ok (items, c') →
      (Value.list items).isProper)
    ∧ (∀ {depth done c fields c'}, (Value.object done).isProper →
      readFields fuel depth done c = .ok (fields, c') → (Value.object fields).isProper)
  | 0 => by
    refine ⟨fun h => ?_, fun h => ?_, fun _ h => ?_⟩
    · simp [readValue, Cursor.fail] at h
    · simp [readItems, Cursor.fail] at h
    · simp [readFields, Cursor.fail] at h
  | fuel + 1 => by
    obtain ⟨ihvalue, ihitems, ihfields⟩ := isProper_reads fuel
    refine ⟨fun {depth c v c'} h => ?_, fun {depth c items c'} h => ?_,
      fun {depth done c fields c'} hdone h => ?_⟩
    · unfold readValue at h
      dsimp only at h
      split at h
      · obtain ⟨a, -, ha⟩ := exists_of_map_eq_ok h
        cases ha
        rfl
      · split at h
        · split at h
          · cases h
          · split at h
            · cases h
              rfl
            · obtain ⟨a, hread, ha⟩ := exists_of_map_eq_ok h
              cases ha
              exact ihfields Value.isFormed_nil hread
        · split at h
          · split at h
            · cases h
            · split at h
              · cases h
                rfl
              · obtain ⟨a, hread, ha⟩ := exists_of_map_eq_ok h
                cases ha
                exact ihitems hread
          · split at h
            · rename_i hfind
              cases h
              exact isProper_of_mem_literals (List.mem_of_find?_eq_some hfind)
            · exact isProper_of_readNumber h
    · unfold readItems at h
      split at h
      · cases h
      · rename_i item next hread
        have hitem := ihvalue hread
        dsimp only at h
        split at h
        · cases h
          exact Value.isFormed_list.2 (List.forall_mem_singleton.2 hitem)
        · split at h
          · obtain ⟨a, hrest, ha⟩ := exists_of_map_eq_ok h
            cases ha
            refine Value.isFormed_list.2 (List.forall_mem_cons.2 ⟨hitem, ?_⟩)
            exact Value.isFormed_list.1 (ihitems hrest)
          · cases h
    · unfold readFields at h
      split at h
      · cases h
      · split at h
        · cases h
        · dsimp only at h
          split at h
          · cases h
          · split at h
            · cases h
            · rename_i name _ _ _ _ value next hread
              have hinsert : (Value.object (Fields.insert name value done)).isProper :=
                Value.isFormed_insert hdone rfl (ihvalue hread)
              split at h
              · cases h
                exact hinsert
              · split at h
                · exact ihfields hinsert h
                · cases h

/-- A document that is read from a file has distinct names. -/
theorem isProper_of_readBytes {bytes : List Byte} {v : Value} (h : readBytes bytes = .ok v) :
    v.isProper := by
  unfold readBytes at h
  dsimp only at h
  split at h
  · cases h
  · split at h
    · cases h
    · rename_i value hread
      cases h
      unfold read at hread
      split at hread
      · cases hread
      · split at hread
        · cases hread
        · rename_i value cursor hvalue
          dsimp only at hread
          split at hread
          · cases hread
            exact (isProper_reads _).1 hvalue
          · cases hread

end Json

end DhrWorkbench
