import DhrWorkbench.Proofs.Rounding

/-!
# Numbers that are read back

A number is read off the front of a text when what follows does not go on with it (`Stops`). The
text of an integer is read as that integer (`readNumber_int`), that of a finite floating-point
number as that number, bit for bit (`readNumber_finite`): positional and scientific notation
differ from the decimal that was chosen only in where its zeros stand.
-/

namespace DhrWorkbench

namespace Json

open Binary64 (signText padding)

/-! ## The parts of a number -/

/-- No digit comes next. -/
def NoDigit (t : Text) : Prop := ∀ c ∈ t.head?, isAsciiDigit c = false

/-- What comes next does not go on with a number. -/
structure Stops (t : Text) : Prop where
  digit : NoDigit t
  point : t.head? ≠ some (CodePoint.ofChar '.')
  small : t.head? ≠ some (CodePoint.ofChar 'e')
  capital : t.head? ≠ some (CodePoint.ofChar 'E')

/-- Digits that can stand before the point: a zero only alone. -/
structure IsWhole (t : Text) : Prop where
  numeral : Text.IsNumeral t
  ne_nil : t ≠ []
  zero : t.head? = some (CodePoint.ofChar '0') → t = [CodePoint.ofChar '0']

/-- The digits after the point with the point before them, if there are any. -/
def fractionText (digits : Text) : Text :=
  if digits = [] then [] else CodePoint.ofChar '.' :: digits

/-- A power of ten, with whether it is negative. -/
def exponentText : Option (Bool × Text) → Text
  | none => []
  | some (below, digits) =>
    CodePoint.ofChar 'e' :: CodePoint.ofChar (if below then '-' else '+') :: digits

def powerOf : Option (Bool × Text) → ℤ
  | none => 0
  | some (below, digits) =>
    if below then -(Text.digitsValue digits : ℤ) else Text.digitsValue digits

theorem takeWhile_numeral {t rest : Text} (ht : Text.IsNumeral t) (hr : NoDigit rest) :
    (t ++ rest).takeWhile isAsciiDigit = t := by
  rw [List.takeWhile_append_of_pos ht]
  cases rest with
  | nil => simp
  | cons c rest =>
    have hc : isAsciiDigit c = false := hr c rfl
    simp [hc]

theorem wholeOf_append {t rest : Text} (ht : IsWhole t) (hr : NoDigit rest) :
    wholeOf (t ++ rest) = t := by
  obtain ⟨c, s, rfl⟩ := List.exists_cons_of_ne_nil ht.ne_nil
  unfold wholeOf
  split
  · rename_i h
    exact (ht.zero h).symm
  · exact takeWhile_numeral ht.numeral hr

theorem fractionOf?_append {digits rest : Text} (hd : Text.IsNumeral digits) (hr : NoDigit rest)
    (hp : rest.head? ≠ some (CodePoint.ofChar '.')) :
    fractionOf? (fractionText digits ++ rest) = if digits = [] then none else some digits := by
  unfold fractionText
  split
  · cases rest with
    | nil => rfl
    | cons c rest =>
      have hc : c ≠ CodePoint.ofChar '.' := fun h => hp (congrArg some h)
      simp [fractionOf?, hc]
  · rename_i hne
    simp [fractionOf?, takeWhile_numeral hd hr, hne]

theorem exponentOf?_stops {rest : Text} (hr : Stops rest) : exponentOf? rest = none := by
  cases rest with
  | nil => rfl
  | cons c rest =>
    have hsmall : c ≠ CodePoint.ofChar 'e' := fun h => hr.small (congrArg some h)
    have hcapital : c ≠ CodePoint.ofChar 'E' := fun h => hr.capital (congrArg some h)
    simp [exponentOf?, hsmall, hcapital]

theorem exponentOf?_append {digits rest : Text} (below : Bool) (hd : Text.IsNumeral digits)
    (hne : digits ≠ []) (hr : Stops rest) :
    exponentOf? (exponentText (some (below, digits)) ++ rest)
      = some (below, digits, 2 + digits.length) := by
  cases below <;>
    simp [exponentText, exponentOf?, takeWhile_numeral hd hr.digit, hne]

/-- Reading a number takes its sign, then its whole part. -/
theorem readNumber_start {whole tail : Text} (negative : Bool) (hw : IsWhole whole) (p : ℕ) :
    (Cursor.mk p (signText negative ++ (whole ++ tail))).isAt '-' = negative
      ∧ (signText negative ++ (whole ++ tail)).drop (if negative then 1 else 0) = whole ++ tail
      ∧ (Cursor.mk p (signText negative ++ (whole ++ tail))).advance
          ((if negative then 1 else 0) + whole.length)
        = ⟨p + ((if negative then 1 else 0) + whole.length), tail⟩ := by
  have hminus : Text.ofString "-" = [CodePoint.ofChar '-'] := rfl
  have hempty : Text.ofString "" = [] := rfl
  cases negative with
  | true =>
    refine ⟨rfl, rfl, ?_⟩
    simp [Cursor.advance, signText, hminus, Nat.add_comm 1]
  | false =>
    obtain ⟨c, s, rfl⟩ := List.exists_cons_of_ne_nil hw.ne_nil
    have hc : c ≠ CodePoint.ofChar '-' := by
      rintro rfl
      exact absurd (hw.numeral _ List.mem_cons_self) (by decide)
    refine ⟨?_, rfl, ?_⟩
    · simp [Cursor.isAt, Cursor.next?, signText, hempty, hc]
    · simp [Cursor.advance, signText, hempty]

theorem readNumber_int {n : ℕ} {after : Text} (negative : Bool) (p : ℕ) (hs : Stops after)
    (hlen : Decimal.digitCount n ≤ Text.digitLimit) :
    ∃ q, readNumber ⟨p, signText negative ++ (Text.ofNat n ++ after)⟩
      = .ok (.int (if negative then -(n : ℤ) else n), ⟨q, after⟩) := by
  have hw : IsWhole (Text.ofNat n) := by
    refine ⟨Text.isNumeral_ofNat n, Text.ofNat_ne_nil n, fun h => ?_⟩
    rcases Nat.eq_zero_or_pos n with rfl | hpos
    · rfl
    · exact absurd h (Text.head?_ofNat hpos)
  obtain ⟨hminus, hdrop, hadvance⟩ := @readNumber_start _ after negative hw p
  have hfraction : fractionOf? after = none := by
    simpa [fractionText] using @fractionOf?_append [] _ (by simp [Text.IsNumeral])
      hs.digit hs.point
  have hnat : Text.natOfDigits (Text.ofNat n) = .ok n := by
    unfold Decimal.digitCount at hlen
    rw [Text.natOfDigits, if_neg (Nat.not_lt.2 hlen), Text.digitsValue_ofNat]
  refine ⟨p + ((if negative then 1 else 0) + (Text.ofNat n).length), ?_⟩
  simp only [readNumber, hminus, hdrop, wholeOf_append hw hs.digit, hw.ne_nil, ↓reduceIte, hadvance,
    hfraction, exponentOf?_stops hs, hnat]

/-- A number with a fraction or an exponent is read as a decimal. -/
theorem readNumber_decimal {whole digits after : Text} {exponent : Option (Bool × Text)}
    (negative : Bool) (p : ℕ) (hw : IsWhole whole) (hd : Text.IsNumeral digits)
    (he : ∀ e ∈ exponent, Text.IsNumeral e.2 ∧ e.2 ≠ [])
    (hsome : digits ≠ [] ∨ exponent ≠ none) (hs : Stops after) :
    ∃ q, readNumber ⟨p, signText negative
        ++ (whole ++ (fractionText digits ++ (exponentText exponent ++ after)))⟩
      = .ok (.float ((Decimal.mk (Text.digitsValue (whole ++ digits))
          (powerOf exponent - digits.length)).toBinary64 negative), ⟨q, after⟩) := by
  have hmore : NoDigit (exponentText exponent ++ after)
      ∧ (exponentText exponent ++ after).head? ≠ some (CodePoint.ofChar '.') := by
    cases exponent with
    | none => exact ⟨hs.digit, hs.point⟩
    | some e =>
      refine ⟨fun c hc => ?_, fun h => absurd (Option.some.inj h) (by simp)⟩
      obtain rfl : CodePoint.ofChar 'e' = c := Option.some.inj hc
      decide
  have htail : NoDigit (fractionText digits ++ (exponentText exponent ++ after)) := by
    unfold fractionText
    split
    · exact hmore.1
    · intro c hc
      obtain rfl : CodePoint.ofChar '.' = c := Option.some.inj hc
      decide
  obtain ⟨hminus, hdrop, hadvance⟩ :=
    @readNumber_start _ (fractionText digits ++ (exponentText exponent ++ after)) negative hw p
  have hfraction := fractionOf?_append hd hmore.1 hmore.2
  have hpoint : ∀ q, digits ≠ [] →
      (Cursor.mk q (fractionText digits ++ (exponentText exponent ++ after))).advance
        (1 + digits.length) = ⟨q + (1 + digits.length), exponentText exponent ++ after⟩ := by
    intro q hnil
    simp [fractionText, hnil, Cursor.advance, Nat.add_comm 1]
  cases exponent with
  | none =>
    have hnil : digits ≠ [] := hsome.resolve_right (by simp)
    have hexponent : exponentOf? (exponentText none ++ after) = none := exponentOf?_stops hs
    rw [if_neg hnil] at hfraction
    refine ⟨p + ((if negative then 1 else 0) + whole.length) + (1 + digits.length), ?_⟩
    simp only [readNumber, hminus, hdrop, wholeOf_append hw htail, hw.ne_nil, ↓reduceIte, hadvance,
      hfraction, hpoint _ hnil, hexponent, Option.getD_some, powerOf]
    rfl
  | some e =>
    obtain ⟨below, power⟩ := e
    have hpower := he _ rfl
    have hexponent := exponentOf?_append below hpower.1 hpower.2 hs
    have hlast : ∀ q, (Cursor.mk q (exponentText (some (below, power)) ++ after)).advance
        (2 + power.length) = ⟨q + (2 + power.length), after⟩ := by
      intro q
      simp [exponentText, Cursor.advance, Nat.add_comm 2]
    by_cases hnil : digits = []
    · subst hnil
      rw [if_pos rfl] at hfraction
      refine ⟨p + ((if negative then 1 else 0) + whole.length) + (2 + power.length), ?_⟩
      simp only [readNumber, hminus, hdrop, wholeOf_append hw htail, hw.ne_nil, ↓reduceIte,
        hadvance, hfraction]
      simp only [fractionText, ↓reduceIte, List.nil_append, hexponent, hlast, Option.getD_none,
        powerOf]
    · rw [if_neg hnil] at hfraction
      refine ⟨p + ((if negative then 1 else 0) + whole.length) + (1 + digits.length)
        + (2 + power.length), ?_⟩
      simp only [readNumber, hminus, hdrop, wholeOf_append hw htail, hw.ne_nil, ↓reduceIte,
        hadvance, hfraction, hpoint _ hnil, hexponent, hlast, Option.getD_some, powerOf]

/-! ## The two notations -/

/-- A text without a sign that is read as some decimal is. -/
def Spells (t : Text) (d : Decimal) : Prop :=
  ∃ whole digits exponent, t = whole ++ (fractionText digits ++ exponentText exponent)
    ∧ IsWhole whole ∧ Text.IsNumeral digits ∧ (∀ e ∈ exponent, Text.IsNumeral e.2 ∧ e.2 ≠ [])
    ∧ (digits ≠ [] ∨ exponent ≠ none)
    ∧ ∀ negative, (Decimal.mk (Text.digitsValue (whole ++ digits))
        (powerOf exponent - digits.length)).toBinary64 negative = d.toBinary64 negative

theorem readNumber_spells {t after : Text} {d : Decimal} (negative : Bool) (p : ℕ)
    (h : Spells t d) (hs : Stops after) :
    ∃ q, readNumber ⟨p, signText negative ++ (t ++ after)⟩
      = .ok (.float (d.toBinary64 negative), ⟨q, after⟩) := by
  obtain ⟨whole, digits, exponent, rfl, hw, hd, he, hsome, hvalue⟩ := h
  obtain ⟨q, hq⟩ := readNumber_decimal negative p hw hd he hsome hs
  rw [hvalue] at hq
  exact ⟨q, by simpa only [List.append_assoc] using hq⟩

theorem isNumeral_padding (n : ℕ) : Text.IsNumeral (padding n) := by
  intro c hc
  rw [List.eq_of_mem_replicate hc]
  decide

theorem digitsValue_padding (n : ℕ) : Text.digitsValue (padding n) = 0 := by
  induction n with
  | zero => rfl
  | succ n ih =>
    have hlast : padding (n + 1) = padding n ++ [Text.digit 0] := List.replicate_succ'
    rw [hlast, Text.digitsValue_append, ih, zero_mul, zero_add]
    decide

theorem isNumeral_append {s t : Text} (hs : Text.IsNumeral s) (ht : Text.IsNumeral t) :
    Text.IsNumeral (s ++ t) := by
  intro c hc
  rcases List.mem_append.1 hc with h | h
  · exact hs c h
  · exact ht c h

theorem isWhole_of_pos {n : ℕ} (h : 0 < n) {s t : Text} (hs : s ≠ []) (ht : Text.IsNumeral t)
    (hp : s <+: Text.ofNat n) : IsWhole (s ++ t) := by
  refine ⟨isNumeral_append (fun c hc => Text.isNumeral_ofNat n c (hp.subset hc)) ht, by simp [hs],
    fun hzero => ?_⟩
  obtain ⟨c, s, rfl⟩ := List.exists_cons_of_ne_nil hs
  obtain ⟨u, hu⟩ := hp
  rw [List.cons_append, List.head?_cons] at hzero
  refine absurd ?_ (Text.head?_ofNat h)
  rw [← hu]
  exact hzero

theorem isNumeral_zero : Text.IsNumeral [CodePoint.ofChar '0'] := Text.isNumeral_ofNat 0

theorem isWhole_zero : IsWhole [CodePoint.ofChar '0'] :=
  ⟨isNumeral_zero, by simp, fun _ => rfl⟩

theorem spells_positional {c : ℕ} (hc : 0 < c) (ex : ℤ) :
    Spells (Binary64.positional (Text.ofNat c) (ex + (Text.ofNat c).length)) ⟨c, ex⟩ := by
  have hne := Text.ofNat_ne_nil c
  have hlen : 0 < (Text.ofNat c).length := List.length_pos_iff.2 hne
  have hvalue := Text.digitsValue_ofNat c
  obtain ⟨ds, hds⟩ : ∃ ds, ds = Text.ofNat c := ⟨_, rfl⟩
  rw [← hds] at hlen hvalue hne ⊢
  unfold Binary64.positional
  split_ifs with h1 h2
  · -- Zeros stand between the point and the first digit.
    refine ⟨[CodePoint.ofChar '0'], padding (-(ex + ds.length)).toNat ++ ds, none, ?_, isWhole_zero,
      isNumeral_append (isNumeral_padding _) (hds ▸ Text.isNumeral_ofNat c), by simp,
      .inl (by simp [hne]), fun negative => ?_⟩
    · simp [fractionText, exponentText, hne, Text.ofString]
    · have hzero : Text.digitsValue [CodePoint.ofChar '0'] = 0 := by decide
      have hexp : powerOf none - ((padding (-(ex + ds.length)).toNat ++ ds).length : ℤ) = ex := by
        simp only [powerOf, padding, List.length_append, List.length_replicate]
        omega
      rw [Text.digitsValue_append, Text.digitsValue_append, hzero, digitsValue_padding, hvalue,
        hexp]
      simp
  · -- Zeros fill up to the point, and one stands after it.
    refine ⟨ds ++ padding ((ex + ds.length).toNat - ds.length), [CodePoint.ofChar '0'], none, ?_,
      isWhole_of_pos hc hne (isNumeral_padding _) (hds ▸ List.prefix_rfl), isNumeral_zero, by simp,
      .inl (by simp), fun negative => ?_⟩
    · simp [fractionText, exponentText, Text.ofString]
    · have hzero : Text.digitsValue [CodePoint.ofChar '0'] = 0 := by decide
      have hshift :=
        Decimal.toBinary64_shift negative c ((ex + ds.length).toNat - ds.length + 1) (-1)
      have hexp : (-1 : ℤ) + (((ex + ds.length).toNat - ds.length + 1 : ℕ) : ℤ) = ex := by omega
      rw [hexp] at hshift
      rw [← hshift, Text.digitsValue_append, Text.digitsValue_append, hzero, digitsValue_padding,
        hvalue]
      simp [powerOf, padding, pow_succ, mul_assoc]
  · -- The point stands among the digits.
    obtain ⟨k, hk⟩ : ∃ k : ℕ, ex + ds.length = k := ⟨(ex + ds.length).toNat, by omega⟩
    rw [hk, Int.toNat_natCast]
    have hsplit : ds.take k ++ ds.drop k = ds := List.take_append_drop k ds
    refine ⟨ds.take k, ds.drop k, none, ?_, ?_, ?_, by simp, .inl ?_, fun negative => ?_⟩
    · have hdrop : ds.drop k ≠ [] := by
        simp only [ne_eq, List.drop_eq_nil_iff]
        omega
      simp [fractionText, exponentText, hdrop, Text.ofString]
    · have hwhole := isWhole_of_pos hc (s := ds.take k) (t := []) (by
        simp only [ne_eq, List.take_eq_nil_iff, hne, or_false]
        omega) (by simp [Text.IsNumeral]) (hds ▸ List.take_prefix k ds)
      simpa using hwhole
    · exact fun d hd => Text.isNumeral_ofNat c d (hds ▸ List.mem_of_mem_drop hd)
    · simp only [ne_eq, List.drop_eq_nil_iff]
      omega
    · have hexp : powerOf none - ((ds.drop k).length : ℤ) = ex := by
        simp only [powerOf, List.length_drop]
        omega
      rw [hsplit, hvalue, hexp]

theorem spells_scientific {c : ℕ} (hc : 0 < c) (ex : ℤ) :
    Spells (Binary64.scientific (Text.ofNat c) (ex + (Text.ofNat c).length)) ⟨c, ex⟩ := by
  have hne := Text.ofNat_ne_nil c
  have hvalue := Text.digitsValue_ofNat c
  have hnumeral := Text.isNumeral_ofNat c
  have hfirst := Text.head?_ofNat hc
  obtain ⟨d, rest, hds⟩ := List.exists_cons_of_ne_nil hne
  rw [hds] at hvalue hnumeral hfirst ⊢
  obtain ⟨power, hpower⟩ : ∃ power, power = ex + ((d :: rest).length : ℤ) - 1 := ⟨_, rfl⟩
  obtain ⟨amount, hamount⟩ : ∃ amount, amount
      = padding (2 - (Text.ofNat power.natAbs).length) ++ Text.ofNat power.natAbs := ⟨_, rfl⟩
  have hdigits : Text.digitsValue amount = power.natAbs := by
    rw [hamount, Text.digitsValue_append, digitsValue_padding, Text.digitsValue_ofNat, zero_mul,
      zero_add]
  refine ⟨[d], rest, some (decide (power < 0), amount), ?_, ?_, ?_, ?_, .inr (by simp),
    fun negative => ?_⟩
  · simp only [Binary64.scientific, ← hpower]
    by_cases hneg : power < 0 <;> cases rest <;>
      simp [fractionText, exponentText, hneg, hamount, Text.ofString]
  · refine ⟨fun c hc => hnumeral c (by simp_all), by simp, fun h => ?_⟩
    exact absurd h hfirst
  · exact fun c hc => hnumeral c (List.mem_cons_of_mem _ hc)
  · intro e he
    obtain rfl := Option.some.inj he
    refine ⟨?_, ?_⟩
    · rw [hamount]
      exact isNumeral_append (isNumeral_padding _) (Text.isNumeral_ofNat _)
    · simp [hamount, Text.ofNat_ne_nil]
  · have hexp : powerOf (some (decide (power < 0), amount)) - (rest.length : ℤ) = ex := by
      simp only [powerOf, hdigits, decide_eq_true_eq]
      simp only [List.length_cons] at hpower
      split <;> omega
    rw [List.singleton_append, hvalue, hexp]

/-- The text of a finite number spells the number. -/
theorem spells_magnitudeText (e : Fin 2047) (f : Fin 4503599627370496) :
    ∃ d, Spells (Binary64.magnitudeText e f) d
      ∧ ∀ negative, d.toBinary64 negative = .finite negative e f := by
  unfold Binary64.magnitudeText
  split_ifs with hzero
  · refine ⟨⟨0, 0⟩, ⟨[CodePoint.ofChar '0'], [CodePoint.ofChar '0'], none, rfl, isWhole_zero,
      isNumeral_zero, by simp, .inl (by simp), fun negative => ?_⟩, fun negative => ?_⟩
    · have hvalue : Text.digitsValue ([CodePoint.ofChar '0'] ++ [CodePoint.ofChar '0']) = 0 := by
        decide
      simp only [Decimal.toBinary64, hvalue, ↓reduceIte]
    · obtain rfl : e = 0 := Fin.ext hzero.1
      obtain rfl : f = 0 := Fin.ext hzero.2
      rfl
  · have hm : 0 < Binary64.significand e f := by
      unfold Binary64.significand
      split <;> omega
    have hread := Binary64.toBinary64_shortest hm
    rw [← Decimal.toBinary64_normalise false
      (Decimal.digitCount (Binary64.shortest e f).coefficient)] at hread
    have hc := Decimal.coefficient_pos_of_toBinary64 hread hm
    refine ⟨_, ?_, fun negative => by rw [Decimal.toBinary64_withSign, hread]; rfl⟩
    dsimp only
    split
    · exact spells_positional hc _
    · exact spells_scientific hc _

/-- The text of a finite number is read as the number. -/
theorem readNumber_finite {after : Text} (negative : Bool) (e : Fin 2047)
    (f : Fin 4503599627370496) (p : ℕ) (hs : Stops after) :
    ∃ q, readNumber ⟨p, signText negative ++ (Binary64.magnitudeText e f ++ after)⟩
      = .ok (.float (.finite negative e f), ⟨q, after⟩) := by
  obtain ⟨d, hspells, hvalue⟩ := spells_magnitudeText e f
  rw [← hvalue negative]
  exact readNumber_spells negative p hspells hs

end Json

end DhrWorkbench
