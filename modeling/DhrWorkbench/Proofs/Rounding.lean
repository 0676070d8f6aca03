import DhrWorkbench.Proofs.Numerals

/-!
# Rounding to floating-point numbers

What `Binary64.ofRatio` gives depends on the ratio alone and not on the two numbers that stand for
it (`ofPositiveRatio_congr`): the scale it settles on is the only one that leaves 53 binary digits
before the point. The ratio of a floating-point number is rounded to that number
(`ofPositiveRatio_ratio`), so two finite numbers of one ratio are one number.

A decimal therefore keeps its floating-point number when zeros move between its coefficient and
its exponent (`toBinary64_shift`), and the decimal that a number is written with is read back as
the number, be it a short one that was found by trying or the exact one (`toBinary64_shortest`).
-/

namespace DhrWorkbench

namespace Binary64

/-! ## Ratios over a unit -/

/-- How many of the least positive number make one. -/
def grain : ℕ := 2 ^ 1074

theorem grain_pos : 0 < grain := by
  unfold grain
  exact pow_pos (by decide) 1074

theorem grain_eq {k : ℕ} (h : k ≤ 1074) : grain = 2 ^ (1074 - k) * 2 ^ k := by
  rw [← pow_add, Nat.sub_add_cancel h, grain]

/-- Over the unit of a scale, `num / den` has 53 binary digits before its point, or fewer when the
scale is the least. -/
structure IsScale (num den scale : ℕ) : Prop where
  below : num * grain < den * 2 ^ (scale + 53)
  least : scale = 0 ∨ den * 2 ^ (scale + 52) ≤ num * grain

theorem IsScale.unique {num den s t : ℕ} (hs : IsScale num den s) (ht : IsScale num den t) :
    s = t := by
  have key : ∀ {s t : ℕ}, IsScale num den s → IsScale num den t → ¬ s < t := by
    intro s t hs ht hlt
    have hle : den * 2 ^ (s + 53) ≤ den * 2 ^ (t + 52) :=
      Nat.mul_le_mul_left _ (Nat.pow_le_pow_right (by decide) (by omega))
    have hbelow := hs.below
    rcases ht.least with hzero | hleast
    · omega
    · omega
  have h1 := key hs ht
  have h2 := key ht hs
  omega

theorem IsScale.congr {num den num' den' s : ℕ} (hd : 0 < den) (hd' : 0 < den')
    (h : num * den' = num' * den) (hs : IsScale num den s) : IsScale num' den' s := by
  constructor
  · have hmul := Nat.mul_lt_mul_of_pos_right hs.below hd'
    have hswap : num * grain * den' = num' * grain * den := by
      rw [mul_right_comm, h, mul_right_comm]
    rw [hswap] at hmul
    have hswap' : den * 2 ^ (s + 53) * den' = den' * 2 ^ (s + 53) * den := by ring
    rw [hswap'] at hmul
    exact lt_of_mul_lt_mul_right hmul (Nat.zero_le _)
  · rcases hs.least with hzero | hleast
    · exact .inl hzero
    · have hmul := Nat.mul_le_mul_right den' hleast
      have hswap : num * grain * den' = num' * grain * den := by
        rw [mul_right_comm, h, mul_right_comm]
      rw [hswap] at hmul
      have hswap' : den * 2 ^ (s + 52) * den' = den' * 2 ^ (s + 52) * den := by ring
      rw [hswap'] at hmul
      exact .inr (le_of_mul_le_mul_right hmul hd)

theorem div_congr {a b c d : ℕ} (hb : 0 < b) (hd : 0 < d) (h : a * d = c * b) : a / b = c / d := by
  rw [← Nat.mul_div_mul_right a b hd, h, mul_comm b d, Nat.mul_div_mul_right c d hb]

theorem divideToEven_mul {a b k : ℕ} (hk : 0 < k) :
    divideToEven (a * k) (b * k) = divideToEven a b := by
  have hmod : a * k % (b * k) = a % b * k := Nat.mul_mod_mul_right ..
  have hlt : 2 * (a % b * k) < b * k ↔ 2 * (a % b) < b := by
    rw [← mul_assoc, Nat.mul_lt_mul_right hk]
  have hgt : b * k < 2 * (a % b * k) ↔ b < 2 * (a % b) := by
    rw [← mul_assoc, Nat.mul_lt_mul_right hk]
  simp only [divideToEven, hmod, Nat.mul_div_mul_right a b hk, hlt, hgt]

theorem divideToEven_congr {a b c d : ℕ} (hb : 0 < b) (hd : 0 < d) (h : a * d = c * b) :
    divideToEven a b = divideToEven c d := by
  rw [← divideToEven_mul hd, h, mul_comm b d, divideToEven_mul hb]

theorem divideToEven_exact {b : ℕ} (hb : 0 < b) (m : ℕ) : divideToEven (m * b) b = m := by
  have h := divideToEven_mul (a := m) (b := 1) hb
  rw [one_mul] at h
  rw [h]
  simp [divideToEven, Nat.mod_one]

/-- A ratio over a unit is that of two numbers with one power of two each. -/
theorem overUnit_cross (num den s : ℕ) :
    (overUnit num den s).1 * (den * 2 ^ s) = num * grain * (overUnit num den s).2 := by
  unfold overUnit
  split
  · rename_i h
    have hpow : 2 ^ s = 2 ^ (s - 1074) * grain := by rw [grain, ← pow_add, Nat.sub_add_cancel h]
    simp only [Nat.pow_eq, hpow]
    ring
  · rename_i h
    simp only [Nat.pow_eq, grain_eq (Nat.le_of_not_le h)]
    ring

theorem overUnit_pos {num den : ℕ} (hd : 0 < den) (s : ℕ) : 0 < (overUnit num den s).2 := by
  unfold overUnit
  split
  · simp only [Nat.pow_eq]
    positivity
  · exact hd

theorem overUnit_div_lt_iff {num den : ℕ} (hd : 0 < den) (s : ℕ) :
    (overUnit num den s).1 / (overUnit num den s).2 < 9007199254740992
      ↔ num * grain < den * 2 ^ (s + 53) := by
  rw [div_congr (overUnit_pos hd s) (by positivity) (overUnit_cross num den s),
    Nat.div_lt_iff_lt_mul (by positivity), pow_add, show 9007199254740992 = 2 ^ 53 by norm_num]
  constructor <;> intro h <;> calc
    _ < _ := h
    _ = _ := by ring

/-- The lengths of the two numbers tell the scale up to one. -/
theorem isScale_scaleBelow {num den : ℕ} (hn : 0 < num) (hd : 0 < den) :
    IsScale num den (if num * grain < den * 2 ^ (scaleBelow num den + 53) then
      scaleBelow num den else scaleBelow num den + 1) := by
  have hnum_low : 2 ^ num.log2 ≤ num := Nat.log2_self_le hn.ne'
  have hnum_high : num < 2 ^ (num.log2 + 1) := Nat.lt_log2_self
  have hden_low : 2 ^ den.log2 ≤ den := Nat.log2_self_le hd.ne'
  have hden_high : den < 2 ^ (den.log2 + 1) := Nat.lt_log2_self
  split
  · rename_i hbelow
    refine ⟨hbelow, ?_⟩
    rcases Nat.eq_zero_or_pos (scaleBelow num den) with hzero | hpos
    · exact .inl hzero
    · right
      unfold scaleBelow at hpos ⊢
      calc den * 2 ^ (num.log2 + 1021 - den.log2 + 52)
          ≤ 2 ^ (den.log2 + 1) * 2 ^ (num.log2 + 1021 - den.log2 + 52) :=
            Nat.mul_le_mul_right _ hden_high.le
        _ = 2 ^ num.log2 * grain := by
            rw [grain, ← pow_add, ← pow_add]
            congr 1
            omega
        _ ≤ num * grain := Nat.mul_le_mul_right _ hnum_low
  · rename_i habove
    refine ⟨?_, .inr (by
      rw [show scaleBelow num den + 1 + 52 = scaleBelow num den + 53 by omega]
      omega)⟩
    unfold scaleBelow
    calc num * grain
        < 2 ^ (num.log2 + 1) * grain := Nat.mul_lt_mul_of_pos_right hnum_high grain_pos
      _ = 2 ^ (num.log2 + 1075) := by rw [grain, ← pow_add, Nat.add_assoc]
      _ ≤ 2 ^ (den.log2 + (num.log2 + 1021 - den.log2 + 1 + 53)) :=
          Nat.pow_le_pow_right (by decide) (by omega)
      _ = 2 ^ den.log2 * 2 ^ (num.log2 + 1021 - den.log2 + 1 + 53) := pow_add ..
      _ ≤ den * 2 ^ (num.log2 + 1021 - den.log2 + 1 + 53) := Nat.mul_le_mul_right _ hden_low

theorem ofPositiveRatio_eq (negative : Bool) {num den s : ℕ} (hn : 0 < num) (hd : 0 < den)
    (hs : IsScale num den s) : ofPositiveRatio negative num den
      = ofCode negative (s * 4503599627370496
          + divideToEven (num * grain) (den * 2 ^ s)) := by
  have hscale : (if (overUnit num den (scaleBelow num den)).1
        / (overUnit num den (scaleBelow num den)).2 < 9007199254740992 then scaleBelow num den
      else scaleBelow num den + 1) = s := by
    simp only [overUnit_div_lt_iff hd]
    exact (isScale_scaleBelow hn hd).unique hs
  simp only [ofPositiveRatio, hscale]
  rw [divideToEven_congr (overUnit_pos hd s) (by positivity) (overUnit_cross num den s)]

/-- Rounding depends on the ratio alone. -/
theorem ofPositiveRatio_congr (negative : Bool) {num den num' den' : ℕ} (hn : 0 < num)
    (hn' : 0 < num') (hd : 0 < den) (hd' : 0 < den') (h : num * den' = num' * den) :
    ofPositiveRatio negative num den = ofPositiveRatio negative num' den' := by
  obtain ⟨s, hs⟩ : ∃ s, IsScale num den s := ⟨_, isScale_scaleBelow hn hd⟩
  have hround : divideToEven (num * grain) (den * 2 ^ s)
      = divideToEven (num' * grain) (den' * 2 ^ s) := by
    refine divideToEven_congr (by positivity) (by positivity) ?_
    calc num * grain * (den' * 2 ^ s) = num * den' * (grain * 2 ^ s) := by ring
      _ = num' * den * (grain * 2 ^ s) := by rw [h]
      _ = num' * grain * (den * 2 ^ s) := by ring
  rw [ofPositiveRatio_eq negative hn hd hs, ofPositiveRatio_eq negative hn' hd' (hs.congr hd hd' h),
    hround]

theorem ofRatio_congr (negative : Bool) {num den num' den' : ℕ} (hd : 0 < den) (hd' : 0 < den')
    (h : num * den' = num' * den) : ofRatio negative num den = ofRatio negative num' den' := by
  unfold ofRatio
  rcases Nat.eq_zero_or_pos num with rfl | hn
  · have hn' : num' = 0 := by
      rw [zero_mul] at h
      exact (Nat.mul_eq_zero.1 h.symm).resolve_right hd.ne'
    rw [hn', if_pos rfl, if_pos rfl]
  · have hn' : 0 < num' := by
      rcases Nat.eq_zero_or_pos num' with rfl | hn'
      · rw [zero_mul] at h
        exact absurd h (Nat.mul_pos hn hd').ne'
      · exact hn'
    rw [if_neg hn.ne', if_neg hn'.ne', ofPositiveRatio_congr negative hn hn' hd hd' h]

/-! ## The ratio of a finite number -/

theorem ratio_pos (e : Fin 2047) (f : Fin 4503599627370496) : 0 < (ratio e f).2 := by
  simp only [ratio]
  split
  · exact Nat.one_pos
  · rw [Nat.pow_eq]
    positivity

theorem ratio_cross (e : Fin 2047) (f : Fin 4503599627370496) :
    (ratio e f).1 * grain = significand e f * ((ratio e f).2 * 2 ^ scale e) := by
  simp only [ratio]
  split
  · rename_i h
    have hpow : 2 ^ scale e = 2 ^ (scale e - 1074) * grain := by
      rw [grain, ← pow_add, Nat.sub_add_cancel h]
    rw [Nat.pow_eq, hpow]
    ring
  · rename_i h
    rw [Nat.pow_eq, grain_eq (Nat.le_of_not_le h)]

theorem significand_lt (e : Fin 2047) (f : Fin 4503599627370496) :
    significand e f < 2 ^ 53 := by
  have hf := f.isLt
  unfold significand
  split <;> omega

theorem isScale_ratio (e : Fin 2047) (f : Fin 4503599627370496) :
    IsScale (ratio e f).1 (ratio e f).2 (scale e) := by
  have hpos := ratio_pos e f
  constructor
  · calc (ratio e f).1 * grain = significand e f * ((ratio e f).2 * 2 ^ scale e) := ratio_cross e f
      _ < 2 ^ 53 * ((ratio e f).2 * 2 ^ scale e) :=
          Nat.mul_lt_mul_of_pos_right (significand_lt e f) (by positivity)
      _ = (ratio e f).2 * 2 ^ (scale e + 53) := by ring
  · by_cases h : e.val ≤ 1
    · left
      unfold scale
      omega
    · right
      have hm : 2 ^ 52 ≤ significand e f := by
        unfold significand
        rw [if_neg (by omega)]
        omega
      calc (ratio e f).2 * 2 ^ (scale e + 52) = 2 ^ 52 * ((ratio e f).2 * 2 ^ scale e) := by ring
        _ ≤ significand e f * ((ratio e f).2 * 2 ^ scale e) := Nat.mul_le_mul_right _ hm
        _ = (ratio e f).1 * grain := (ratio_cross e f).symm

theorem ofCode_eq (negative : Bool) (e : Fin 2047) (f : Fin 4503599627370496) :
    ofCode negative (scale e * 4503599627370496 + significand e f) = .finite negative e f := by
  have hcode : scale e * 4503599627370496 + significand e f = e.val * 4503599627370496 + f.val := by
    unfold scale significand
    split <;> omega
  have hquot : (e.val * 4503599627370496 + f.val) / 4503599627370496 = e.val := by omega
  have hrem : (e.val * 4503599627370496 + f.val) % 4503599627370496 = f.val := by omega
  simp only [hcode, ofCode, hquot, hrem, e.isLt, ↓reduceDIte]

theorem ratio_num_pos {e : Fin 2047} {f : Fin 4503599627370496} (h : 0 < significand e f) :
    0 < (ratio e f).1 := by
  have hpos := ratio_pos e f
  have hmul : 0 < significand e f * ((ratio e f).2 * 2 ^ scale e) := by positivity
  rw [← ratio_cross] at hmul
  exact pos_of_mul_pos_left hmul (Nat.zero_le _)

/-- The ratio of a number is rounded to the number. -/
theorem ofPositiveRatio_ratio (negative : Bool) {e : Fin 2047} {f : Fin 4503599627370496}
    (h : 0 < significand e f) :
    ofPositiveRatio negative (ratio e f).1 (ratio e f).2 = .finite negative e f := by
  have hpos := ratio_pos e f
  rw [ofPositiveRatio_eq negative (ratio_num_pos h) hpos (isScale_ratio e f), ratio_cross,
    divideToEven_exact (by positivity), ofCode_eq]

/-! ## Signs -/

/-- A number with another sign. -/
def withSign (negative : Bool) : Binary64 → Binary64
  | .nan => .nan
  | .infinite _ => .infinite negative
  | .finite _ e f => .finite negative e f

theorem ofCode_withSign (negative : Bool) (code : ℕ) :
    ofCode negative code = (ofCode false code).withSign negative := by
  unfold ofCode
  split <;> rfl

theorem ofRatio_withSign (negative : Bool) (num den : ℕ) :
    ofRatio negative num den = (ofRatio false num den).withSign negative := by
  unfold ofRatio
  split
  · rfl
  · exact ofCode_withSign negative _

end Binary64

namespace Decimal

open Binary64

theorem toBinary64_withSign (negative : Bool) (d : Decimal) :
    d.toBinary64 negative = (d.toBinary64 false).withSign negative := by
  simp only [toBinary64]
  split_ifs
  · rfl
  · rfl
  · rfl
  · exact ofRatio_withSign negative _ _
  · exact ofRatio_withSign negative _ _

/-- The two numbers whose ratio a decimal is. -/
def ratio (d : Decimal) : ℕ × ℕ :=
  if 0 ≤ d.exponent then (d.coefficient * 10 ^ d.exponent.toNat, 1)
  else (d.coefficient, 10 ^ (-d.exponent).toNat)

theorem ratio_pos (d : Decimal) : 0 < d.ratio.2 := by
  unfold ratio
  split
  · exact Nat.one_pos
  · positivity

/-- Within the range of the format a decimal is rounded. -/
theorem toBinary64_eq (negative : Bool) {d : Decimal} (hc : 0 < d.coefficient)
    (hlow : -400 ≤ (digitCount d.coefficient : ℤ) + d.exponent)
    (hhigh : (digitCount d.coefficient : ℤ) + d.exponent ≤ 400) :
    d.toBinary64 negative = ofRatio negative d.ratio.1 d.ratio.2 := by
  simp only [toBinary64, ratio]
  rw [if_neg hc.ne', if_neg (by omega), if_neg (by omega)]
  split_ifs <;> rfl

theorem ratio_shift (c k : ℕ) (e : ℤ) :
    (Decimal.mk (c * 10 ^ k) e).ratio.1 * (Decimal.mk c (e + k)).ratio.2
      = (Decimal.mk c (e + k)).ratio.1 * (Decimal.mk (c * 10 ^ k) e).ratio.2 := by
  simp only [ratio]
  split_ifs with h1 h2 h2
  · have hexp : (e + k).toNat = k + e.toNat := by omega
    rw [hexp, pow_add]
    ring
  · omega
  · have hexp : k = (e + k).toNat + (-e).toNat := by omega
    nth_rewrite 1 [hexp]
    rw [pow_add]
    ring
  · have hexp : (-e).toNat = k + (-(e + k)).toNat := by omega
    rw [hexp, pow_add]
    ring

/-- Zeros may stand in the coefficient or in the exponent. -/
theorem toBinary64_shift (negative : Bool) (c k : ℕ) (e : ℤ) :
    (Decimal.mk (c * 10 ^ k) e).toBinary64 negative
      = (Decimal.mk c (e + k)).toBinary64 negative := by
  rcases Nat.eq_zero_or_pos c with rfl | hc
  · simp [toBinary64]
  · have hmul : 0 < c * 10 ^ k := by positivity
    have hcount : (digitCount (c * 10 ^ k) : ℤ) + e = digitCount c + (e + k) := by
      rw [digitCount_mul_pow hc]
      push_cast
      ring
    have hround := ofRatio_congr negative (ratio_pos _) (ratio_pos _) (ratio_shift c k e)
    by_cases hhigh : 400 < (digitCount c : ℤ) + (e + k)
    · simp only [toBinary64, hcount, hhigh, hmul.ne', hc.ne', ↓reduceIte]
    · by_cases hlow : (digitCount c : ℤ) + (e + k) < -400
      · simp only [toBinary64, hcount, hhigh, hlow, hmul.ne', hc.ne', ↓reduceIte]
      · have hshifted := toBinary64_eq (d := ⟨c * 10 ^ k, e⟩) negative hmul
          (by rw [hcount]; omega) (by rw [hcount]; omega)
        have hplain := toBinary64_eq (d := ⟨c, e + k⟩) negative hc (Int.not_lt.1 hlow)
          (Int.not_lt.1 hhigh)
        rw [hshifted, hplain, hround]

theorem toBinary64_normalise (negative : Bool) : ∀ (fuel : ℕ) (d : Decimal),
    (normalise fuel d).toBinary64 negative = d.toBinary64 negative
  | 0, _ => rfl
  | fuel + 1, ⟨c, e⟩ => by
    rw [normalise]
    split
    · rename_i h
      have hc : c / 10 * 10 ^ 1 = c := by
        have hmod : c % 10 = 0 := h.2
        omega
      have hshift := toBinary64_shift negative (c / 10) 1 e
      rw [hc] at hshift
      rw [toBinary64_normalise negative fuel, hshift]
      rfl
    · rfl

theorem coefficient_pos_of_toBinary64 {d : Decimal} {e : Fin 2047} {f : Fin 4503599627370496}
    (h : d.toBinary64 false = .finite false e f) (hm : 0 < significand e f) :
    0 < d.coefficient := by
  refine Nat.pos_of_ne_zero fun hc => ?_
  simp only [toBinary64, hc, ↓reduceIte, zero, Binary64.finite.injEq] at h
  obtain ⟨-, rfl, rfl⟩ := h
  exact absurd hm (by decide)

end Decimal

namespace Binary64

/-! ## The decimal of a number -/

theorem two_pow_le_ten_pow {n k : ℕ} (h : n ≤ 3 * k) : 2 ^ n ≤ 10 ^ k :=
  calc 2 ^ n ≤ 2 ^ (3 * k) := Nat.pow_le_pow_right (by decide) h
    _ = (2 ^ 3) ^ k := pow_mul ..
    _ ≤ 10 ^ k := Nat.pow_le_pow_left (by decide) k

theorem ten_pow_le_five_pow {n k : ℕ} (hn : n ≤ k) (h : n ≤ 2 * (k - n)) : 10 ^ n ≤ 5 ^ k :=
  calc 10 ^ n = 5 ^ n * 2 ^ n := Nat.mul_pow 5 2 n
    _ ≤ 5 ^ n * 2 ^ (2 * (k - n)) :=
        Nat.mul_le_mul_left _ (Nat.pow_le_pow_right (by decide) h)
    _ = 5 ^ n * (2 ^ 2) ^ (k - n) := by rw [pow_mul]
    _ ≤ 5 ^ n * 5 ^ (k - n) := Nat.mul_le_mul_left _ (Nat.pow_le_pow_left (by decide) _)
    _ = 5 ^ k := by rw [← pow_add, Nat.add_sub_cancel' hn]

theorem toBinary64_exactDecimal {e : Fin 2047} {f : Fin 4503599627370496}
    (h : 0 < significand e f) :
    (exactDecimal e f).toBinary64 false = .finite false e f := by
  have hm := significand_lt e f
  have hscale : scale e ≤ 2045 := by
    have he := e.isLt
    unfold scale
    omega
  have hround : ∀ {num den : ℕ}, 0 < num → 0 < den →
      num * (Binary64.ratio e f).2 = (Binary64.ratio e f).1 * den →
      ofRatio false num den = .finite false e f := by
    intro num den hn hd hcross
    rw [ofRatio, if_neg hn.ne', ofPositiveRatio_congr false hn (ratio_num_pos h) hd (ratio_pos e f)
      hcross, ofPositiveRatio_ratio false h]
  by_cases hs : 1074 ≤ scale e
  · -- A whole number below `2 ^ 1024`.
    have hexact : exactDecimal e f = ⟨significand e f * 2 ^ (scale e - 1074), 0⟩ := by
      simp only [exactDecimal, hs, ↓reduceIte, Nat.pow_eq]
    have hpos : 0 < significand e f * 2 ^ (scale e - 1074) := by positivity
    have hcount : Decimal.digitCount (significand e f * 2 ^ (scale e - 1074)) ≤ 400 := by
      rw [Decimal.digitCount_le_iff hpos]
      calc significand e f * 2 ^ (scale e - 1074) < 2 ^ 53 * 2 ^ (scale e - 1074) :=
            Nat.mul_lt_mul_of_pos_right hm (by positivity)
        _ = 2 ^ (53 + (scale e - 1074)) := (pow_add ..).symm
        _ ≤ 10 ^ 400 := two_pow_le_ten_pow (by omega)
    have hround' := Decimal.toBinary64_eq (d := ⟨significand e f * 2 ^ (scale e - 1074), 0⟩) false
      hpos (by dsimp only; omega) (by dsimp only; omega)
    have hratio : (Decimal.mk (significand e f * 2 ^ (scale e - 1074)) 0).ratio
        = (significand e f * 2 ^ (scale e - 1074), 1) := by simp [Decimal.ratio]
    rw [hexact, hround', hratio]
    refine hround hpos Nat.one_pos ?_
    simp only [Binary64.ratio, hs, ↓reduceIte, Nat.pow_eq]
  · -- A multiple of a negative power of two, and so of the same power of ten.
    obtain ⟨k, hk⟩ : ∃ k, k = 1074 - scale e := ⟨_, rfl⟩
    have hexact : exactDecimal e f = ⟨significand e f * 5 ^ k, -(k : ℤ)⟩ := by
      simp only [exactDecimal, hs, ↓reduceIte, Nat.pow_eq, hk]
    have hpos : 0 < significand e f * 5 ^ k := by positivity
    have hhigh : Decimal.digitCount (significand e f * 5 ^ k) ≤ 400 + k := by
      rw [Decimal.digitCount_le_iff hpos]
      calc significand e f * 5 ^ k < 2 ^ 53 * 5 ^ k :=
            Nat.mul_lt_mul_of_pos_right hm (by positivity)
        _ ≤ 10 ^ 53 * 10 ^ k := Nat.mul_le_mul (Nat.pow_le_pow_left (by decide) _)
            (Nat.pow_le_pow_left (by decide) _)
        _ = 10 ^ (53 + k) := (pow_add ..).symm
        _ ≤ 10 ^ (400 + k) := Nat.pow_le_pow_right (by decide) (by omega)
    have hlow : k ≤ Decimal.digitCount (significand e f * 5 ^ k) + 400 := by
      by_contra hlt
      have hsmall : significand e f * 5 ^ k < 10 ^ (k - 400) :=
        (Decimal.digitCount_le_iff hpos).1 (by omega)
      have hbig : 10 ^ (k - 400) ≤ 5 ^ k := ten_pow_le_five_pow (by omega) (by omega)
      have hge : 5 ^ k ≤ significand e f * 5 ^ k := Nat.le_mul_of_pos_left _ h
      omega
    have hround' := Decimal.toBinary64_eq (d := ⟨significand e f * 5 ^ k, -(k : ℤ)⟩) false hpos
      (by dsimp only; omega) (by dsimp only; omega)
    have hratio : (Decimal.mk (significand e f * 5 ^ k) (-(k : ℤ))).ratio
        = (significand e f * 5 ^ k, 10 ^ k) := by
      simp only [Decimal.ratio]
      rw [if_neg (by omega), neg_neg, Int.toNat_natCast]
    rw [hexact, hround', hratio]
    refine hround hpos (by positivity) ?_
    simp only [Binary64.ratio, hs, ↓reduceIte, Nat.pow_eq, ← hk]
    rw [mul_assoc, ← Nat.mul_pow 5 2 k]

theorem toBinary64_of_readBack? {x : Binary64} {num den : ℕ} {point : ℤ} {d : Decimal} :
    ∀ {tries count : ℕ}, readBack? x num den point tries count = some d → d.toBinary64 false = x
  | 0, _, h => by simp [readBack?] at h
  | tries + 1, count, h => by
    rw [readBack?] at h
    split at h
    · rename_i hd
      obtain rfl := Option.some.inj h
      simpa using List.find?_some hd
    · exact toBinary64_of_readBack? h

/-- The decimal that a number is written with is read as the number. -/
theorem toBinary64_shortest {e : Fin 2047} {f : Fin 4503599627370496}
    (h : 0 < significand e f) : (shortest e f).toBinary64 false = .finite false e f := by
  simp only [shortest]
  cases hd : readBack? (.finite false e f) (Binary64.ratio e f).1 (Binary64.ratio e f).2
      (pointOf (Binary64.ratio e f).1 (Binary64.ratio e f).2) 17 1 with
  | none => exact toBinary64_exactDecimal h
  | some d => exact toBinary64_of_readBack? hd

end Binary64

end DhrWorkbench
