import DhrWorkbench.Text.Utf8
import Mathlib.Data.List.Basic

/-!
# Bytes of a text

A text without surrogates is read back from its UTF-8 form (`decode_encode`): the bytes of a code
point are cut off as one piece whatever follows them. A text without carriage returns keeps its
line endings (`unifyNewlines_eq`).
-/

namespace DhrWorkbench

namespace Utf8

/-- A text with a UTF-8 form. -/
def Encodable (t : Text) : Prop := ∀ c ∈ t, isSurrogate c = false

theorem Encodable.of_subset {s t : Text} (ht : Encodable t) (hsub : s ⊆ t) : Encodable s :=
  fun c hc => ht c (hsub hc)

theorem unencodable?_eq_none_iff {t : Text} :
    unencodable? (fun _ => false) t = none ↔ Encodable t := by
  have key : ∀ position, unencodable?.go (fun _ => false) position t = none ↔ Encodable t := by
    induction t with
    | nil => simp [unencodable?.go, Encodable]
    | cons c t ih =>
      intro position
      rw [unencodable?.go]
      cases hc : isSurrogate c with
      | true => simp [Encodable, hc]
      | false =>
        simp only [Bool.false_and, Bool.false_eq_true, ↓reduceIte, ih]
        simp [Encodable, hc]
  exact key 0

theorem byte_val {n : ℕ} (h : n < 256) : (Byte.ofNat n).val = n := Nat.mod_eq_of_lt h

theorem ofNat_val (c : CodePoint) : CodePoint.ofNat c.val = c := Fin.ext (Nat.mod_eq_of_lt c.isLt)

/-- The bytes of a code point are cut off as one piece. -/
theorem pieces_bytesOf {c : CodePoint} (hc : isSurrogate c = false) (rest : List Byte) :
    ∃ width, pieces (bytesOf c ++ rest) = .point c width :: pieces rest := by
  have hlt := c.isLt
  have hsurrogate : ¬ (0xD800 ≤ c.val ∧ c.val ≤ 0xDFFF) := by simpa [isSurrogate] using hc
  obtain ⟨n, hn⟩ : ∃ n, n = c.val := ⟨_, rfl⟩
  have hpoint : CodePoint.ofNat n = c := by rw [hn, ofNat_val]
  rw [← hn] at hlt hsurrogate
  unfold bytesOf
  simp only [← hn]
  split_ifs with h1 h2 h3
  · have ha : (Byte.ofNat n).val = n := byte_val (by omega)
    refine ⟨1, ?_⟩
    rw [List.singleton_append, pieces.eq_def]
    dsimp only
    rw [if_pos (by omega), ha, hpoint]
  · have ha : (Byte.ofNat (0xC0 + n / 0x40)).val = 0xC0 + n / 0x40 := byte_val (by omega)
    have hb : (Byte.ofNat (0x80 + n % 0x40)).val = 0x80 + n % 0x40 := byte_val (by omega)
    have htail : isTail (Byte.ofNat (0x80 + n % 0x40)) := by
      simp only [isTail, hb, Bool.and_eq_true, decide_eq_true_eq]
      omega
    have hvalue : (0xC0 + n / 0x40 - 0xC0) * 0x40 + (0x80 + n % 0x40 - 0x80) = n := by omega
    refine ⟨2, ?_⟩
    rw [List.cons_append, List.singleton_append, pieces.eq_def]
    dsimp only
    rw [if_neg (by omega), if_neg (by omega), if_pos (by omega)]
    simp only [htail, ↓reduceIte, ha, hb, hvalue, hpoint]
  · have ha : (Byte.ofNat (0xE0 + n / 0x1000)).val = 0xE0 + n / 0x1000 := byte_val (by omega)
    have hb : (Byte.ofNat (0x80 + n / 0x40 % 0x40)).val = 0x80 + n / 0x40 % 0x40 :=
      byte_val (by omega)
    have hd : (Byte.ofNat (0x80 + n % 0x40)).val = 0x80 + n % 0x40 := byte_val (by omega)
    have hfollow : canFollow (Byte.ofNat (0xE0 + n / 0x1000))
        (Byte.ofNat (0x80 + n / 0x40 % 0x40)) := by
      simp only [canFollow, isTail, ha, hb, Bool.and_eq_true, Bool.not_eq_true',
        Bool.and_eq_false_imp, decide_eq_true_eq, decide_eq_false_iff_not]
      omega
    have htail : isTail (Byte.ofNat (0x80 + n % 0x40)) := by
      simp only [isTail, hd, Bool.and_eq_true, decide_eq_true_eq]
      omega
    have hvalue : (0xE0 + n / 0x1000 - 0xE0) * 0x1000 + (0x80 + n / 0x40 % 0x40 - 0x80) * 0x40
        + (0x80 + n % 0x40 - 0x80) = n := by omega
    refine ⟨3, ?_⟩
    rw [List.cons_append, List.cons_append, List.singleton_append, pieces.eq_def]
    dsimp only
    rw [if_neg (by omega), if_neg (by omega), if_neg (by omega), if_pos (by omega)]
    simp only [hfollow, htail, Bool.not_true, Bool.false_eq_true, ↓reduceIte, ha, hb, hd, hvalue,
      hpoint]
  · have ha : (Byte.ofNat (0xF0 + n / 0x40000)).val = 0xF0 + n / 0x40000 := byte_val (by omega)
    have hb : (Byte.ofNat (0x80 + n / 0x1000 % 0x40)).val = 0x80 + n / 0x1000 % 0x40 :=
      byte_val (by omega)
    have hd : (Byte.ofNat (0x80 + n / 0x40 % 0x40)).val = 0x80 + n / 0x40 % 0x40 :=
      byte_val (by omega)
    have he : (Byte.ofNat (0x80 + n % 0x40)).val = 0x80 + n % 0x40 := byte_val (by omega)
    have hfollow : canFollow (Byte.ofNat (0xF0 + n / 0x40000))
        (Byte.ofNat (0x80 + n / 0x1000 % 0x40)) := by
      simp only [canFollow, isTail, ha, hb, Bool.and_eq_true, Bool.not_eq_true',
        Bool.and_eq_false_imp, decide_eq_true_eq, decide_eq_false_iff_not]
      omega
    have htail : isTail (Byte.ofNat (0x80 + n / 0x40 % 0x40)) := by
      simp only [isTail, hd, Bool.and_eq_true, decide_eq_true_eq]
      omega
    have hlast : isTail (Byte.ofNat (0x80 + n % 0x40)) := by
      simp only [isTail, he, Bool.and_eq_true, decide_eq_true_eq]
      omega
    have hvalue : (0xF0 + n / 0x40000 - 0xF0) * 0x40000 + (0x80 + n / 0x1000 % 0x40 - 0x80) * 0x1000
        + (0x80 + n / 0x40 % 0x40 - 0x80) * 0x40 + (0x80 + n % 0x40 - 0x80) = n := by omega
    refine ⟨4, ?_⟩
    rw [List.cons_append, List.cons_append, List.cons_append, List.singleton_append, pieces.eq_def]
    dsimp only
    rw [if_neg (by omega), if_neg (by omega), if_neg (by omega), if_neg (by omega)]
    simp only [hfollow, htail, hlast, Bool.not_true, Bool.false_eq_true, ↓reduceIte, ha, hb, hd, he,
      hvalue, hpoint]

theorem assemble_encode {t : Text} (h : Encodable t) :
    ∀ position, assemble position (pieces (encode t)) = .ok t := by
  induction t with
  | nil =>
    intro position
    rw [encode, List.flatMap_nil]
    rfl
  | cons c t ih =>
    intro position
    obtain ⟨width, hpieces⟩ := pieces_bytesOf (h c List.mem_cons_self) (encode t)
    have htail := ih (fun d hd => h d (List.mem_cons_of_mem _ hd)) (position + width)
    rw [encode, List.flatMap_cons]
    rw [encode] at hpieces htail
    rw [hpieces, assemble, htail]
    rfl

theorem decode_encode {t : Text} (h : Encodable t) : decode (encode t) = .ok t :=
  assemble_encode h 0

end Utf8

theorem Text.unifyNewlines_eq : ∀ {t : Text}, CodePoint.ofChar '\r' ∉ t → t.unifyNewlines = t
  | [], _ => rfl
  | [c], h => by
    have hc : c ≠ CodePoint.ofChar '\r' := fun hc => h (by simp [hc])
    simp [unifyNewlines, hc]
  | c :: d :: rest, h => by
    have hc : c ≠ CodePoint.ofChar '\r' := fun hc => h (by simp [hc])
    have htail : CodePoint.ofChar '\r' ∉ d :: rest := fun hd => h (List.mem_cons_of_mem _ hd)
    rw [unifyNewlines, if_neg hc, unifyNewlines_eq htail]

end DhrWorkbench
