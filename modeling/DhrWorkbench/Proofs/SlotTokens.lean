import DhrWorkbench.Proofs.Slots
import Mathlib.Data.List.TakeWhile

/-!
# Slots as tokens

The slots of a text are its tokens: a text of one of the three forms of a slot (`Spells`) is a token
unless it begins inside of another one. Where such a text begins, it is read in one way only
(`standsIn_iff`), so there is exactly one list of tokens (`IsTokenised.unique`), and reading the
text finds it (`scan_tokens`), whatever stands between the tokens and however long their numbers
are. The slots are then what the tokens say, unless a number is too long to be read.
-/

namespace DhrWorkbench

namespace Template

/-! ## The forms of a slot -/

abbrev dollar : CodePoint := '$'
abbrev opening : CodePoint := '\x7b'
abbrev closing : CodePoint := '\x7d'
abbrev colon : CodePoint := ':'

/-- A run of decimal digits that is not empty. -/
def IsNumber (digits : Text) : Prop := digits ≠ [] ∧ ∀ c ∈ digits, Text.isDigit c

/-- The text of a slot with other text behind it. A number without braces takes in all digits that
follow. -/
inductive Spells (digits : Text) : (default slice after : Text) → Prop
  | braced (after : Text) : Spells digits [] (dollar :: opening :: (digits ++ [closing])) after
  | withDefault {default : Text} (after : Text) (closed : closing ∉ default) :
    Spells digits default (dollar :: opening :: (digits ++ colon :: (default ++ [closing]))) after
  | bare {after : Text} (stops : ∀ c ∈ after.head?, ¬ Text.isDigit c) :
    Spells digits [] (dollar :: digits) after

theorem span_append {p : CodePoint → Bool} {s after : Text} (hs : ∀ c ∈ s, p c)
    (hafter : ∀ c ∈ after.head?, ¬ p c) :
    (s ++ after).takeWhile p = s ∧ (s ++ after).dropWhile p = after := by
  have hstop : after.takeWhile p = [] ∧ after.dropWhile p = after := by
    cases after with
    | nil => simp
    | cons c rest => simp [hafter c rfl]
  rw [List.takeWhile_append_of_pos hs, List.dropWhile_append_of_pos hs, hstop.1, hstop.2,
    List.append_nil]
  exact ⟨rfl, rfl⟩

/-- Digits in front of a code point that is none. -/
theorem span_digits {digits : Text} {c : CodePoint} (h : IsNumber digits)
    (hc : Text.isDigit c = false) (after : Text) :
    (digits ++ c :: after).takeWhile Text.isDigit = digits
      ∧ (digits ++ c :: after).dropWhile Text.isDigit = c :: after :=
  span_append h.2 (by simp [hc])

theorem braced?_braced {digits : Text} (h : IsNumber digits) (after : Text) :
    braced? (digits ++ closing :: after) = some ⟨digits, [], digits.length + 3⟩ := by
  obtain ⟨hdigits, htail⟩ := span_digits h (by decide : Text.isDigit closing = false) after
  simp [braced?, hdigits, htail, h.1]

theorem braced?_withDefault {digits default : Text} (h : IsNumber digits)
    (hclosed : closing ∉ default) (after : Text) :
    braced? (digits ++ colon :: (default ++ closing :: after))
      = some ⟨digits, default, digits.length + default.length + 4⟩ := by
  obtain ⟨hdigits, htail⟩ := span_digits h (by decide : Text.isDigit colon = false)
    (default ++ closing :: after)
  have hdefault : (default ++ closing :: after).takeWhile (· ≠ closing) = default := by
    refine (span_append (fun c hc => ?_) (by simp)).1
    exact decide_eq_true fun heq => hclosed (heq ▸ hc)
  have hne : colon ≠ closing := by decide
  simp only [braced?, hdigits, htail, List.isEmpty_iff, h.1, if_false, hne, if_true, hdefault]
  simp

theorem bare?_digits {digits after : Text} (h : IsNumber digits)
    (hafter : ∀ c ∈ after.head?, ¬ Text.isDigit c) :
    bare? (digits ++ after) = some ⟨digits, [], digits.length + 1⟩ := by
  simp [bare?, (span_append h.2 hafter).1, h.1]

theorem isNumber_takeWhile {t : Text} (h : ¬ (t.takeWhile Text.isDigit).isEmpty) :
    IsNumber (t.takeWhile Text.isDigit) :=
  ⟨by simpa using h, fun _ hc => List.mem_takeWhile_imp hc⟩

/-- A default that does not take in the whole text is closed. -/
theorem exists_closing {t : Text} (h : (t.takeWhile (· ≠ closing)).length < t.length) :
    ∃ after, t.takeWhile (· ≠ closing) ++ closing :: after = t := by
  have hsplit := List.takeWhile_append_dropWhile (p := (· ≠ closing)) (l := t)
  cases hrest : t.dropWhile (· ≠ closing) with
  | nil =>
    rw [hrest, List.append_nil] at hsplit
    rw [hsplit] at h
    exact absurd h (Nat.lt_irrefl _)
  | cons c after =>
    have hc : c = closing := by
      have hstop := Text.head?_dropWhile (p := (· ≠ closing)) (t := t) c (by rw [hrest]; rfl)
      simpa using hstop
    rw [hrest, hc] at hsplit
    exact ⟨after, hsplit⟩

theorem exists_of_braced? {t : Text} {found : Spelling} (h : braced? t = some found) :
    IsNumber found.digits ∧ ∃ slice after, dollar :: opening :: t = slice ++ after
      ∧ slice.length = found.length ∧ Spells found.digits found.default slice after := by
  have hsplit := List.takeWhile_append_dropWhile (p := Text.isDigit) (l := t)
  unfold braced? at h
  dsimp only at h
  split at h
  · cases h
  · rename_i hdigits
    split at h
    · cases h
    · rename_i c rest htail
      rw [htail] at hsplit
      split_ifs at h with hclosing hcolon hdefault
      · cases h
        subst hclosing
        refine ⟨isNumber_takeWhile hdigits, _, rest, ?_, ?_, .braced rest⟩
        · simp [hsplit]
        · simp
      · cases h
        subst hcolon
        obtain ⟨after, hafter⟩ := exists_closing hdefault
        refine ⟨isNumber_takeWhile hdigits, _, after, ?_, ?_, .withDefault after ?_⟩
        · simp only [List.cons_append, List.append_assoc, List.nil_append]
          rw [hafter, hsplit]
        · simp
          omega
        · exact fun hmem => by simpa using List.mem_takeWhile_imp hmem

theorem exists_of_bare? {t : Text} {found : Spelling} (h : bare? t = some found) :
    IsNumber found.digits ∧ ∃ slice after, dollar :: t = slice ++ after
      ∧ slice.length = found.length ∧ Spells found.digits found.default slice after := by
  unfold bare? at h
  dsimp only at h
  split at h
  · cases h
  · rename_i hdigits
    cases h
    refine ⟨isNumber_takeWhile hdigits, _, t.dropWhile Text.isDigit, ?_, rfl,
      .bare Text.head?_dropWhile⟩
    rw [List.cons_append, List.takeWhile_append_dropWhile]

/-- The slot that a text begins with is read as it is spelled. -/
theorem slotAt?_eq_some_iff {t : Text} {found : Spelling} : slotAt? t = some found
    ↔ IsNumber found.digits ∧ ∃ slice after, t = slice ++ after ∧ slice.length = found.length
      ∧ Spells found.digits found.default slice after := by
  constructor
  · intro h
    unfold slotAt? at h
    split at h
    · cases h
    · rename_i c rest
      split_ifs at h with hdollar
      · rw [not_not] at hdollar
        subst hdollar
        split at h
        · cases h
        · rename_i d more
          split_ifs at h with hopening
          · subst hopening
            exact exists_of_braced? h
          · exact exists_of_bare? h
  · obtain ⟨digits, default, length⟩ := found
    rintro ⟨hnumber, slice, after, rfl, hlength, hspells⟩
    dsimp only at hnumber hlength hspells
    cases hspells with
    | braced after =>
      have hread := braced?_braced hnumber after
      simp only [List.length_cons, List.length_append, List.length_nil] at hlength
      simp [slotAt?, hread]
      omega
    | withDefault after hclosed =>
      have hread := braced?_withDefault hnumber hclosed after
      simp only [List.length_cons, List.length_append, List.length_nil] at hlength
      simp [slotAt?, hread]
      omega
    | bare hstops =>
      have hread := bare?_digits hnumber hstops
      obtain ⟨d, more, rfl⟩ := List.exists_cons_of_ne_nil hnumber.1
      have hne : d ≠ opening := by
        rintro rfl
        exact absurd (hnumber.2 opening List.mem_cons_self) (by decide)
      simp only [List.length_cons, List.cons_append] at hlength hread
      simp [slotAt?, hne, hread, hlength]

/-! ## Tokens -/

/-- A slot as it stands in a text: the digits of its number, its default and its place. -/
structure Token where
  digits : Text
  default : Text
  start : ℕ
  stop : ℕ

namespace Token

/-- A token stands in a text when its stretch of the text has one of the forms of a slot. -/
structure StandsIn (k : Token) (t : Text) : Prop where
  number : IsNumber k.digits
  start_lt : k.start < k.stop
  inside : k.stop ≤ t.length
  spelled : Spells k.digits k.default (t.extract k.start k.stop) (t.drop k.stop)

/-- The slot that a token says. -/
def slot (k : Token) : Slot := ⟨Text.digitsValue k.digits, k.default, k.start, k.stop⟩

/-- The slot of a token, unless its number is too long. -/
def read (k : Token) : Except IntegerFault Slot :=
  (Text.natOfDigits k.digits).map (⟨·, k.default, k.start, k.stop⟩)

def ofSpelling (start : ℕ) (found : Spelling) : Token :=
  ⟨found.digits, found.default, start, start + found.length⟩

/-- The tokens that begin at an offset are what is read there. -/
theorem standsIn_iff {k : Token} {t : Text} : k.StandsIn t
    ↔ ∃ found, slotAt? (t.drop k.start) = some found ∧ k = ofSpelling k.start found := by
  constructor
  · rintro ⟨hnumber, hlt, hinside, hspelled⟩
    refine ⟨⟨k.digits, k.default, k.stop - k.start⟩, ?_, ?_⟩
    · refine slotAt?_eq_some_iff.2 ⟨hnumber, _, _, ?_, ?_, hspelled⟩
      · have hdrop : t.drop k.stop = (t.drop k.start).drop (k.stop - k.start) := by
          rw [List.drop_drop, Nat.add_sub_cancel' hlt.le]
        rw [hdrop, List.extract, List.take_append_drop]
      · simp [List.extract]
        omega
    · simp [ofSpelling, Nat.add_sub_cancel' hlt.le]
  · rintro ⟨found, hfound, hk⟩
    obtain ⟨hpos, hle⟩ := length_of_slotAt? hfound
    obtain ⟨hnumber, slice, after, hrest, hlength, hspells⟩ := slotAt?_eq_some_iff.1 hfound
    have hstop : k.stop = k.start + found.length := congrArg Token.stop hk
    have hslice : t.extract k.start k.stop = slice := by
      rw [hstop, List.extract, Nat.add_sub_cancel_left, hrest, ← hlength, List.take_left]
    have hafter : t.drop k.stop = after := by
      rw [hstop, ← List.drop_drop, hrest, ← hlength, List.drop_left]
    rw [List.length_drop] at hle
    refine ⟨congrArg Token.digits hk ▸ hnumber, by omega, by omega, ?_⟩
    rw [hslice, hafter, congrArg Token.digits hk, congrArg Token.default hk]
    exact hspells

theorem eq_of_start {k r : Token} {t : Text} (hk : k.StandsIn t) (hr : r.StandsIn t)
    (h : k.start = r.start) : k = r := by
  obtain ⟨found, hfound, hk⟩ := standsIn_iff.1 hk
  obtain ⟨other, hother, hr⟩ := standsIn_iff.1 hr
  rw [h, hother, Option.some.injEq] at hfound
  rw [hk, hr, h, hfound]

theorem read_eq {k : Token} (h : k.digits.length ≤ Text.digitLimit) : k.read = .ok k.slot := by
  simp [read, Text.natOfDigits, Nat.not_lt.2 h, slot, Except.map]

theorem read_error {k : Token} (h : Text.digitLimit < k.digits.length) :
    k.read = .error (.tooLong k.digits.length) := by
  simp [read, Text.natOfDigits, h, Except.map]

end Token

/-- The tokens of a text from an offset on: they stand in the text, none overlaps the next, and
nothing between them begins as a slot does. -/
structure IsTokenised (t : Text) (cursor : ℕ) (tokens : List Token) : Prop where
  stands : ∀ k ∈ tokens, k.StandsIn t
  behind : ∀ k ∈ tokens, cursor ≤ k.start
  apart : tokens.Pairwise fun k r => k.stop ≤ r.start
  gaps : ∀ position, cursor ≤ position →
    (∀ k ∈ tokens, position < k.start ∨ k.stop ≤ position) →
    ∀ k : Token, k.StandsIn t → k.start ≠ position

namespace IsTokenised

variable {t : Text} {cursor : ℕ} {k : Token} {tokens : List Token}

theorem nil (h : t.length ≤ cursor) : IsTokenised t cursor [] where
  stands := by simp
  behind := by simp
  apart := .nil
  gaps position hposition _ k hk := by
    have hlt := hk.start_lt
    have hinside := hk.inside
    omega

/-- Where no slot begins the tokens are those from the next offset on. -/
theorem pass (h : slotAt? (t.drop cursor) = none) (hrest : IsTokenised t (cursor + 1) tokens) :
    IsTokenised t cursor tokens where
  stands := hrest.stands
  behind k hk := Nat.le_of_succ_le (hrest.behind k hk)
  apart := hrest.apart
  gaps position hposition hgap k hk := by
    rcases Nat.eq_or_lt_of_le hposition with rfl | hlt
    · rintro rfl
      obtain ⟨found, hfound, -⟩ := Token.standsIn_iff.1 hk
      rw [h] at hfound
      cases hfound
    · exact hrest.gaps position hlt hgap k hk

/-- A slot that begins at an offset is a token, and the next ones are those from its end on. -/
theorem cons (h : k.StandsIn t) (hrest : IsTokenised t k.stop tokens) :
    IsTokenised t k.start (k :: tokens) where
  stands := List.forall_mem_cons.2 ⟨h, hrest.stands⟩
  behind := List.forall_mem_cons.2
    ⟨le_rfl, fun r hr => h.start_lt.le.trans (hrest.behind r hr)⟩
  apart := List.pairwise_cons.2 ⟨hrest.behind, hrest.apart⟩
  gaps position hposition hgap r hr := by
    obtain ⟨hout, hgap⟩ := List.forall_mem_cons.1 hgap
    exact hrest.gaps position (by omega) hgap r hr

theorem tail (h : IsTokenised t cursor (k :: tokens)) : IsTokenised t k.stop tokens where
  stands r hr := h.stands r (List.mem_cons_of_mem _ hr)
  behind := (List.pairwise_cons.1 h.apart).1
  apart := (List.pairwise_cons.1 h.apart).2
  gaps position hposition hgap r hr := by
    have hbehind := h.behind k List.mem_cons_self
    have hlt := (h.stands k List.mem_cons_self).start_lt
    exact h.gaps position (by omega) (List.forall_mem_cons.2 ⟨.inr hposition, hgap⟩) r hr

/-- No slot begins before the first token. -/
theorem first_le (h : IsTokenised t cursor (k :: tokens)) {r : Token} (hr : r.StandsIn t)
    (hcursor : cursor ≤ r.start) : k.start ≤ r.start := by
  by_contra hlt
  have hstart := (h.stands k List.mem_cons_self).start_lt
  refine h.gaps r.start hcursor (List.forall_mem_cons.2 ⟨.inl (by omega), fun s hs => .inl ?_⟩)
    r hr rfl
  have hbehind := h.tail.behind s hs
  omega

theorem unique : ∀ {tokens others : List Token} {cursor : ℕ}, IsTokenised t cursor tokens →
    IsTokenised t cursor others → others = tokens
  | [], [], _, _, _ => rfl
  | [], r :: _, _, h, h' => absurd rfl (h.gaps r.start (h'.behind r List.mem_cons_self) (by simp)
      r (h'.stands r List.mem_cons_self))
  | k :: _, [], _, h, h' => absurd rfl (h'.gaps k.start (h.behind k List.mem_cons_self) (by simp)
      k (h.stands k List.mem_cons_self))
  | k :: tokens, r :: others, _, h, h' => by
    have hk := h.stands k List.mem_cons_self
    have hr := h'.stands r List.mem_cons_self
    have hstart : r.start = k.start := Nat.le_antisymm
      (h'.first_le hk (h.behind k List.mem_cons_self))
      (h.first_le hr (h'.behind r List.mem_cons_self))
    obtain rfl := Token.eq_of_start hr hk hstart
    rw [unique h.tail h'.tail]

end IsTokenised

/-! ## Reading the tokens -/

theorem drop_of_cons {t rest : Text} {c : CodePoint} {position : ℕ}
    (h : c :: rest = t.drop position) : rest = t.drop (position + 1) := by
  rw [← List.tail_drop, ← h, List.tail_cons]

/-- A scan reads the tokens from the left, and ends with the first number that is too long. -/
theorem scan_tokens {t : Text} : ∀ {rest : Text} {position : ℕ} (skip : ℕ), rest = t.drop position →
    skip ≤ rest.length → ∃ tokens, IsTokenised t (position + skip) tokens
      ∧ scan position skip rest = tokens.mapM Token.read
  | [], position, skip, hrest, _ => by
    have hlength : t.length ≤ position := List.drop_eq_nil_iff.1 hrest.symm
    exact ⟨[], .nil (by omega), by rw [scan]; rfl⟩
  | c :: rest, position, skip + 1, hrest, hskip => by
    obtain ⟨tokens, htokens, hscan⟩ := scan_tokens skip (drop_of_cons hrest)
      (Nat.le_of_succ_le_succ hskip)
    have hcursor : position + (skip + 1) = position + 1 + skip := by omega
    exact ⟨tokens, hcursor ▸ htokens, by rw [scan, hscan]⟩
  | c :: rest, position, 0, hrest, _ => by
    rw [scan]
    cases hfound : slotAt? (c :: rest) with
    | none =>
      obtain ⟨tokens, htokens, hscan⟩ := scan_tokens 0 (drop_of_cons hrest) (Nat.zero_le _)
      rw [hrest] at hfound
      exact ⟨tokens, .pass hfound htokens, hscan⟩
    | some found =>
      obtain ⟨hpos, hle⟩ := length_of_slotAt? hfound
      rw [List.length_cons] at hle
      obtain ⟨tokens, htokens, hscan⟩ := scan_tokens (found.length - 1)
        (drop_of_cons hrest) (by omega)
      have hstop : position + 1 + (found.length - 1) = position + found.length := by omega
      rw [hstop] at htokens
      have hstands : (Token.ofSpelling position found).StandsIn t :=
        Token.standsIn_iff.2 ⟨found, hrest ▸ hfound, rfl⟩
      refine ⟨_ :: tokens, .cons hstands htokens, ?_⟩
      rw [List.mapM_cons, ← hscan, Token.read, Token.ofSpelling]
      dsimp only
      cases Text.natOfDigits found.digits with
      | error fault => rfl
      | ok index => cases scan (position + 1) (found.length - 1) rest <;> rfl

theorem mapM_read {tokens : List Token} (h : ∀ k ∈ tokens, k.digits.length ≤ Text.digitLimit) :
    tokens.mapM Token.read = .ok (tokens.map Token.slot) := by
  induction tokens with
  | nil => rfl
  | cons k tokens ih =>
    obtain ⟨hk, htokens⟩ := List.forall_mem_cons.1 h
    rw [List.mapM_cons, Token.read_eq hk, ih htokens]
    rfl

theorem mapM_read_error {tokens : List Token} {k : Token} (hk : k ∈ tokens)
    (hlong : Text.digitLimit < k.digits.length) :
    ∃ digits, tokens.mapM Token.read = .error (.tooLong digits) := by
  induction tokens with
  | nil => simp at hk
  | cons r tokens ih =>
    rw [List.mapM_cons]
    by_cases hr : Text.digitLimit < r.digits.length
    · exact ⟨r.digits.length, by rw [Token.read_error hr]; rfl⟩
    · have htail : k ∈ tokens := by
        refine (List.mem_cons.1 hk).resolve_left ?_
        rintro rfl
        exact hr hlong
      obtain ⟨digits, herror⟩ := ih htail
      exact ⟨digits, by rw [Token.read_eq (Nat.not_lt.1 hr), herror]; rfl⟩

/-- Reading a text as a template finds its tokens, which are determined by the text: each has one
of the forms of a slot, they do not overlap, and no slot begins between them. -/
theorem parse_exact (t : Text) : ∃ tokens, IsTokenised t 0 tokens
    ∧ (∀ others, IsTokenised t 0 others → others = tokens)
    ∧ ((∀ k ∈ tokens, k.digits.length ≤ 4300) → parse t = .ok ⟨t, tokens.map Token.slot⟩)
    ∧ ∀ k ∈ tokens, 4300 < k.digits.length → ∃ digits, parse t = .error (.tooLong digits) := by
  obtain ⟨tokens, htokens, hscan⟩ := scan_tokens 0 (List.drop_zero (l := t)).symm (Nat.zero_le _)
  refine ⟨tokens, htokens, fun others => htokens.unique, fun hshort => ?_, fun k hk hlong => ?_⟩
  · rw [parse, hscan, mapM_read hshort]
    rfl
  · obtain ⟨digits, herror⟩ := mapM_read_error hk hlong
    exact ⟨digits, by rw [parse, hscan, herror]; rfl⟩

example : (parse "$$1 $\x7b2:a$\x7b3\x7d\x7d").toOption.map (·.slots)
    = some [⟨1, [], 1, 3⟩, ⟨2, "a$\x7b3", 4, 13⟩] := by decide

end Template

end DhrWorkbench
