import DhrWorkbench.Proofs.Documents
import DhrWorkbench.Proofs.Rounding
import Mathlib.Data.List.Perm.Basic

/-!
# Values up to the order of fields

Two values are compared by a form: the fields of every object sorted by name, and every value that
holds no others replaced by one that stands for it. With nothing replaced this is the value as an
unordered one (`Value.arranged`); with truth values and whole floating-point numbers replaced by
integers it tells exactly which values are the same (`Value.same_iff`).

Two objects have one form when the values of each name have (`form_object_iff`), so completing,
setting and following names respect forms.
-/

namespace DhrWorkbench

namespace Fields

/-! ## Fields sorted by name -/

/-- The fields sorted by name. -/
def sorted (fields : Fields) : Fields := fields.mergeSort fun f g => Text.atMost f.1 g.1

theorem sorted_perm (fields : Fields) : (sorted fields).Perm fields := List.mergeSort_perm _ _

theorem pairwise_sorted (fields : Fields) : (sorted fields).Pairwise fun f g => f.1 ≤ g.1 := by
  have h : (sorted fields).Pairwise fun f g => Text.atMost f.1 g.1 := by
    apply List.pairwise_mergeSort
    · intro f g i hfg hgi
      exact Text.atMost_iff.2 (le_trans (Text.atMost_iff.1 hfg) (Text.atMost_iff.1 hgi))
    · intro f g
      simpa [Text.atMost_iff] using le_total f.1 g.1
  exact h.imp Text.atMost_iff.1

theorem mem_iff_get? {fields : Fields} (h : (keys fields).Nodup) (k : Text) (v : Value) :
    (k, v) ∈ fields ↔ get? k fields = some v :=
  ⟨get?_of_mem h, mem_of_get?⟩

theorem get?_perm {fs gs : Fields} (hf : (keys fs).Nodup) (h : fs.Perm gs) (k : Text) :
    get? k fs = get? k gs := by
  have hg : (keys gs).Nodup := (h.map _).nodup_iff.1 hf
  refine Option.ext fun v => ?_
  rw [← mem_iff_get? hf, ← mem_iff_get? hg, h.mem_iff]

/-- Two documents with distinct names are sorted into one when the same is found in both. -/
theorem sorted_eq_iff {fs gs : Fields} (hf : (keys fs).Nodup) (hg : (keys gs).Nodup) :
    sorted fs = sorted gs ↔ ∀ k, get? k fs = get? k gs := by
  constructor
  · intro h k
    exact get?_perm hf (((sorted_perm fs).symm.trans (List.Perm.of_eq h)).trans (sorted_perm gs)) k
  · intro h
    have hperm : fs.Perm gs := by
      refine (List.perm_ext_iff_of_nodup hf.of_map hg.of_map).2 ?_
      rintro ⟨k, v⟩
      rw [mem_iff_get? hf, mem_iff_get? hg, h]
    have hsorted : (sorted fs).Perm (sorted gs) :=
      ((sorted_perm fs).trans hperm).trans (sorted_perm gs).symm
    refine hsorted.eq_of_pairwise ?_ (pairwise_sorted fs) (pairwise_sorted gs)
    rintro ⟨k, v⟩ ⟨j, w⟩ hv hw hkj hjk
    obtain rfl : k = j := le_antisymm hkj hjk
    have hv' : get? k fs = some v := get?_of_mem hf ((sorted_perm fs).mem_iff.1 hv)
    have hw' : get? k gs = some w := get?_of_mem hg ((sorted_perm gs).mem_iff.1 hw)
    rw [h k, hw'] at hv'
    rw [Option.some.inj hv']

/-- The fields with a function applied to their values. -/
def mapValues (f : Value → Value) (fields : Fields) : Fields := fields.map fun g => (g.1, f g.2)

theorem keys_mapValues (f : Value → Value) (fields : Fields) :
    keys (mapValues f fields) = keys fields := by
  simp [keys, mapValues]

theorem get?_mapValues (f : Value → Value) (k : Text) : ∀ fields : Fields,
    get? k (mapValues f fields) = (get? k fields).map f
  | [] => rfl
  | (j, v) :: rest => by
    have ih := get?_mapValues f k rest
    unfold mapValues at ih ⊢
    rw [List.map_cons, get?_cons, get?_cons, ih]
    split <;> rfl

end Fields

namespace Value

/-! ## Forms -/

mutual

/-- A value with the fields of every object sorted by name and every value that holds no others
replaced. -/
def form (atom : Value → Value) : Value → Value
  | .list items => .list (formItems atom items)
  | .object fields => .object (Fields.sorted (formFields atom fields))
  | v => atom v

def formItems (atom : Value → Value) : List Value → List Value
  | [] => []
  | v :: rest => form atom v :: formItems atom rest

def formFields (atom : Value → Value) : List (Text × Value) → List (Text × Value)
  | [] => []
  | (k, v) :: rest => (k, form atom v) :: formFields atom rest

end

/-- A value as one whose objects have no order. -/
def arranged : Value → Value := form id

section Form

variable {atom : Value → Value}

theorem formItems_eq : ∀ items : List Value, formItems atom items = items.map (form atom)
  | [] => rfl
  | v :: rest => by rw [formItems, formItems_eq rest, List.map_cons]

theorem formFields_eq : ∀ fields : Fields,
    formFields atom fields = Fields.mapValues (form atom) fields
  | [] => rfl
  | (k, v) :: rest => by
    rw [formFields, formFields_eq rest]
    rfl

theorem form_list (items : List Value) :
    form atom (.list items) = .list (items.map (form atom)) :=
  congrArg Value.list (formItems_eq items)

theorem form_object (fields : Fields) :
    form atom (.object fields) = .object (Fields.sorted (Fields.mapValues (form atom) fields)) :=
  congrArg (fun fields => Value.object (Fields.sorted fields)) (formFields_eq fields)

theorem form_name {v : Value} (h : v.isName) : form atom v = atom v := by
  cases v with
  | list items => simp [isName] at h
  | object fields => simp [isName] at h
  | _ => rfl

/-- Two objects have one form when the values of each name have. -/
theorem form_object_iff {fs gs : Fields} (hf : (Fields.keys fs).Nodup)
    (hg : (Fields.keys gs).Nodup) : form atom (.object fs) = form atom (.object gs)
      ↔ ∀ k, (Fields.get? k fs).map (form atom) = (Fields.get? k gs).map (form atom) := by
  rw [form_object, form_object, Value.object.injEq, Fields.sorted_eq_iff]
  · simp only [Fields.get?_mapValues]
  · rwa [Fields.keys_mapValues]
  · rwa [Fields.keys_mapValues]

theorem arranged_name {v : Value} (h : v.isName) : v.arranged = v := form_name h

theorem arranged_list (items : List Value) :
    (Value.list items).arranged = .list (items.map arranged) := form_list items

theorem arranged_object (fields : Fields) :
    (Value.object fields).arranged = .object (Fields.sorted (Fields.mapValues arranged fields)) :=
  form_object fields

theorem get?_arranged {fields : Fields} (h : (Fields.keys fields).Nodup) (k : Text) :
    Fields.get? k (Fields.sorted (Fields.mapValues arranged fields))
      = (Fields.get? k fields).map arranged := by
  have hkeys : (Fields.keys (Fields.mapValues arranged fields)).Nodup := by
    rwa [Fields.keys_mapValues]
  rw [← Fields.get?_perm hkeys (Fields.sorted_perm _).symm, Fields.get?_mapValues]

theorem keys_arranged_perm (fields : Fields) :
    (Fields.keys (Fields.sorted (Fields.mapValues arranged fields))).Perm (Fields.keys fields) := by
  have h := (Fields.sorted_perm (Fields.mapValues arranged fields)).map Prod.fst
  rwa [← Fields.keys, ← Fields.keys, Fields.keys_mapValues] at h

theorem isFormed_arranged {test : Value → Bool} {name : Text → Bool} (v : Value) :
    isFormed test name v → isFormed test name v.arranged := by
  induction v using Value.induction with
  | list items ih =>
    intro h
    rw [arranged_list, isFormed_list]
    simp only [List.forall_mem_map]
    exact fun v hv => ih v hv (isFormed_list.1 h v hv)
  | object fields ih =>
    intro h
    obtain ⟨hnodup, hnames, hvalues⟩ := isFormed_object.1 h
    have hkeys := keys_arranged_perm fields
    rw [arranged_object]
    refine isFormed_object.2 ⟨hkeys.nodup_iff.2 hnodup, fun k hk => ?_, fun f hf => ?_⟩
    · exact hnames k (hkeys.mem_iff.1 hk)
    · rw [(Fields.sorted_perm _).mem_iff] at hf
      obtain ⟨g, hg, rfl⟩ := List.mem_map.1 hf
      exact ih g hg (hvalues g hg)
  | _ => exact fun h => h

theorem height_arranged (v : Value) : v.arranged.height = v.height := by
  have hle : ∀ n, v.arranged.height ≤ n ↔ v.height ≤ n := by
    induction v using Value.induction with
    | list items ih =>
      rintro (_ | n)
      · simp [height_list, arranged_list]
      · rw [arranged_list, height_list_le_iff, height_list_le_iff]
        simp only [List.forall_mem_map]
        exact forall₂_congr fun v hv => ih v hv n
    | object fields ih =>
      rintro (_ | n)
      · simp [height_object, arranged_object]
      · rw [arranged_object, height_object_le_iff, height_object_le_iff]
        simp only [(Fields.sorted_perm _).mem_iff, Fields.mapValues, List.forall_mem_map]
        exact forall₂_congr fun f hf => ih f hf n
    | _ => exact fun _ => Iff.rfl
  exact le_antisymm ((hle _).2 le_rfl) ((hle _).1 le_rfl)

/-- The order of fields does not count for a form. -/
theorem form_arranged (v : Value) : v.isProper → form atom v.arranged = form atom v := by
  induction v using Value.induction with
  | list items ih =>
    intro hv
    rw [arranged_list, form_list, form_list, List.map_map, Value.list.injEq]
    exact List.map_congr_left fun v hmem => ih v hmem (isFormed_list.1 hv v hmem)
  | object fields ih =>
    intro hv
    have hnodup := Fields.nodup_of_isProper hv
    rw [arranged_object,
      form_object_iff ((keys_arranged_perm fields).nodup_iff.2 hnodup) hnodup]
    intro k
    rw [get?_arranged hnodup]
    cases hfield : Fields.get? k fields with
    | none => rfl
    | some v =>
      have hmem := Fields.mem_of_get? hfield
      exact congrArg some (ih _ hmem (Fields.isProper_of_mem hv hmem))
  | _ => exact fun _ => rfl

variable (hatom : ∀ v : Value, v.isName → (atom v).isName)

include hatom

theorem isName_form (v : Value) : (form atom v).isName = v.isName := by
  by_cases h : v.isName
  · rw [form_name h, hatom v h, h]
  · cases v with
    | list items => rw [form_list]; rfl
    | object fields => rw [form_object]; rfl
    | _ => exact absurd rfl h

theorem object_of_form_eq {fs : Fields} {w : Value} (h : form atom (.object fs) = form atom w) :
    ∃ gs, w = .object gs := by
  have hname : w.isName = false := by
    rw [← isName_form hatom w, ← h, isName_form hatom]
    rfl
  cases w with
  | object gs => exact ⟨gs, rfl⟩
  | list items =>
    rw [form_object, form_list] at h
    exact absurd h (by simp)
  | _ => simp [isName] at hname

theorem list_of_form_eq {items : List Value} {w : Value}
    (h : form atom (.list items) = form atom w) : ∃ others, w = .list others := by
  have hname : w.isName = false := by
    rw [← isName_form hatom w, ← h, isName_form hatom]
    rfl
  cases w with
  | list others => exact ⟨others, rfl⟩
  | object gs =>
    rw [form_object, form_list] at h
    exact absurd h (by simp)
  | _ => simp [isName] at hname

/-- Completing two values of one form from one default gives values of one form. -/
theorem form_completeValue (d : Value) : d.isProper → ∀ {v w : Value}, v.isProper → w.isProper →
    form atom v = form atom w →
    form atom (Fields.completeValue v d) = form atom (Fields.completeValue w d) := by
  induction d using Value.induction with
  | object ds ih =>
    intro hd v w hv hw h
    by_cases hobject : ∃ fs, v = .object fs
    · obtain ⟨fs, rfl⟩ := hobject
      obtain ⟨gs, rfl⟩ := object_of_form_eq hatom h
      have hd' := Fields.nodup_of_isProper hd
      have hf := Fields.nodup_of_isProper hv
      have hg := Fields.nodup_of_isProper hw
      have hvalues := (form_object_iff hf hg).1 h
      have hcomplete : ∀ {fields : Fields}, (Value.object fields).isProper →
          (Fields.keys (Fields.complete fields ds)).Nodup := fun hp =>
        Fields.nodup_of_isProper (isFormed_complete hd hp)
      rw [Fields.completeValue_object, Fields.completeValue_object,
        form_object_iff (hcomplete hv) (hcomplete hw)]
      intro k
      have hk := hvalues k
      rw [Fields.get?_complete k fs hd', Fields.get?_complete k gs hd']
      cases hget : Fields.get? k ds with
      | none => exact hk
      | some d =>
        have hmem := Fields.mem_of_get? hget
        cases hv' : Fields.get? k fs with
        | none =>
          rw [hv', Option.map_none, Eq.comm, Option.map_eq_none_iff] at hk
          rw [hk]
        | some v' =>
          rw [hv', Option.map_some, Eq.comm, Option.map_eq_some_iff] at hk
          obtain ⟨w', hw', hform⟩ := hk
          rw [hw']
          refine congrArg some (ih _ hmem (Fields.isProper_of_mem hd hmem) ?_ ?_ hform.symm)
          · exact Fields.isProper_of_mem hv (Fields.mem_of_get? hv')
          · exact Fields.isProper_of_mem hw (Fields.mem_of_get? hw')
    · have hother : ¬ ∃ gs, w = .object gs := by
        rintro ⟨gs, rfl⟩
        exact hobject (object_of_form_eq hatom h.symm)
      rw [Fields.completeValue_of_not_object _ fun fs hfs => hobject ⟨fs, hfs⟩,
        Fields.completeValue_of_not_object _ fun gs hgs => hother ⟨gs, hgs⟩]
      exact h
  | _ =>
    intro _ v w _ _ h
    rwa [Fields.completeValue_default v (by simp), Fields.completeValue_default w (by simp)]

theorem form_complete {fs gs ds : Fields} (hd : (Value.object ds).isProper)
    (hf : (Value.object fs).isProper) (hg : (Value.object gs).isProper)
    (h : form atom (.object fs) = form atom (.object gs)) :
    form atom (.object (Fields.complete fs ds)) = form atom (.object (Fields.complete gs ds)) := by
  rw [← Fields.completeValue_object, ← Fields.completeValue_object]
  exact form_completeValue hatom _ hd hf hg h

/-- Names lead to values of one form in two values of one form. -/
theorem form_follow : ∀ {path : List Text} {v w : Value}, v.isProper → w.isProper →
    form atom v = form atom w →
    (Fields.follow path v).map (form atom) = (Fields.follow path w).map (form atom)
  | [], v, w, _, _, h => by simp [Fields.follow, h]
  | part :: rest, v, w, hv, hw, h => by
    by_cases hobject : ∃ fs, v = .object fs
    · obtain ⟨fs, rfl⟩ := hobject
      obtain ⟨gs, rfl⟩ := object_of_form_eq hatom h
      have hvalues := (form_object_iff (Fields.nodup_of_isProper hv)
        (Fields.nodup_of_isProper hw)).1 h part
      rw [Fields.follow, Fields.follow]
      cases hv' : Fields.get? part fs with
      | none =>
        rw [hv', Option.map_none, Eq.comm, Option.map_eq_none_iff] at hvalues
        rw [hvalues]
      | some v' =>
        rw [hv', Option.map_some, Eq.comm, Option.map_eq_some_iff] at hvalues
        obtain ⟨w', hw', hform⟩ := hvalues
        rw [hw']
        refine form_follow ?_ ?_ hform.symm
        · exact Fields.isProper_of_mem hv (Fields.mem_of_get? hv')
        · exact Fields.isProper_of_mem hw (Fields.mem_of_get? hw')
    · have hother : ¬ ∃ gs, w = .object gs := by
        rintro ⟨gs, rfl⟩
        exact hobject (object_of_form_eq hatom h.symm)
      have hnone : ∀ {u : Value}, (¬ ∃ fs, u = .object fs) →
          Fields.follow (part :: rest) u = none := by
        intro u hu
        cases u with
        | object fs => exact absurd ⟨fs, rfl⟩ hu
        | _ => rfl
      rw [hnone hobject, hnone hother]

end Form

end Value

namespace Binary64

/-! ## Whole floating-point numbers -/

/-- The integer that a number is, if it is one. -/
def integer? (x : Binary64) : Option ℤ :=
  match x with
  | .finite negative exponent fraction =>
    let r := ratio exponent fraction
    if r.1 % r.2 = 0 then some (if negative then -((r.1 / r.2 : ℕ) : ℤ) else (r.1 / r.2 : ℕ))
    else none
  | _ => none

theorem isInteger_iff {x : Binary64} {n : ℤ} : x.isInteger n ↔ x.integer? = some n := by
  unfold isInteger integer?
  cases x with
  | finite negative e f =>
    dsimp only
    split <;> simp [*]
  | _ => simp

theorem significand_eq_zero_iff {e : Fin 2047} {f : Fin 4503599627370496} :
    significand e f = 0 ↔ e.val = 0 ∧ f.val = 0 := by
  unfold significand
  split <;> simp [*]

theorem ratio_num_eq_zero_iff {e : Fin 2047} {f : Fin 4503599627370496} :
    (ratio e f).1 = 0 ↔ e.val = 0 ∧ f.val = 0 := by
  rw [← significand_eq_zero_iff]
  constructor
  · intro h
    by_contra hs
    exact absurd h (Nat.pos_iff_ne_zero.1 (ratio_num_pos (Nat.pos_of_ne_zero hs)))
  · intro h
    unfold ratio
    split <;> simp [h]

theorem integer?_zero {x : Binary64} (h : x.isNonzero = false) : x.integer? = some 0 := by
  cases x with
  | finite negative e f =>
    have hzero : (ratio e f).1 = 0 := ratio_num_eq_zero_iff.2 (by simpa [isNonzero] using h)
    simp [integer?, hzero]
  | _ => simp [isNonzero] at h

/-- Two finite numbers of one sign and one magnitude are one number. -/
theorem eq_of_ratio (negative : Bool) {e e' : Fin 2047} {f f' : Fin 4503599627370496}
    (hpos : 0 < (ratio e f).1) (hpos' : 0 < (ratio e' f').1)
    (h : (ratio e f).1 * (ratio e' f').2 = (ratio e' f').1 * (ratio e f).2) :
    finite negative e f = finite negative e' f' := by
  have hsignificand : ∀ {e f}, 0 < (ratio e f).1 → 0 < significand e f := by
    intro e f hr
    refine Nat.pos_of_ne_zero fun hs => ?_
    exact hr.ne' (ratio_num_eq_zero_iff.2 (significand_eq_zero_iff.1 hs))
  rw [← ofPositiveRatio_ratio negative (hsignificand hpos),
    ← ofPositiveRatio_ratio negative (hsignificand hpos')]
  exact ofPositiveRatio_congr negative hpos hpos' (ratio_pos e f) (ratio_pos e' f') h

/-- A whole number is its integer's only number, but for the sign of zero. -/
theorem eq_or_zero_of_integer? {x y : Binary64} {n : ℤ} (hx : x.integer? = some n)
    (hy : y.integer? = some n) : x = y ∨ (x.isNonzero = false ∧ y.isNonzero = false) := by
  cases x with
  | finite s e f =>
    cases y with
    | finite s' e' f' =>
      simp only [integer?, Option.ite_none_right_eq_some, Option.some.injEq] at hx hy
      obtain ⟨⟨hmod, hn⟩, hmod', hn'⟩ := hx, hy
      have hnum : (ratio e f).1 = (ratio e f).1 / (ratio e f).2 * (ratio e f).2 :=
        (Nat.div_mul_cancel (Nat.dvd_of_mod_eq_zero hmod)).symm
      have hnum' : (ratio e' f').1 = (ratio e' f').1 / (ratio e' f').2 * (ratio e' f').2 :=
        (Nat.div_mul_cancel (Nat.dvd_of_mod_eq_zero hmod')).symm
      obtain ⟨a, ha⟩ : ∃ a, a = (ratio e f).1 / (ratio e f).2 := ⟨_, rfl⟩
      obtain ⟨b, hb⟩ : ∃ b, b = (ratio e' f').1 / (ratio e' f').2 := ⟨_, rfl⟩
      rw [← ha] at hn hnum
      rw [← hb] at hn' hnum'
      have hab : a = b ∧ (a = 0 ∨ s = s') := by
        cases s <;> cases s' <;> simp at hn hn' ⊢ <;> omega
      obtain ⟨rfl, hsign⟩ := hab
      rcases Nat.eq_zero_or_pos a with rfl | hpos
      · rw [zero_mul] at hnum hnum'
        have hzero := ratio_num_eq_zero_iff.1 hnum
        have hzero' := ratio_num_eq_zero_iff.1 hnum'
        exact .inr (by simp [isNonzero, hzero, hzero'])
      · obtain rfl := hsign.resolve_left hpos.ne'
        refine .inl (eq_of_ratio s ?_ ?_ ?_)
        · rw [hnum]
          exact Nat.mul_pos hpos (ratio_pos e f)
        · rw [hnum']
          exact Nat.mul_pos hpos (ratio_pos e' f')
        · calc (ratio e f).1 * (ratio e' f').2
            _ = a * (ratio e f).2 * (ratio e' f').2 := by rw [← hnum]
            _ = a * (ratio e' f').2 * (ratio e f).2 := by ring
            _ = (ratio e' f').1 * (ratio e f).2 := by rw [← hnum']
    | _ => simp [integer?] at hy
  | _ => simp [integer?] at hx

end Binary64

namespace Value

/-! ## Values that are the same -/

/-- The integer that a truth value or a whole number stands for, in its place. -/
def number : Value → Value
  | .bool b => .int (if b then 1 else 0)
  | .float x => match x.integer? with
    | some n => .int n
    | none => .float x
  | v => v

theorem isName_number (v : Value) (h : v.isName) : v.number.isName := by
  cases v with
  | float x =>
    rw [number]
    split <;> rfl
  | _ => exact h

theorem equals_or_eq_iff {x y : Binary64} : (x.equals y || decide (x = y)) = true
    ↔ x = y ∨ (x.isNonzero = false ∧ y.isNonzero = false) := by
  unfold Binary64.equals
  split
  · simp [Binary64.isNonzero]
  · simp [Binary64.isNonzero]
  · simp only [Bool.or_eq_true, decide_eq_true_eq, Bool.and_eq_true, Bool.not_eq_true']
    tauto

theorem number_float_iff {x y : Binary64} : number (.float x) = number (.float y)
    ↔ x = y ∨ (x.isNonzero = false ∧ y.isNonzero = false) := by
  constructor
  · intro h
    cases hx : x.integer? with
    | none =>
      cases hy : y.integer? with
      | none => exact .inl (by simpa [number, hx, hy] using h)
      | some n => simp [number, hx, hy] at h
    | some m =>
      cases hy : y.integer? with
      | none => simp [number, hx, hy] at h
      | some n =>
        obtain rfl : m = n := by simpa [number, hx, hy] using h
        exact Binary64.eq_or_zero_of_integer? hx hy
  · rintro (rfl | ⟨hx, hy⟩)
    · rfl
    · simp [number, Binary64.integer?_zero hx, Binary64.integer?_zero hy]

theorem number_float_eq_iff {x : Binary64} {w : Value} (hw : w.isName) (hf : ∀ y, w ≠ .float y) :
    number (.float x) = w.number ↔ ∃ n, w.integer? = some n ∧ x.isInteger n := by
  simp only [Binary64.isInteger_iff, number]
  cases w with
  | float y => exact absurd rfl (hf y)
  | list items => simp [isName] at hw
  | object fields => simp [isName] at hw
  | _ => cases hx : x.integer? <;> simp [integer?, Eq.comm]

/-- Two values that hold no others are the same when they are equal or stand for one number. -/
theorem sameAtom_iff {v w : Value} (hv : v.isName) (hw : w.isName) :
    sameAtom true v w ↔ v.number = w.number := by
  cases v with
  | list items => simp [isName] at hv
  | object fields => simp [isName] at hv
  | float x =>
    cases w with
    | list items => simp [isName] at hw
    | object fields => simp [isName] at hw
    | float y =>
      rw [number_float_iff, ← equals_or_eq_iff]
      simp [sameAtom]
    | _ =>
      rw [number_float_eq_iff hw (by simp)]
      simp [sameAtom, integer?]
  | _ =>
    cases w with
    | list items => simp [isName] at hw
    | object fields => simp [isName] at hw
    | float y =>
      refine Iff.trans ?_ ((number_float_eq_iff hv (by simp)).symm.trans eq_comm)
      simp [sameAtom, integer?]
    | _ => simp [sameAtom, integer?, number]

theorem same_iff_of_isName {v w : Value} (hv : v.isName) :
    same true v w ↔ form number v = form number w := by
  have hsame : same true v w = sameAtom true v w := by
    cases v with
    | list items => simp [isName] at hv
    | object fields => simp [isName] at hv
    | _ => simp [same]
  by_cases hw : w.isName
  · rw [hsame, sameAtom_iff hv hw, form_name hv, form_name hw]
  · constructor
    · intro h
      rw [hsame] at h
      cases w with
      | list items => cases v <;> simp [sameAtom, integer?] at h hv
      | object fields => cases v <;> simp [sameAtom, integer?] at h hv
      | _ => exact absurd rfl hw
    · intro h
      rw [← isName_form isName_number, ← h, isName_form isName_number] at hw
      exact absurd hv hw

theorem sameItems_iff : ∀ {vs ws : List Value},
    (∀ v ∈ vs, v.isProper → ∀ {w : Value}, w.isProper →
      (same true v w ↔ form number v = form number w)) →
    (∀ v ∈ vs, v.isProper) → (∀ w ∈ ws, w.isProper) →
    (sameItems true vs ws ↔ vs.map (form number) = ws.map (form number))
  | [], [], _, _, _ => by simp [sameItems]
  | [], _ :: _, _, _, _ => by simp [sameItems]
  | _ :: _, [], _, _, _ => by simp [sameItems]
  | v :: vs, w :: ws, h, hv, hw => by
    have hhead := h v List.mem_cons_self (hv v List.mem_cons_self) (hw w List.mem_cons_self)
    have htail := sameItems_iff (fun u hu => h u (List.mem_cons_of_mem _ hu))
      (fun u hu => hv u (List.mem_cons_of_mem _ hu)) (fun u hu => hw u (List.mem_cons_of_mem _ hu))
    simp [sameItems, hhead, htail]

theorem sameFields_iff {gs : Fields} : ∀ {fs : Fields}, sameFields true fs gs
    ↔ ∀ f ∈ fs, ∃ w, Fields.get? f.1 gs = some w ∧ same true f.2 w
  | [] => by simp [sameFields]
  | (k, v) :: rest => by
    have ih := @sameFields_iff gs rest
    rw [sameFields, Bool.and_eq_true, ih, List.forall_mem_cons]
    cases Fields.get? k gs <;> simp

theorem length_of_form_eq {fs gs : Fields}
    (h : form number (.object fs) = form number (.object gs)) : fs.length = gs.length := by
  rw [form_object, form_object, Value.object.injEq] at h
  have hlength := congrArg List.length h
  simpa [(Fields.sorted_perm _).length_eq, Fields.mapValues] using hlength

/-- A name is missing in both of two documents of one length when the second has all names of the
first. -/
theorem notMem_keys {fs gs : Fields} (hf : (Fields.keys fs).Nodup) (hlength : fs.length = gs.length)
    (hsub : ∀ k ∈ Fields.keys fs, k ∈ Fields.keys gs) {k : Text} (hk : k ∉ Fields.keys fs) :
    k ∉ Fields.keys gs := by
  have hperm : (Fields.keys fs).Perm (Fields.keys gs) :=
    (List.subperm_of_subset hf hsub).perm_of_length_le (by simp [Fields.keys, hlength])
  rwa [← hperm.mem_iff]

/-- Two values are the same when they have one form with integers for what stands for them. -/
theorem same_iff (v : Value) : v.isProper → ∀ {w : Value}, w.isProper →
    (same true v w ↔ form number v = form number w) := by
  induction v using Value.induction with
  | list items ih =>
    intro hv w hw
    by_cases hlist : ∃ others, w = .list others
    · obtain ⟨others, rfl⟩ := hlist
      rw [same, form_list, form_list, Value.list.injEq]
      exact sameItems_iff ih (isFormed_list.1 hv) (isFormed_list.1 hw)
    · constructor
      · intro h
        cases w with
        | list others => exact absurd ⟨others, rfl⟩ hlist
        | _ => simp [same] at h
      · intro h
        exact absurd (list_of_form_eq isName_number h) hlist
  | object fs ih =>
    intro hv w hw
    by_cases hobject : ∃ gs, w = .object gs
    · obtain ⟨gs, rfl⟩ := hobject
      have hf := Fields.nodup_of_isProper hv
      have hg := Fields.nodup_of_isProper hw
      rw [same, Bool.and_eq_true, decide_eq_true_eq, sameFields_iff]
      constructor
      · rintro ⟨hlength, hfields⟩
        rw [form_object_iff hf hg]
        intro k
        cases hget : Fields.get? k fs with
        | none =>
          have hk := notMem_keys hf hlength (fun j hj => ?_) (Fields.get?_eq_none_iff.1 hget)
          · rw [Fields.get?_eq_none_iff.2 hk]
          · obtain ⟨f, hmem, rfl⟩ := List.mem_map.1 hj
            obtain ⟨w, hw, -⟩ := hfields f hmem
            by_contra hnot
            simp [Fields.get?_eq_none_iff.2 hnot] at hw
        | some v =>
          have hmem := Fields.mem_of_get? hget
          obtain ⟨u, hu, hsame⟩ := hfields _ hmem
          have hiff := ih _ hmem (Fields.isProper_of_mem hv hmem)
            (Fields.isProper_of_mem hw (Fields.mem_of_get? hu))
          rw [hu, Option.map_some, Option.map_some, hiff.1 hsame]
      · intro h
        refine ⟨length_of_form_eq h, fun f hmem => ?_⟩
        have hk := (form_object_iff hf hg).1 h f.1
        rw [Fields.get?_of_mem hf hmem, Option.map_some, Eq.comm, Option.map_eq_some_iff] at hk
        obtain ⟨u, hu, hform⟩ := hk
        have hiff := ih _ hmem (Fields.isProper_of_mem hv hmem)
          (Fields.isProper_of_mem hw (Fields.mem_of_get? hu))
        exact ⟨u, hu, hiff.2 hform.symm⟩
    · constructor
      · intro h
        cases w with
        | object gs => exact absurd ⟨gs, rfl⟩ hobject
        | _ => simp [same] at h
      · intro h
        exact absurd (object_of_form_eq isName_number h) hobject
  | _ => exact fun _ _ _ => same_iff_of_isName rfl

end Value

end DhrWorkbench
