import DhrWorkbench.Proofs.KeyLaws

/-!
# Documents that are the same after a write

A document is the same after a value was set at the end of a path exactly if a same value was there
(`same_setPath_iff`). Not-a-number counts as the same as itself there; a value without any does not
tell the two ways of comparing apart (`same_false_of_true`).
-/

namespace DhrWorkbench

namespace Binary64

theorem equals_self {x : Binary64} (h : x ≠ .nan) : x.equals x := by
  cases x with
  | nan => exact absurd rfl h
  | _ => simp [Binary64.equals]

end Binary64

namespace Value

/-! ## Not-a-number -/

/-- Whether a value is another than not-a-number. -/
def isNotNan : Value → Bool
  | .float .nan => false
  | _ => true

/-- Whether a value has distinct names in each object and no not-a-number anywhere. -/
def lacksNan (v : Value) : Bool := v.isFormed isNotNan fun _ => true

theorem isNotNan_of_lacksNan {v : Value} (h : v.lacksNan) : v.isNotNan := by
  cases v with
  | float x => simpa [lacksNan, isFormed] using h
  | _ => rfl

theorem sameAtom_false_of_true {v w : Value} (hw : w.isNotNan) (h : sameAtom true v w) :
    sameAtom false v w := by
  cases v with
  | float x =>
    cases w with
    | float y =>
      have hy : y ≠ .nan := fun heq => by simp [heq, isNotNan] at hw
      simp only [sameAtom, Bool.true_and, Bool.or_eq_true, decide_eq_true_eq] at h
      obtain h | rfl := h
      · simp [sameAtom, h]
      · simp [sameAtom, Binary64.equals_self hy]
    | _ => simpa [sameAtom] using h
  | _ => cases w <;> exact h

theorem sameItems_false_of_true : ∀ {vs ws : List Value},
    (∀ v ∈ vs, ∀ {w : Value}, w.lacksNan → same true v w → same false v w) →
    (∀ w ∈ ws, w.lacksNan) → sameItems true vs ws → sameItems false vs ws
  | [], [], _, _, _ => rfl
  | [], _ :: _, _, _, h => by simp [sameItems] at h
  | _ :: _, [], _, _, h => by simp [sameItems] at h
  | v :: vs, w :: ws, hsame, hws, h => by
    simp only [sameItems, Bool.and_eq_true] at h ⊢
    exact ⟨hsame v (by simp) (hws w (by simp)) h.1, sameItems_false_of_true
      (fun u hu => hsame u (by simp [hu])) (fun u hu => hws u (by simp [hu])) h.2⟩

theorem sameFields_false_of_true {gs : Fields} (hgs : (Value.object gs).lacksNan) :
    ∀ {fs : Fields}, (∀ f ∈ fs, ∀ {w : Value}, w.lacksNan → same true f.2 w → same false f.2 w) →
      sameFields true fs gs → sameFields false fs gs
  | [], _, _ => rfl
  | (k, v) :: rest, hsame, h => by
    simp only [sameFields, Bool.and_eq_true] at h ⊢
    refine ⟨?_, sameFields_false_of_true hgs (fun g hg => hsame g (by simp [hg])) h.2⟩
    rcases hk : Fields.get? k gs with _ | u
    · simp [hk] at h
    · rw [hk] at h
      exact hsame (k, v) (by simp) (isFormed_get? hgs hk) h.1

/-- Without a not-a-number it does not matter whether it is the same as itself. -/
theorem same_false_of_true (v : Value) : ∀ {w : Value}, w.lacksNan → same true v w →
    same false v w := by
  induction v using Value.induction with
  | list items ih =>
    intro w hw h
    rcases w with _ | _ | _ | _ | _ | others | _ <;> simp only [same, Bool.false_eq_true] at h ⊢
    exact sameItems_false_of_true ih (isFormed_list.1 hw) h
  | object fields ih =>
    intro w hw h
    rcases w with _ | _ | _ | _ | _ | _ | others <;> simp only [same, Bool.false_eq_true] at h ⊢
    rw [Bool.and_eq_true] at h ⊢
    exact ⟨h.1, sameFields_false_of_true hw ih h.2⟩
  | _ =>
    intro w hw h
    simp only [same] at h ⊢
    exact sameAtom_false_of_true (isNotNan_of_lacksNan hw) h

theorem exists_of_same_object {reflexive : Bool} {v : Value} {fields : Fields}
    (h : same reflexive v (.object fields)) : ∃ inner, v = .object inner := by
  cases v with
  | object inner => exact ⟨inner, rfl⟩
  | _ => simp [same, sameAtom, integer?] at h

end Value

namespace Fields

/-! ## Documents that a value leaves the same -/

variable {fields : Fields} {v : Value}

theorem isProper_placed (hv : v.isProper) {current : Option Value}
    (hcurrent : ∀ u ∈ current, u.isProper) : ∀ rest : List Text,
    (placed v rest current).isProper
  | [] => hv
  | _ :: _ => Value.isFormed_setPath hv (fun _ _ => rfl) (Value.isFormed_ofSection hcurrent)

/-- A document is the same after a field was set just if a same value was there. -/
theorem same_insert_iff (hfields : (Value.object fields).isProper) (hv : v.isProper) (k : Text) :
    (Value.object fields).same true (.object (insert k v fields))
      ↔ ∃ u, get? k fields = some u ∧ u.same true v := by
  have hnodup := nodup_of_isProper hfields
  rw [Value.same_iff _ hfields (Value.isFormed_insert hfields rfl hv),
    Value.form_object_iff hnodup (nodup_insert hnodup)]
  constructor
  · intro h
    have hk := h k
    rw [get?_insert, if_pos rfl, Option.map_some, Option.map_eq_some_iff] at hk
    obtain ⟨u, hu, hform⟩ := hk
    exact ⟨u, hu, (Value.same_iff u (Value.isFormed_get? hfields hu) hv).2 hform⟩
  · rintro ⟨u, hu, hsame⟩ j
    have hform := (Value.same_iff u (Value.isFormed_get? hfields hu) hv).1 hsame
    rw [get?_insert]
    by_cases hkj : k = j
    · subst hkj
      rw [if_pos rfl, hu, Option.map_some, Option.map_some, hform]
    · rw [if_neg hkj]

/-- So is one after a value was set at the end of a path. -/
theorem same_setPath_iff (hv : v.isProper) : ∀ {path : List Text} {fields : Fields}, path ≠ [] →
    (Value.object fields).isProper →
    ((Value.object fields).same true (.object (setPath v path fields))
      ↔ ∃ u, follow path (.object fields) = some u ∧ u.same true v)
  | [], _, h, _ => absurd rfl h
  | part :: rest, fields, _, hfields => by
    have hcurrent : ∀ u ∈ get? part fields, u.isProper := fun u hu =>
      Value.isFormed_get? hfields hu
    have hplaced := isProper_placed hv hcurrent rest
    rw [setPath_cons, same_insert_iff hfields hplaced, follow_cons]
    cases hget : get? part fields with
    | none => simp
    | some u =>
      simp only [Option.some.injEq, exists_eq_left', Option.bind_some]
      cases rest with
      | nil => simp [placed, follow]
      | cons next rest =>
        by_cases hobject : ∃ inner, u = .object inner
        · obtain ⟨inner, rfl⟩ := hobject
          exact same_setPath_iff hv (List.cons_ne_nil _ _) (Value.isFormed_get? hfields hget)
        · refine iff_of_false (fun hsame => hobject (Value.exists_of_same_object hsame)) ?_
          have hnone : follow (next :: rest) u = none := by
            cases u with
            | object inner => exact absurd ⟨inner, rfl⟩ hobject
            | _ => rfl
          simp [hnone]

end Fields

end DhrWorkbench
