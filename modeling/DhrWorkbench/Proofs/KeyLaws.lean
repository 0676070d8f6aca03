import DhrWorkbench.Proofs.DottedKeys

/-!
# Laws of dotted keys

A document with dotted keys is a store of values under paths: what was set is read back, unrelated
keys are read as before, the last of two values set under one key counts, and values set under
unrelated keys can be set in either order, up to the order of fields. One step along a path sets one
field (`setPath_cons`), so each law is the law for fields, carried along the path. A key can be
written unless it is empty, and a write that fails leaves the document as it was.
-/

namespace DhrWorkbench

namespace Fields

/-- What stands under the first name of a path once a value was set at its end. -/
def placed (value : Value) : List Text → Option Value → Value
  | [], _ => value
  | part :: rest, current => .object (setPath value (part :: rest) (ofSection current))

theorem setPath_cons (value : Value) (part : Text) (rest : List Text) (fields : Fields) :
    setPath value (part :: rest) fields
      = insert part (placed value rest (get? part fields)) fields := by
  cases rest <;> rfl

theorem insert_insert (k : Text) (v w : Value) : ∀ fields : Fields,
    insert k w (insert k v fields) = insert k w fields
  | [] => by simp [insert]
  | (j, u) :: fields => by
    by_cases hjk : j = k
    · simp [insert, hjk]
    · simp [insert, hjk, insert_insert k v w fields]

/-- The last of two values that are set at the end of a path counts. -/
theorem setPath_setPath (v w : Value) : ∀ (path : List Text) (fields : Fields),
    setPath w path (setPath v path fields) = setPath w path fields
  | [], fields => rfl
  | part :: rest, fields => by
    rw [setPath_cons, setPath_cons, setPath_cons, insert_insert, get?_insert, if_pos rfl]
    congr 1
    cases rest with
    | nil => rfl
    | cons next rest =>
      simp only [placed, ofSection]
      rw [setPath_setPath v w (next :: rest)]

/-! ## Up to the order of fields -/

theorem arranged_insert_comm {fields : Fields} (h : (keys fields).Nodup) {j k : Text} (hjk : j ≠ k)
    (v w : Value) : (Value.object (insert k w (insert j v fields))).arranged
      = (Value.object (insert j v (insert k w fields))).arranged := by
  refine (Value.form_object_iff (nodup_insert (nodup_insert h))
    (nodup_insert (nodup_insert h))).2 fun i => ?_
  simp only [get?_insert]
  split_ifs with hk hj
  · exact absurd (hj.trans hk.symm) hjk
  all_goals rfl

theorem arranged_insert_congr {fields : Fields} (h : (keys fields).Nodup) (k : Text) {v w : Value}
    (hvw : v.arranged = w.arranged) : (Value.object (insert k v fields)).arranged
      = (Value.object (insert k w fields)).arranged := by
  refine (Value.form_object_iff (nodup_insert h) (nodup_insert h)).2 fun i => ?_
  simp only [get?_insert]
  split_ifs
  · exact congrArg some hvw
  · rfl

/-- Values that are set at the ends of unrelated paths can be set in either order. -/
theorem arranged_setPath_comm (v w : Value) : ∀ {p q : List Text} {fields : Fields},
    (Value.object fields).isProper → Unrelated p q →
    (Value.object (setPath w q (setPath v p fields))).arranged
      = (Value.object (setPath v p (setPath w q fields))).arranged
  | [], _, _, _, h => absurd List.nil_prefix h.1
  | _ :: _, [], _, _, h => absurd List.nil_prefix h.2
  | part :: p, name :: q, fields, hproper, h => by
    have hnodup := nodup_of_isProper hproper
    simp only [setPath_cons, get?_insert]
    by_cases hpart : part = name
    · subst hpart
      have hrest : Unrelated p q := by simpa [Unrelated, List.cons_prefix_cons] using h
      obtain ⟨next, p, rfl⟩ := List.exists_cons_of_ne_nil
        (fun hnil => hrest.1 (hnil ▸ List.nil_prefix) : p ≠ [])
      obtain ⟨following, q, rfl⟩ := List.exists_cons_of_ne_nil
        (fun hnil => hrest.2 (hnil ▸ List.nil_prefix) : q ≠ [])
      have hsection : (Value.object (ofSection (get? part fields))).isProper :=
        Value.isFormed_ofSection fun u hu => Value.isFormed_get? hproper hu
      rw [if_pos rfl, if_pos rfl, insert_insert, insert_insert]
      exact arranged_insert_congr hnodup part (arranged_setPath_comm v w hsection hrest)
    · rw [if_neg hpart, if_neg (Ne.symm hpart)]
      exact arranged_insert_comm hnodup hpart _ _

theorem assign_eq_none_iff {fields : Fields} {key : Text} {v : Value} :
    assign fields key v = none ↔ key = [] := by
  simp [assign]

theorem assign_of_ne_nil {key : Text} (h : key ≠ []) (fields : Fields) (v : Value) :
    assign fields key v = some (setPath v (parts key) fields) := by
  simp [assign, h]

theorem lookup_of_ne_nil {key : Text} (h : key ≠ []) (fields : Fields) :
    lookup fields key = follow (parts key) (.object fields) := by
  simp [lookup, h]

end Fields

namespace Settings.Manager

/-- A key that cannot be written is empty, and settings are left as they were. -/
theorem set_of_write_error {m : Manager} {key : Text} {v : Value} {asked : Option Scope}
    {failure : Failure} (h : m.write key v asked = .error failure) :
    key = [] ∧ m.set key v asked = (.error .emptyKey, m) := by
  have hset : (m.store (targetScope key asked)).set key v = .error failure := by
    unfold write at h
    dsimp only at h
    split at h
    · rename_i heq
      rw [heq, Except.error.inj h]
    · cases h
    · cases h
  unfold Store.set at hset
  split_ifs at hset
  split at hset
  · rename_i hnone
    cases hset
    exact ⟨Fields.assign_eq_none_iff.1 hnone, by rw [set, h]⟩
  · cases hset

end Settings.Manager

/-- Dotted keys that are not empty read and write a document lawfully, whatever stands on the way.
Only the empty key cannot be written. -/
theorem Fields.keys_lawful {fields : Fields} (hproper : (Value.object fields).isProper)
    {key other : Text} (hkey : key ≠ []) (hother : other ≠ []) (v w : Value) :
    ∃ written, assign fields key v = some written
      ∧ (∀ d, (lookup written key).getD d = v)
      ∧ assign written key w = assign fields key w
      ∧ (Unrelated (parts key) (parts other) →
        (∀ d, (lookup written other).getD d = (lookup fields other).getD d)
        ∧ ∃ first both both', assign fields other w = some first
          ∧ assign written other w = some both ∧ assign first key v = some both'
          ∧ (Value.object both).arranged = (Value.object both').arranged)
      ∧ (∀ name u, assign fields name u = none ↔ name = [])
      ∧ ∀ (m : Settings.Manager) name u asked failure, m.write name u asked = .error failure →
        name = [] ∧ m.set name u asked = (.error .emptyKey, m) := by
  refine ⟨setPath v (parts key) fields, assign_of_ne_nil hkey fields v, fun d => ?_, ?_,
    fun hparts => ⟨fun d => ?_, ?_⟩, fun _ _ => assign_eq_none_iff,
    fun _ _ _ _ _ => Settings.Manager.set_of_write_error⟩
  · rw [lookup_of_ne_nil hkey, follow_setPath v (parts_ne_nil key), Option.getD_some]
  · rw [assign_of_ne_nil hkey, assign_of_ne_nil hkey, setPath_setPath]
  · rw [lookup_of_ne_nil hother, lookup_of_ne_nil hother, follow_setPath_of_unrelated v hparts]
  · exact ⟨_, _, _, assign_of_ne_nil hother fields w, assign_of_ne_nil hother _ w,
      assign_of_ne_nil hkey _ v, arranged_setPath_comm v w hproper hparts⟩

/-- A number stands where both keys need a section, and one key has an empty part. -/
theorem Fields.keys_lawful_number : ∃ written first both both',
    assign [("a", .int 1)] "a.x" (.bool true) = some written
    ∧ (∀ d, (lookup written "a.x").getD d = .bool true)
    ∧ assign written "a.x" .null = assign [("a", .int 1)] "a.x" .null
    ∧ (∀ d, (lookup written "a..y").getD d = (lookup [("a", .int 1)] "a..y").getD d)
    ∧ assign [("a", .int 1)] "a..y" .null = some first ∧ assign written "a..y" .null = some both
    ∧ assign first "a.x" (.bool true) = some both'
    ∧ (Value.object both).arranged = (Value.object both').arranged := by
  obtain ⟨written, hwritten, hread, hagain, hunrelated, -, -⟩ := @keys_lawful [("a", .int 1)]
    (by decide) "a.x" "a..y" (by decide) (by decide) (.bool true) .null
  obtain ⟨hframe, first, both, both', hrest⟩ := hunrelated ⟨by decide, by decide⟩
  exact ⟨written, first, both, both', hwritten, hread, hagain, hframe, hrest⟩

end DhrWorkbench
