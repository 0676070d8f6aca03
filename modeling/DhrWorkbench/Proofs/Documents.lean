import DhrWorkbench.Settings.Document
import DhrWorkbench.Proofs.Paths
import Mathlib.Data.List.Nodup

/-!
# Reading and writing documents

The fields of an object are known by what `Fields.get?` finds: setting one changes what is found
under its name alone, and completing a document finds, under each name, the value that was there,
completed, or else the default (`get?_complete`). A document that was completed once stays as it
is (`complete_complete`), and a value that is no object is still found where it was
(`follow_complete`).

A value is well formed when the names in each of its objects are distinct; further tests of its
atoms and names can be asked for beside that (`Value.isFormed`).
-/

namespace DhrWorkbench

namespace Value

/-- What holds of values holds of all when it passes from the items of a list to the list and from
the values in an object to the object. -/
@[elab_as_elim]
theorem induction {motive : Value → Prop} (null : motive .null) (bool : ∀ b, motive (.bool b))
    (int : ∀ n, motive (.int n)) (float : ∀ x, motive (.float x)) (str : ∀ t, motive (.str t))
    (list : ∀ items, (∀ v ∈ items, motive v) → motive (.list items))
    (object : ∀ fields, (∀ f ∈ fields, motive f.2) → motive (.object fields)) (v : Value) :
    motive v :=
  @Value.rec motive (fun items => ∀ v ∈ items, motive v) (fun fields => ∀ f ∈ fields, motive f.2)
    (fun f => motive f.2) null bool int float str list object (by simp)
    (fun _ _ hv hs => List.forall_mem_cons.2 ⟨hv, hs⟩) (by simp)
    (fun _ _ hf hs => List.forall_mem_cons.2 ⟨hf, hs⟩) (fun _ _ hv => hv) v

theorem textOr_str_nil (t : Text) : (Value.str t).textOr [] = t := by
  cases t <;> rfl

/-! ## Nesting -/

theorem heightOfItems_le_iff {n : ℕ} : ∀ {items : List Value},
    heightOfItems items ≤ n ↔ ∀ v ∈ items, v.height ≤ n
  | [] => by simp [heightOfItems]
  | v :: rest => by simp [heightOfItems, @heightOfItems_le_iff n rest]

theorem heightOfFields_le_iff {n : ℕ} : ∀ {fields : Fields},
    heightOfFields fields ≤ n ↔ ∀ f ∈ fields, f.2.height ≤ n
  | [] => by simp [heightOfFields]
  | (k, v) :: rest => by
    rw [heightOfFields, Nat.max_le, @heightOfFields_le_iff n rest, List.forall_mem_cons]

theorem height_list (items : List Value) :
    (Value.list items).height = heightOfItems items + 1 := rfl

theorem height_object (fields : Fields) :
    (Value.object fields).height = heightOfFields fields + 1 := rfl

theorem height_list_le_iff {n : ℕ} {items : List Value} :
    (Value.list items).height ≤ n + 1 ↔ ∀ v ∈ items, v.height ≤ n := by
  rw [height_list, Nat.add_le_add_iff_right, heightOfItems_le_iff]

theorem height_object_le_iff {n : ℕ} {fields : Fields} :
    (Value.object fields).height ≤ n + 1 ↔ ∀ f ∈ fields, f.2.height ≤ n := by
  rw [height_object, Nat.add_le_add_iff_right, heightOfFields_le_iff]

theorem height_pos (v : Value) : 0 < v.height := by
  cases v <;> exact Nat.succ_pos _

end Value

namespace Fields

/-! ## Single fields -/

@[simp] theorem get?_nil (k : Text) : get? k [] = none := rfl

theorem get?_cons (k j : Text) (v : Value) (fields : Fields) :
    get? j ((k, v) :: fields) = if k = j then some v else get? j fields := rfl

theorem insert_cons (k j : Text) (v w : Value) (fields : Fields) :
    insert k v ((j, w) :: fields)
      = if j = k then (k, v) :: fields else (j, w) :: insert k v fields := rfl

@[simp] theorem get?_insert (k j : Text) (v : Value) :
    ∀ fields : Fields, get? j (insert k v fields) = if k = j then some v else get? j fields
  | [] => rfl
  | (i, w) :: fields => by
    rw [insert_cons]
    split
    · rename_i hik
      subst hik
      simp only [get?_cons]
      split <;> rfl
    · rename_i hik
      rw [get?_cons, get?_cons, get?_insert k j v fields]
      split
      · rename_i hij
        rw [if_neg (fun hkj => hik (hij.trans hkj.symm))]
      · rfl

theorem get?_eq_none_iff {k : Text} : ∀ {fields : Fields}, get? k fields = none ↔ k ∉ keys fields
  | [] => by simp [keys]
  | (j, v) :: fields => by
    rw [get?_cons]
    split
    · rename_i hjk
      simp [keys, hjk]
    · rename_i hjk
      rw [@get?_eq_none_iff k fields]
      simp [keys, Ne.symm hjk]

theorem mem_of_get? {k : Text} {v : Value} : ∀ {fields : Fields}, get? k fields = some v →
    (k, v) ∈ fields
  | [], h => by simp at h
  | (j, w) :: fields, h => by
    rw [get?_cons] at h
    split at h
    · rename_i hjk
      obtain rfl := Option.some.inj h
      simp [hjk]
    · exact List.mem_cons_of_mem _ (mem_of_get? h)

theorem get?_of_mem {k : Text} {v : Value} : ∀ {fields : Fields}, (keys fields).Nodup →
    (k, v) ∈ fields → get? k fields = some v
  | [], _, h => by simp at h
  | (j, w) :: fields, hn, h => by
    have hj : j ∉ keys fields ∧ (keys fields).Nodup := List.nodup_cons.1 hn
    rw [get?_cons]
    rcases List.mem_cons.1 h with heq | h
    · obtain ⟨rfl, rfl⟩ := Prod.mk.inj heq
      rw [if_pos rfl]
    · have hk : k ∈ keys fields := List.mem_map.2 ⟨_, h, rfl⟩
      have hjk : j ≠ k := by
        rintro rfl
        exact hj.1 hk
      rw [if_neg hjk, get?_of_mem hj.2 h]

theorem insert_eq_self {k : Text} {v : Value} : ∀ {fields : Fields}, get? k fields = some v →
    insert k v fields = fields
  | [], h => by simp at h
  | (j, w) :: fields, h => by
    rw [get?_cons] at h
    rw [insert_cons]
    split at h
    · rename_i hjk
      rw [if_pos hjk, Option.some.inj h, hjk]
    · rename_i hjk
      rw [if_neg hjk, insert_eq_self h]

theorem insert_of_notMem {k : Text} (v : Value) : ∀ {fields : Fields}, k ∉ keys fields →
    insert k v fields = fields ++ [(k, v)]
  | [], _ => rfl
  | (j, w) :: fields, h => by
    have hk : k ≠ j ∧ k ∉ keys fields := by simpa [keys] using h
    rw [insert_cons, if_neg (Ne.symm hk.1), insert_of_notMem v hk.2, List.cons_append]

theorem keys_insert (k : Text) (v : Value) : ∀ fields : Fields,
    keys (insert k v fields) = if k ∈ keys fields then keys fields else keys fields ++ [k]
  | [] => rfl
  | (j, w) :: fields => by
    rw [insert_cons]
    by_cases hjk : j = k
    · simp [keys, hjk]
    · have ih := keys_insert k v fields
      have hcons : ∀ w fields, keys ((j, w) :: fields) = j :: keys fields := fun _ _ => rfl
      rw [if_neg hjk, hcons, hcons, ih]
      simp only [List.mem_cons, Ne.symm hjk, false_or]
      split <;> rfl

theorem nodup_insert {k : Text} {v : Value} {fields : Fields} (h : (keys fields).Nodup) :
    (keys (insert k v fields)).Nodup := by
  rw [keys_insert]
  split
  · exact h
  · rename_i hk
    refine List.nodup_append.2 ⟨h, by simp, fun a ha b hb hab => ?_⟩
    rw [hab, List.mem_singleton.1 hb] at ha
    exact hk ha

theorem mem_insert {k : Text} {v : Value} {f : Text × Value} : ∀ {fields : Fields},
    f ∈ insert k v fields → f = (k, v) ∨ f ∈ fields
  | [], h => .inl (List.mem_singleton.1 h)
  | (j, w) :: fields, h => by
    rw [insert_cons] at h
    split at h
    · rcases List.mem_cons.1 h with h | h
      · exact .inl h
      · exact .inr (List.mem_cons_of_mem _ h)
    · rcases List.mem_cons.1 h with h | h
      · exact .inr (by simp [h])
      · exact (mem_insert h).imp_right (List.mem_cons_of_mem _)

/-- What setting the value of a key comes to when the key can be set. -/
theorem eq_of_assign {fields fields' : Fields} {key : Text} {v : Value}
    (h : assign fields key v = some fields') :
    key ≠ [] ∧ fields' = setPath v (parts key) fields := by
  unfold assign at h
  split_ifs at h with hkey
  exact ⟨by simpa using hkey, (Option.some.inj h).symm⟩

/-! ## Completing a document -/

/-- What completing finds under a name: the value, completed, or the default. -/
def filled : Option Value → Value → Value
  | none, default => default
  | some value, default => completeValue value default

theorem complete_nil (fields : Fields) : complete fields [] = fields := rfl

theorem complete_cons (fields rest : Fields) (k : Text) (default : Value) :
    complete fields ((k, default) :: rest)
      = complete (insert k (filled (get? k fields) default) fields) rest := by
  rw [complete]
  cases h : get? k fields with
  | none => rw [filled, insert_of_notMem _ (get?_eq_none_iff.1 h)]
  | some v => rfl

/-- What setting each default, completed, keeps is kept by completing. -/
theorem complete_keeps {P : Fields → Prop} : ∀ {defaults fields : Fields},
    (∀ f ∈ defaults, ∀ fields, P fields → P (insert f.1 (filled (get? f.1 fields) f.2) fields)) →
    P fields → P (complete fields defaults)
  | [], fields, _, h => h
  | (k, d) :: rest, fields, hstep, h => by
    rw [complete_cons]
    exact complete_keeps (fun f hf => hstep f (List.mem_cons_of_mem _ hf))
      (hstep (k, d) List.mem_cons_self fields h)

theorem completeValue_of_not_object {v : Value} (default : Value) (h : ∀ fs, v ≠ .object fs) :
    completeValue v default = v := by
  cases default with
  | object ds =>
    cases v with
    | object fs => exact absurd rfl (h fs)
    | _ => rfl
  | _ => rfl

theorem completeValue_object (fs ds : Fields) :
    completeValue (.object fs) (.object ds) = .object (complete fs ds) := rfl

theorem completeValue_default {d : Value} (v : Value) (h : ∀ ds, d ≠ .object ds) :
    completeValue v d = v := by
  cases d with
  | object ds => exact absurd rfl (h ds)
  | _ => rfl

theorem get?_complete (j : Text) : ∀ {defaults : Fields} (fields : Fields),
    (keys defaults).Nodup → get? j (complete fields defaults)
      = match get? j defaults with
        | none => get? j fields
        | some d => some (filled (get? j fields) d)
  | [], fields, _ => by rw [complete_nil, get?_nil]
  | (k, d) :: rest, fields, hn => by
    have hk : k ∉ keys rest ∧ (keys rest).Nodup := List.nodup_cons.1 hn
    rw [complete_cons, get?_complete j _ hk.2, get?_cons, get?_insert]
    by_cases hkj : k = j
    · subst hkj
      simp [get?_eq_none_iff.2 hk.1]
    · simp [hkj]

/-- A document that has every default completed stays as it is. -/
theorem complete_eq_self : ∀ {defaults fields : Fields},
    (∀ f ∈ defaults, ∃ v, get? f.1 fields = some v ∧ completeValue v f.2 = v) →
    complete fields defaults = fields
  | [], fields, _ => complete_nil fields
  | (k, d) :: rest, fields, h => by
    obtain ⟨v, hv, hd⟩ := h (k, d) List.mem_cons_self
    have hfilled : filled (get? k fields) d = v := by
      rw [hv]
      exact hd
    rw [complete_cons, hfilled, insert_eq_self hv]
    exact complete_eq_self fun f hf => h f (List.mem_cons_of_mem _ hf)

end Fields

namespace Value

theorem height_insert_le {n : ℕ} {k : Text} {v : Value} {fields : Fields}
    (h : (Value.object fields).height ≤ n + 1) (hv : v.height ≤ n) :
    (Value.object (Fields.insert k v fields)).height ≤ n + 1 := by
  rw [height_object_le_iff] at h ⊢
  intro f hf
  obtain rfl | hf := Fields.mem_insert hf
  · exact hv
  · exact h f hf

/-- Completing a value makes it nest no deeper than the deeper of the two. -/
theorem height_completeValue_le (d : Value) : ∀ {n : ℕ} {v : Value}, v.height ≤ n → d.height ≤ n →
    (Fields.completeValue v d).height ≤ n := by
  induction d using Value.induction with
  | object ds ih =>
    intro n v hv hd
    cases v with
    | object fs =>
      rw [Fields.completeValue_object]
      obtain ⟨n, rfl⟩ : ∃ k, n = k + 1 := Nat.exists_eq_succ_of_ne_zero fun hn => by
        exact absurd (hn ▸ hv) (Nat.not_le.2 (height_pos _))
      have hds := height_object_le_iff.1 hd
      refine Fields.complete_keeps (P := fun fields => (Value.object fields).height ≤ n + 1)
        (fun f hf fields h => height_insert_le h ?_) hv
      cases hget : Fields.get? f.1 fields with
      | none => exact hds f hf
      | some w => exact ih f hf (height_object_le_iff.1 h _ (Fields.mem_of_get? hget)) (hds f hf)
    | _ => rwa [Fields.completeValue_of_not_object _ (by simp)]
  | _ =>
    intro n v hv _
    rwa [Fields.completeValue_default v (by simp)]

theorem height_complete_le {n : ℕ} {fields defaults : Fields}
    (hf : (Value.object fields).height ≤ n) (hd : (Value.object defaults).height ≤ n) :
    (Value.object (Fields.complete fields defaults)).height ≤ n := by
  rw [← Fields.completeValue_object]
  exact height_completeValue_le _ hf hd

mutual

/-- Whether all names in each object of a value are distinct and pass a test, and all values that
hold no others pass another. -/
def isFormed (atom : Value → Bool) (name : Text → Bool) : Value → Bool
  | .list items => areFormed atom name items
  | .object fields =>
    decide (Fields.keys fields).Nodup && (Fields.keys fields).all name
      && fieldsFormed atom name fields
  | v => atom v

def areFormed (atom : Value → Bool) (name : Text → Bool) : List Value → Bool
  | [] => true
  | v :: rest => isFormed atom name v && areFormed atom name rest

def fieldsFormed (atom : Value → Bool) (name : Text → Bool) : List (Text × Value) → Bool
  | [] => true
  | (_, v) :: rest => isFormed atom name v && fieldsFormed atom name rest

end

/-- A value whose objects have distinct names. -/
def isProper : Value → Bool := isFormed (fun _ => true) (fun _ => true)

section Formed

variable {atom : Value → Bool} {name : Text → Bool}

theorem areFormed_iff : ∀ {items : List Value},
    areFormed atom name items ↔ ∀ v ∈ items, isFormed atom name v
  | [] => by simp [areFormed]
  | v :: rest => by simp [areFormed, @areFormed_iff rest]

theorem fieldsFormed_iff : ∀ {fields : Fields},
    fieldsFormed atom name fields ↔ ∀ f ∈ fields, isFormed atom name f.2
  | [] => by simp [fieldsFormed]
  | (k, v) :: rest => by
    simp only [fieldsFormed, Bool.and_eq_true, @fieldsFormed_iff rest, List.forall_mem_cons]

theorem isFormed_list {items : List Value} :
    isFormed atom name (.list items) ↔ ∀ v ∈ items, isFormed atom name v :=
  areFormed_iff

theorem isFormed_object {fields : Fields} : isFormed atom name (.object fields)
    ↔ (Fields.keys fields).Nodup ∧ (∀ k ∈ Fields.keys fields, name k)
      ∧ ∀ f ∈ fields, isFormed atom name f.2 := by
  rw [isFormed, Bool.and_eq_true, Bool.and_eq_true, fieldsFormed_iff, decide_eq_true_eq,
    List.all_eq_true, and_assoc]

theorem isFormed_get? {fields : Fields} {k : Text} {v : Value}
    (h : isFormed atom name (.object fields)) (hv : Fields.get? k fields = some v) :
    isFormed atom name v :=
  (isFormed_object.1 h).2.2 _ (Fields.mem_of_get? hv)

theorem isFormed_insert {fields : Fields} {k : Text} {v : Value}
    (h : isFormed atom name (.object fields)) (hk : name k) (hv : isFormed atom name v) :
    isFormed atom name (.object (Fields.insert k v fields)) := by
  obtain ⟨hnodup, hnames, hvalues⟩ := isFormed_object.1 h
  refine isFormed_object.2 ⟨Fields.nodup_insert hnodup, fun j hj => ?_, fun f hf => ?_⟩
  · rw [Fields.keys_insert] at hj
    split at hj
    · exact hnames j hj
    · rcases List.mem_append.1 hj with hj | hj
      · exact hnames j hj
      · rw [List.mem_singleton.1 hj]
        exact hk
  · rcases Fields.mem_insert hf with rfl | hf
    · exact hv
    · exact hvalues f hf

theorem isFormed_nil : isFormed atom name (.object []) :=
  isFormed_object.2 ⟨List.nodup_nil, by simp [Fields.keys], by simp⟩

theorem isFormed_ofSection {current : Option Value}
    (h : ∀ v ∈ current, isFormed atom name v) :
    isFormed atom name (.object (Fields.ofSection current)) := by
  unfold Fields.ofSection
  split
  · exact h _ rfl
  · exact isFormed_nil

theorem isFormed_setPath {value : Value} (hv : isFormed atom name value) :
    ∀ {parts : List Text} {fields : Fields}, (∀ k ∈ parts, name k) →
      isFormed atom name (.object fields) →
      isFormed atom name (.object (Fields.setPath value parts fields))
  | [], fields, _, h => by
    rw [Fields.setPath]
    exact h
  | [last], fields, hp, h => by
    rw [Fields.setPath]
    exact isFormed_insert h (hp last (by simp)) hv
  | part :: next :: rest, fields, hp, h => by
    rw [Fields.setPath]
    refine isFormed_insert h (hp part (by simp)) ?_
    refine isFormed_setPath hv (fun k hk => hp k (List.mem_cons_of_mem _ hk)) ?_
    exact isFormed_ofSection fun v hget => isFormed_get? h hget

/-- Completing keeps a document well formed. -/
theorem isFormed_completeValue (d : Value) : isFormed atom name d → ∀ {v : Value},
    isFormed atom name v → isFormed atom name (Fields.completeValue v d) := by
  induction d using Value.induction with
  | object ds ih =>
    intro hd v hv
    have hds := isFormed_object.1 hd
    cases v with
    | object fs =>
      rw [Fields.completeValue_object]
      refine Fields.complete_keeps (P := fun fields => isFormed atom name (.object fields))
        (fun f hf fields h => isFormed_insert h (hds.2.1 f.1 (List.mem_map.2 ⟨f, hf, rfl⟩)) ?_) hv
      cases hget : Fields.get? f.1 fields with
      | none => exact hds.2.2 f hf
      | some w => exact ih f hf (hds.2.2 f hf) (isFormed_get? h hget)
    | _ => rwa [Fields.completeValue_of_not_object _ (by simp)]
  | _ =>
    intro _ v hv
    rwa [Fields.completeValue_default v (by simp)]

theorem isFormed_complete {fields defaults : Fields} (hd : isFormed atom name (.object defaults))
    (hf : isFormed atom name (.object fields)) :
    isFormed atom name (.object (Fields.complete fields defaults)) := by
  rw [← Fields.completeValue_object]
  exact isFormed_completeValue _ hd hf

/-- What is well formed is so by weaker tests too. -/
theorem isFormed_mono {atom' : Value → Bool} {name' : Text → Bool} (hatom : ∀ v, atom v → atom' v)
    (hname : ∀ k, name k → name' k) (v : Value) :
    isFormed atom name v → isFormed atom' name' v := by
  induction v using Value.induction with
  | list items ih => exact fun h => isFormed_list.2 fun w hw => ih w hw (isFormed_list.1 h w hw)
  | object fields ih =>
    intro h
    obtain ⟨hnodup, hnames, hvalues⟩ := isFormed_object.1 h
    exact isFormed_object.2
      ⟨hnodup, fun k hk => hname k (hnames k hk), fun f hf => ih f hf (hvalues f hf)⟩
  | _ => exact hatom _

theorem isProper_of_isFormed (v : Value) : isFormed atom name v → v.isProper :=
  isFormed_mono (fun _ _ => rfl) (fun _ _ => rfl) v

end Formed

end Value

namespace Fields

theorem nodup_of_isProper {fields : Fields} (h : (Value.object fields).isProper) :
    (keys fields).Nodup :=
  (Value.isFormed_object.1 h).1

theorem isProper_of_mem {fields : Fields} (h : (Value.object fields).isProper)
    {f : Text × Value} (hf : f ∈ fields) : f.2.isProper :=
  (Value.isFormed_object.1 h).2.2 f hf

theorem completeValue_self (d : Value) : d.isProper → completeValue d d = d := by
  induction d using Value.induction with
  | object ds ih =>
    intro hd
    rw [completeValue_object, complete_eq_self]
    intro f hf
    exact ⟨f.2, get?_of_mem (nodup_of_isProper hd) hf, ih f hf (isProper_of_mem hd hf)⟩
  | _ => exact fun _ => completeValue_default _ (by simp)

theorem completeValue_completeValue (d : Value) : d.isProper → ∀ v : Value,
    completeValue (completeValue v d) d = completeValue v d := by
  induction d using Value.induction with
  | object ds ih =>
    intro hd v
    have hnodup := nodup_of_isProper hd
    cases v with
    | object fs =>
      rw [completeValue_object, completeValue_object, complete_eq_self]
      intro f hf
      refine ⟨filled (get? f.1 fs) f.2, by rw [get?_complete _ _ hnodup, get?_of_mem hnodup hf], ?_⟩
      cases hget : get? f.1 fs with
      | none => exact completeValue_self f.2 (isProper_of_mem hd hf)
      | some w => exact ih f hf (isProper_of_mem hd hf) w
    | _ => rw [completeValue_of_not_object (v := completeValue _ _)]; simp [completeValue]
  | _ =>
    intro _ v
    rw [completeValue_default (completeValue v _) (by simp)]

/-- Completing a second time changes nothing. -/
theorem complete_complete {fields defaults : Fields} (hd : (Value.object defaults).isProper) :
    complete (complete fields defaults) defaults = complete fields defaults := by
  have h := completeValue_completeValue _ hd (.object fields)
  rw [completeValue_object, completeValue_object] at h
  exact Value.object.inj h

theorem completeValue_eq_self {v d : Value} (h : ∀ fs ds, v = .object fs → d ≠ .object ds) :
    completeValue v d = v := by
  by_cases hv : ∃ fs, v = .object fs
  · obtain ⟨fs, rfl⟩ := hv
    exact completeValue_default _ fun ds => h fs ds rfl
  · exact completeValue_of_not_object _ fun fs hfs => hv ⟨fs, hfs⟩

/-! ## Following names into a completed document -/

theorem follow_cons (part : Text) (rest : List Text) (fields : Fields) :
    follow (part :: rest) (.object fields) = (get? part fields).bind (follow rest) := by
  rw [follow]
  rcases get? part fields with _ | v <;> rfl

theorem follow_cons_complete (part : Text) (rest : List Text) (fs : Fields) {ds : Fields}
    (hd : (Value.object ds).isProper) : follow (part :: rest) (.object (complete fs ds))
      = match get? part ds with
        | none => follow (part :: rest) (.object fs)
        | some d => follow rest (filled (get? part fs) d) := by
  rw [follow_cons, follow_cons, get?_complete _ _ (nodup_of_isProper hd)]
  cases get? part ds <;> rfl

/-- A value stays where it was, unless it is an object and the defaults have one in its place. -/
theorem follow_completeValue {u : Value} : ∀ {path : List Text} {v d : Value}, d.isProper →
    follow path v = some u → (∀ fs ds, u = .object fs → follow path d ≠ some (.object ds)) →
    follow path (completeValue v d) = some u
  | [], v, d, _, hv, hu => by
    cases hv
    rw [completeValue_eq_self fun fs ds hfs hds => hu fs ds hfs (congrArg some hds)]
    rfl
  | part :: rest, v, d, hd, hv, hu => by
    by_cases hobjects : ∃ fs ds, v = .object fs ∧ d = .object ds
    · obtain ⟨fs, ds, rfl, rfl⟩ := hobjects
      rw [completeValue_object, follow_cons_complete part rest fs hd]
      rw [follow_cons] at hu
      cases hdefault : get? part ds with
      | none => exact hv
      | some d =>
        rw [follow_cons] at hv
        obtain ⟨w, hw, hfollow⟩ := Option.bind_eq_some_iff.1 hv
        rw [hw]
        rw [hdefault] at hu
        exact follow_completeValue (isProper_of_mem hd (mem_of_get? hdefault)) hfollow hu
    · rw [completeValue_eq_self fun fs ds hfs hds => hobjects ⟨fs, ds, hfs, hds⟩]
      exact hv

/-- A value that is no object is still found where it was. -/
theorem follow_complete {v : Value} (hv : ∀ fs, v ≠ .object fs) {path : List Text}
    {fields defaults : Fields} (hd : (Value.object defaults).isProper)
    (h : follow path (.object fields) = some v) :
    follow path (.object (complete fields defaults)) = some v := by
  rw [← completeValue_object]
  exact follow_completeValue hd h fun fs _ hfs => absurd hfs (hv fs)

end Fields

end DhrWorkbench
