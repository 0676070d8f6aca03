import DhrWorkbench.Proofs.SavedSettings

/-!
# Defaults fill in what is missing

A document that is completed from defaults keeps all that it had. Followed along any names, it holds
what the document held, except that two objects are joined, the fields of the document first
(`follow_joined`); where the document has nothing and is no obstacle, it holds the default
(`follow_filled`); and it holds nothing else (`follow_of_completeValue`). A document is completed in
this way as long as neither it nor the defaults nest too deep (`completedFrom_object`).
-/

namespace DhrWorkbench

namespace Fields

/-- The names of the document come first, then those of the defaults that it lacks. -/
theorem keys_complete : ∀ {defaults : Fields} (fields : Fields), (keys defaults).Nodup →
    keys (complete fields defaults) = keys fields ++ (keys defaults).filter (· ∉ keys fields)
  | [], fields, _ => by simp [complete_nil, keys]
  | (k, d) :: rest, fields, h => by
    have hk : k ∉ keys rest ∧ (keys rest).Nodup := List.nodup_cons.1 h
    rw [complete_cons, keys_complete _ hk.2, keys_insert]
    have hcons : keys ((k, d) :: rest) = k :: keys rest := rfl
    rw [hcons, List.filter_cons]
    by_cases hmem : k ∈ keys fields
    · simp [hmem]
    · have hrest : (keys rest).filter (· ∉ keys fields ++ [k])
          = (keys rest).filter (· ∉ keys fields) := by
        refine List.filter_congr fun j hj => ?_
        have hjk : j ≠ k := fun heq => hk.1 (heq ▸ hj)
        simp [hjk]
      rw [if_neg hmem, hrest, List.append_assoc]
      simp [hmem]

theorem exists_of_follow_cons {part : Text} {rest : List Text} {v u : Value}
    (h : follow (part :: rest) v = some u) :
    ∃ fs w, v = .object fs ∧ get? part fs = some w ∧ follow rest w = some u := by
  cases v with
  | object fs =>
    rw [follow_cons] at h
    obtain ⟨w, hw, hfollow⟩ := Option.bind_eq_some_iff.1 h
    exact ⟨fs, w, rfl, hw, hfollow⟩
  | _ => simp [follow] at h

theorem isProper_of_follow : ∀ {path : List Text} {v u : Value}, v.isProper →
    follow path v = some u → u.isProper
  | [], v, u, hv, h => by
    cases h
    exact hv
  | part :: rest, v, u, hv, h => by
    obtain ⟨fs, w, rfl, hw, h⟩ := exists_of_follow_cons h
    exact isProper_of_follow (isProper_of_mem hv (mem_of_get? hw)) h

/-- Two objects in one place are joined. -/
theorem follow_joined {fs ds : Fields} : ∀ {path : List Text} {v d : Value}, d.isProper →
    follow path v = some (.object fs) → follow path d = some (.object ds) →
    follow path (completeValue v d) = some (.object (complete fs ds))
  | [], v, d, _, hv, hd => by
    cases hv
    cases hd
    rw [completeValue_object]
    rfl
  | part :: rest, v, d, hproper, hv, hd => by
    obtain ⟨fields, w, rfl, hw, hv⟩ := exists_of_follow_cons hv
    obtain ⟨defaults, e, rfl, he, hd⟩ := exists_of_follow_cons hd
    rw [completeValue_object, follow_cons_complete part rest fields hproper, he, hw]
    exact follow_joined (isProper_of_mem hproper (mem_of_get? he)) hv hd

/-- A default is taken over unless something that is no object stands on the way to it. -/
theorem follow_filled {u : Value} : ∀ {path : List Text} {v d : Value}, d.isProper →
    follow path v = none → follow path d = some u →
    (∀ start w, start <+: path → start ≠ path → follow start v = some w → ∃ fs, w = .object fs) →
    follow path (completeValue v d) = some u
  | [], v, d, _, hv, _, _ => by simp [follow] at hv
  | part :: rest, v, d, hproper, hv, hd, hway => by
    obtain ⟨fields, rfl⟩ := hway [] v List.nil_prefix (by simp) rfl
    obtain ⟨defaults, e, rfl, he, hd⟩ := exists_of_follow_cons hd
    rw [follow_cons] at hv
    rw [completeValue_object, follow_cons_complete part rest fields hproper, he]
    cases hfield : get? part fields with
    | none => exact hd
    | some w =>
      rw [hfield] at hv
      refine follow_filled (isProper_of_mem hproper (mem_of_get? he)) hv hd
        fun start x hstart hne hx => hway (part :: start) x ?_ (by simpa using hne) ?_
      · exact List.cons_prefix_cons.2 ⟨rfl, hstart⟩
      · rw [follow_cons, hfield]
        exact hx

theorem follow_of_completeValue {u : Value} : ∀ {path : List Text} {v d : Value}, d.isProper →
    follow path (completeValue v d) = some u → (follow path v).isSome ∨ (follow path d).isSome
  | [], v, d, _, _ => .inl rfl
  | part :: rest, v, d, hproper, h => by
    by_cases hobjects : ∃ fs ds, v = .object fs ∧ d = .object ds
    · obtain ⟨fs, ds, rfl, rfl⟩ := hobjects
      rw [completeValue_object, follow_cons_complete part rest fs hproper] at h
      simp only [follow_cons]
      cases hdefault : get? part ds with
      | none =>
        rw [hdefault, follow_cons] at h
        exact .inl (Option.isSome_of_eq_some h)
      | some e =>
        rw [hdefault] at h
        cases hfield : get? part fs with
        | none =>
          rw [hfield] at h
          exact .inr (Option.isSome_of_eq_some h)
        | some w =>
          rw [hfield] at h
          exact follow_of_completeValue (isProper_of_mem hproper (mem_of_get? hdefault)) h
    · rw [completeValue_eq_self fun fs ds hfs hds => hobjects ⟨fs, ds, hfs, hds⟩] at h
      exact .inl (Option.isSome_of_eq_some h)

/-- What a document has been filled in with, place by place. -/
structure IsFilledIn (data defaults merged : Fields) : Prop where
  /-- What the document holds stays, unless both hold objects. -/
  kept : ∀ {path v}, follow path (.object data) = some v →
    (∀ fs ds, v = .object fs → follow path (.object defaults) ≠ some (.object ds)) →
    follow path (.object merged) = some v
  /-- Two objects become one with the fields of the first, then those that only the second has. -/
  joined : ∀ {path fs ds}, follow path (.object data) = some (.object fs) →
    follow path (.object defaults) = some (.object ds) →
    ∃ ms, follow path (.object merged) = some (.object ms)
      ∧ keys ms = keys fs ++ (keys ds).filter (· ∉ keys fs)
  /-- What only the defaults hold is there unless something that is no object stands in its way. -/
  filled : ∀ {path d}, follow path (.object data) = none → follow path (.object defaults) = some d →
    (∀ start v, start <+: path → start ≠ path → follow start (.object data) = some v →
      ∃ fs, v = .object fs) →
    follow path (.object merged) = some d
  nothing_else : ∀ {path v}, follow path (.object merged) = some v →
    (follow path (.object data)).isSome ∨ (follow path (.object defaults)).isSome

theorem isFilledIn_complete (data : Fields) {defaults : Fields}
    (h : (Value.object defaults).isProper) : IsFilledIn data defaults (complete data defaults) := by
  constructor
  all_goals rw [← completeValue_object]
  case kept => exact follow_completeValue h
  case joined =>
    intro path fs ds hfs hds
    exact ⟨complete fs ds, follow_joined h hfs hds,
      keys_complete fs (nodup_of_isProper (isProper_of_follow h hds))⟩
  case filled => exact follow_filled h
  case nothing_else => exact follow_of_completeValue h

end Fields

namespace Table

theorem get?_ofFields (name : Text) : ∀ fields : Fields,
    get? (.str name) (ofFields fields) = Fields.get? name fields
  | [] => rfl
  | (k, v) :: rest => by
    have ih := get?_ofFields name rest
    simp only [ofFields, List.map_cons, get?, Fields.get?_cons] at ih ⊢
    simp [Value.sameAtom, ih]

theorem insert_ofFields (name : Text) (v : Value) : ∀ fields : Fields,
    insert (.str name) v (ofFields fields) = ofFields (Fields.insert name v fields)
  | [] => rfl
  | (k, w) :: rest => by
    have ih := insert_ofFields name v rest
    simp only [ofFields, List.map_cons, insert, Fields.insert] at ih ⊢
    by_cases hk : k = name
    · simp [Value.sameAtom, hk]
    · simp [Value.sameAtom, hk, ih]

theorem complete_ofFields : ∀ (defaults fields : Fields),
    complete (ofFields fields) defaults = ofFields (Fields.complete fields defaults)
  | [], fields => by rw [complete, Fields.complete]
  | (name, d) :: rest, fields => by
    rw [complete, Fields.complete, get?_ofFields, ← complete_ofFields]
    cases Fields.get? name fields with
    | none => simp [ofFields]
    | some v => simp only [insert_ofFields]

theorem foldl_insert_ofFields : ∀ {fields before : Fields}, (Fields.keys (before ++ fields)).Nodup →
    (ofFields fields).foldl (fun fs (name, v) => Fields.insert name.text v fs) before
      = before ++ fields
  | [], before, _ => (List.append_nil before).symm
  | (k, v) :: rest, before, h => by
    have hk : k ∉ Fields.keys before := fun hk => by
      simp only [Fields.keys, List.map_append, List.map_cons] at h hk
      exact (List.disjoint_of_nodup_append h) hk List.mem_cons_self
    have hstep : Fields.insert (Value.str k).text v before = before ++ [(k, v)] :=
      Fields.insert_of_notMem v hk
    have hsplit : before ++ (k, v) :: rest = (before ++ [(k, v)]) ++ rest := by simp
    rw [hsplit] at h ⊢
    rw [← foldl_insert_ofFields h, ← hstep]
    rfl

theorem toFields_ofFields {fields : Fields} (h : (Fields.keys fields).Nodup) :
    toFields (ofFields fields) = fields :=
  foldl_insert_ofFields h

end Table

namespace Value

theorem completedFrom_object {data defaults : Fields} (hdata : (Value.object data).isProper)
    (hdefaults : (Value.object defaults).isProper)
    (hdepth : (Value.object data).height ≤ heightLimit)
    (hdefaultsDepth : (Value.object defaults).height ≤ heightLimit) :
    (Value.object data).completedFrom defaults = .ok (Fields.complete data defaults) := by
  have hshallow : (Value.object data).isTooDeep = false := by simpa [isTooDeep] using hdepth
  have hdefaultsShallow : (Value.object defaults).isTooDeep = false := by
    simpa [isTooDeep] using hdefaultsDepth
  have htable : (Value.object data).toTable = .ok (Table.ofFields data) := by
    simp [toTable, pairs, hshallow]
  have hproper := isFormed_complete hdefaults hdata
  simp only [completedFrom, htable, hdefaultsShallow, Bool.false_eq_true, if_false]
  rw [Table.complete_ofFields, Table.toFields_ofFields (Fields.nodup_of_isProper hproper)]

/-- A document that does not nest too deep is filled in from such defaults, and to fill it in again
changes nothing. -/
theorem completedFrom_filledIn {data defaults : Fields} (hdata : (Value.object data).isProper)
    (hdefaults : (Value.object defaults).isProper)
    (hdepth : (Value.object data).height ≤ heightLimit)
    (hdefaultsDepth : (Value.object defaults).height ≤ heightLimit) :
    ∃ merged, (Value.object data).completedFrom defaults = .ok merged
      ∧ Fields.IsFilledIn data defaults merged
      ∧ (Value.object merged).completedFrom defaults = .ok merged := by
  refine ⟨Fields.complete data defaults,
    completedFrom_object hdata hdefaults hdepth hdefaultsDepth,
    Fields.isFilledIn_complete data hdefaults, ?_⟩
  rw [completedFrom_object (isFormed_complete hdefaults hdata) hdefaults
    (height_complete_le hdepth hdefaultsDepth) hdefaultsDepth, Fields.complete_complete hdefaults]

/-- Settings in which a switch stands where the defaults have a section. -/
def sparse : Fields :=
  [("theme", .str "dark"), ("editor", .object [("tab", .int 2)]), ("run", .bool false)]

def sparseDefaults : Fields :=
  [("run", .object [("args", .list [])]), ("build", .object [("jar", .null)]),
    ("editor", .object [("wrap", .bool true), ("tab", .int 4)])]

theorem sparse_filledIn : (Value.object sparse).isProper ∧ (Value.object sparseDefaults).isProper
    ∧ ∃ merged, (Value.object sparse).completedFrom sparseDefaults = .ok merged
      ∧ Fields.IsFilledIn sparse sparseDefaults merged
      ∧ (Value.object merged).completedFrom sparseDefaults = .ok merged :=
  ⟨by decide, by decide,
    completedFrom_filledIn (by decide) (by decide) (by decide) (by decide)⟩

example : (Value.object sparse).completedFrom sparseDefaults = .ok
    [("theme", .str "dark"), ("editor", .object [("tab", .int 2), ("wrap", .bool true)]),
      ("run", .bool false), ("build", .object [("jar", .null)])] := rfl

/-- A document of 600 objects within one another is not filled in. -/
theorem deep_document_not_filledIn : (Settings.Store.nested 600).isProper
    ∧ (Value.object [("b", .null)]).isProper
    ∧ (Settings.Store.nested 600).completedFrom [("b", .null)] = .error .tooDeep := by
  have hdeep : (Settings.Store.nested 600).isTooDeep := by
    rw [isTooDeep, Settings.Store.height_nested]
    decide
  refine ⟨Json.isProper_of_isClear (Settings.Store.isClear_nested 600), by decide, ?_⟩
  rw [completedFrom, toTable, hdeep]
  rfl

end Value

end DhrWorkbench
