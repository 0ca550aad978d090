/-!
# Truth values as text

* `Truth.ofText?_eq_some_iff`: a truth value is read from its own text and from no other.
-/

namespace Frontend.Truth

def text : Bool → String
  | true => "true"
  | false => "false"

def ofText? (s : String) : Option Bool :=
  if s = "true" then some true else if s = "false" then some false else none

theorem ofText?_eq_some_iff {s : String} {b : Bool} : ofText? s = some b ↔ s = text b := by
  unfold ofText?
  cases b <;> by_cases hTrue : s = "true" <;> by_cases hFalse : s = "false" <;>
    simp_all [text]

end Frontend.Truth
