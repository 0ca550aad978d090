/-!
# File names in paths

The components of a path stand between slashes. Empty components and single dots mean nothing.
-/

namespace Frontend.Path

/-- Cuts a text at every slash. -/
def split : List Char → List (List Char)
  | [] => [[]]
  | c :: rest =>
    if c = '/' then [] :: split rest
    else match split rest with
      | [] => [[c]]
      | part :: others => (c :: part) :: others

/-- The components of a path. -/
def components (path : String) : List String :=
  ((split path.toList).map String.ofList).filter fun part => part ≠ "" ∧ part ≠ "."

/-- The name of the file that a path leads to. There is none if the last component leads upwards, or
if there is no component. -/
def fileName? (path : String) : Option String :=
  (components path).getLast?.filter fun part => part ≠ ".."

end Frontend.Path
