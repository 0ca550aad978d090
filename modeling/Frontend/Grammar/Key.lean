import Frontend.Token.Basic

/-!
# What a grammar tells apart

A grammar looks at a token only through its key: the symbol that the token stands for, or its class
if it stands for none.

* `Key.mem_all`: the list of all keys is complete.
* `Token.key_eq_symbol_iff`: a token has the key of a symbol exactly if it stands for that symbol.
-/

namespace Frontend

/-- A symbol or a class of tokens. -/
inductive Key where
  | tokenClass (k : TokenClass)
  | symbol (s : Symbol)
  deriving DecidableEq

namespace Key

/-- All keys. -/
def all : List Key :=
  TokenClass.all.map tokenClass ++ Symbol.all.map symbol

theorem mem_all (key : Key) : key ∈ all := by
  cases key with
  | tokenClass k => exact List.mem_append_left _ (List.mem_map_of_mem k.mem_all)
  | symbol s => exact List.mem_append_right _ (List.mem_map_of_mem s.mem_all)

/-- The name of a key in the output. -/
def name : Key → String
  | tokenClass k => "Class:" ++ k.name
  | symbol s => "Symbol:" ++ s.name

end Key

/-- The key of a token. -/
def Token.key (t : Token) : Key :=
  match t.symbol? with
  | some s => .symbol s
  | none => .tokenClass t.tokenClass

theorem Token.key_eq_symbol_iff {t : Token} {s : Symbol} : t.key = .symbol s ↔ t.symbol? = some s := by
  unfold Token.key
  split
  · rename_i found hFound
    simp [hFound]
  · rename_i hNone
    simp [hNone]

end Frontend
