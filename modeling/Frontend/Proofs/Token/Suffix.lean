import Mathlib.Algebra.Ring.Nat
import Frontend.Proofs.Token.Loop

/-!
# Reading from the middle of a source

A cursor can be moved to any byte offset, and tokens of one's own can be put in front of those that
are read. This module says what comes of any such moves. Where the cursor stands between two
characters, it reads what a fresh reading of the rest of the source would give, further on by the
offset. Past the end only the mark of the end is left, and inside a character nothing can be read.

* `Text.IsInside`, `dropBytes?_eq_none_iff`: the offsets at which a text cannot be cut.
* `foldl_move`: where the cursor stands after several moves.
* `tokensOf_movedBy`: the tokens of a text that begins further on, whatever the size of the offset.
* `Cursor.tokens_of_moves`: everything that can be read after the moves.
-/

namespace Frontend

open Text (byteLength dropBytes? dropBytes?_eq_some_iff)

/-! ## Offsets inside a character -/

namespace Text

/-- Whether the byte offset lies behind the first byte of a character, and before its end. -/
def IsInside (text : List Char) (n : Nat) : Prop :=
  ∃ front c rest, text = front ++ c :: rest ∧ byteLength front < n ∧
    n < byteLength front + c.utf8Size

variable {text rest : List Char} {c : Char} {n : Nat}

theorem IsInside.lt (h : IsInside text n) : n < byteLength text := by
  obtain ⟨front, c, rest, rfl, -, hLt⟩ := h
  rw [byteLength_append, byteLength_cons]
  omega

theorem isInside_cons : IsInside (c :: rest) n ↔
    (0 < n ∧ n < c.utf8Size) ∨ IsInside rest (n - c.utf8Size) := by
  constructor
  · rintro ⟨front, d, behind, hText, hStart, hStop⟩
    cases front with
    | nil =>
      obtain ⟨rfl, -⟩ := List.cons.inj hText
      exact Or.inl ⟨hStart, by simpa using hStop⟩
    | cons e front =>
      obtain ⟨rfl, hRest⟩ := List.cons.inj hText
      rw [byteLength_cons] at hStart hStop
      exact Or.inr ⟨front, d, behind, hRest, by omega, by omega⟩
  · rintro (⟨hStart, hStop⟩ | ⟨front, d, behind, rfl, hStart, hStop⟩)
    · exact ⟨[], c, rest, rfl, hStart, by simpa using hStop⟩
    · refine ⟨c :: front, d, behind, rfl, ?_, ?_⟩ <;>
      · rw [byteLength_cons]
        omega

theorem dropBytes?_eq_none_iff :
    dropBytes? text n = none ↔ byteLength text < n ∨ IsInside text n := by
  fun_induction dropBytes? text n with
  | case1 text =>
    simp only [reduceCtorEq, Nat.not_lt_zero, false_or, false_iff]
    rintro ⟨front, c, rest, -, hStart, -⟩
    exact Nat.not_lt_zero _ hStart
  | case2 n => simp
  | case3 c rest n hFits ih =>
    rw [ih, isInside_cons, byteLength_cons]
    constructor
    · rintro (hPast | hInside)
      · exact Or.inl (by omega)
      · exact Or.inr (Or.inr hInside)
    · rintro (hPast | ⟨-, hWithin⟩ | hInside)
      · exact Or.inl (by omega)
      · omega
      · exact Or.inr hInside
  | case4 c rest n hFits =>
    rw [isInside_cons]
    exact iff_of_true rfl (Or.inr (Or.inl ⟨Nat.succ_pos n, Nat.lt_of_not_le hFits⟩))

end Text

/-! ## Moves -/

namespace Cursor

/-- A move of a cursor by hand. -/
inductive Move where
  | advance (bytes : Nat)
  | push (t : Token)
  deriving DecidableEq

namespace Move

/-- By how many bytes the cursor is moved. -/
def bytes : Move → Nat
  | advance bytes => bytes
  | push _ => 0

def token? : Move → Option Token
  | advance _ => none
  | push t => some t

end Move

def move (c : Cursor) : Move → Cursor
  | .advance bytes => c.advance bytes
  | .push t => c.push t

theorem foldl_move (c : Cursor) (moves : List Move) :
    moves.foldl move c =
      ⟨c.reading, c.source, c.offset + (moves.map Move.bytes).sum,
        c.pushed ++ moves.filterMap Move.token?⟩ := by
  induction moves generalizing c with
  | nil => simp
  | cons m rest ih =>
    rw [List.foldl_cons, ih]
    cases m with
    | advance bytes =>
      rw [List.map_cons, List.sum_cons, ← Nat.add_assoc]
      rfl
    | push t => simp [move, push, Move.bytes, Move.token?]

end Cursor

/-! ## Tokens further on -/

/-- The token by so many bytes further on, in 32-bit words. -/
def Token.movedBy (k : Nat) (t : Token) : Token :=
  { t with span := ⟨t.span.file, t.span.start + UInt32.ofNat k, t.span.stop + UInt32.ofNat k⟩ }

theorem Span.ofOffsets_add (file : String) (start stop k : Nat) :
    Span.ofOffsets file (start + k) (stop + k) =
      ⟨file, UInt32.ofNat start + UInt32.ofNat k, UInt32.ofNat stop + UInt32.ofNat k⟩ := by
  rw [ofOffsets, UInt32.ofNat_add, UInt32.ofNat_add]

theorem Reading.token?_movedBy (r : Reading) (k : TokenClass) (lexeme : List Char)
    (start stop n : Nat) :
    r.token? k lexeme (start + n) (stop + n) =
      (r.token? k lexeme start stop).map (Token.movedBy n) := by
  unfold Reading.token?
  split
  · rfl
  · rw [Span.ofOffsets_add]
    rfl

/-- Read further on, a text has the same tokens there. -/
theorem tokensOf_movedBy (r : Reading) (k offset : Nat) (pieces : List Piece) :
    r.tokensOf (offset + k) pieces = (r.tokensOf offset pieces).map (Token.movedBy k) := by
  induction pieces generalizing offset with
  | nil =>
    show [Token.endOfInput r.file (offset + k)] = [(Token.endOfInput r.file offset).movedBy k]
    unfold Token.endOfInput
    rw [Span.ofOffsets_add]
    rfl
  | cons piece rest ih =>
    cases piece with
    | stray c => rw [Reading.tokensOf, Reading.tokensOf, Nat.add_right_comm, ih]
    | lexeme tokenClass text =>
      rw [Reading.tokensOf, Reading.tokensOf, Nat.add_right_comm, ih, r.token?_movedBy,
        List.map_append, Option.toList_map]

namespace Cursor

variable {c : Cursor} {front rest : List Char}

theorem remainder?_of_append (hText : c.source.toList = front ++ rest)
    (hOffset : byteLength front = c.offset) : c.remainder? = some rest :=
  dropBytes?_eq_some_iff.2 ⟨front, hText, hOffset⟩

theorem atEnd_iff : c.atEnd = true ↔ byteLength c.source.toList ≤ c.offset :=
  decide_eq_true_iff

theorem remainder?_eq_none_iff : c.remainder? = none ↔
    byteLength c.source.toList < c.offset ∨ Text.IsInside c.source.toList c.offset :=
  Text.dropBytes?_eq_none_iff

/-- Past the end there are no pieces, but only inside a character there is no reading at all. -/
theorem tokens?_eq_none_iff : c.tokens? = none ↔ Text.IsInside c.source.toList c.offset := by
  unfold tokens? pieces?
  rw [Option.map_eq_none_iff]
  split
  · rename_i hEnd
    refine iff_of_false nofun fun hInside => ?_
    have hLt := hInside.lt
    have hLe := atEnd_iff.1 hEnd
    omega
  · rename_i hEnd
    rw [Option.map_eq_none_iff, remainder?_eq_none_iff]
    refine or_iff_right fun hPast => hEnd (atEnd_iff.2 (Nat.le_of_lt hPast))

theorem tokens?_of_atEnd (h : c.atEnd = true) :
    c.tokens? = some (c.pushed ++ [.endOfInput c.reading.file c.offset]) := by
  unfold tokens? pieces?
  rw [if_pos h]
  rfl

/-- Between two characters, the tokens are those of the rest of the source, further on. -/
theorem tokens?_of_append (hText : c.source.toList = front ++ rest)
    (hOffset : byteLength front = c.offset) :
    c.tokens? = some (c.pushed ++
      (c.reading.tokens (String.ofList rest)).map (Token.movedBy c.offset)) := by
  have hMoved := tokensOf_movedBy c.reading c.offset 0 (Piece.scan rest)
  rw [Nat.zero_add] at hMoved
  rw [tokens?, pieces?_of_remainder (remainder?_of_append hText hOffset), Option.map_some, hMoved,
    Reading.tokens, String.toList_ofList]

/-- A new cursor after any moves by hand, which stands by the sum of the moves further on. It has
reached the end if it is there or past it. The character at the cursor and the rest of the source
can be had unless it is past the end or inside a character. The loop that reads the source fails
only inside a character. Otherwise it gives the tokens that were pushed and, between two characters,
those of the rest of the source further on; at the end and past it, the mark of the end alone. -/
theorem tokens_of_moves (r : Reading) (source : String) (moves : List Move) :
    let c := moves.foldl move (start r source)
    let p := (moves.map Move.bytes).sum
    let text := source.toList
    (c.atEnd = true ↔ byteLength text ≤ p) ∧
      (c.char? = none ↔ byteLength text < p ∨ Text.IsInside text p) ∧
      (c.remainder? = none ↔ byteLength text < p ∨ Text.IsInside text p) ∧
      (∀ front rest, text = front ++ rest → byteLength front = p →
        c.remainder? = some rest ∧ c.char? = some rest.head?) ∧
      c.tokens? = c.loop?.map Prod.fst ∧
      (c.loop? = none ↔ p < byteLength text ∧ Text.IsInside text p) ∧
      (∀ front rest, text = front ++ rest → byteLength front = p →
        c.tokens? = some (moves.filterMap Move.token? ++
          (r.tokens (String.ofList rest)).map (Token.movedBy p))) ∧
      (byteLength text ≤ p →
        c.tokens? = some (moves.filterMap Move.token? ++ [.endOfInput r.file p])) := by
  intro c p text
  have hCursor : c = ⟨r, source, p, moves.filterMap Move.token?⟩ := by
    show moves.foldl move (start r source) = _
    rw [foldl_move]
    show Cursor.mk r source (0 + p) ([] ++ moves.filterMap Move.token?) = _
    rw [Nat.zero_add, List.nil_append]
  clear_value c
  subst hCursor
  refine ⟨atEnd_iff, ?char, remainder?_eq_none_iff, ?between, ?loop, ?fails, ?shifted, ?past⟩
  case char =>
    unfold char?
    rw [Option.map_eq_none_iff, remainder?_eq_none_iff]
  case between =>
    intro front rest hText hLength
    have hRemainder := remainder?_of_append (c := ⟨r, source, p, moves.filterMap Move.token?⟩)
      hText hLength
    exact ⟨hRemainder, congrArg (Option.map List.head?) hRemainder⟩
  case loop =>
    rw [loop?_eq, Option.map_map]
    exact Option.map_id'.symm
  case fails =>
    rw [loop?_eq, Option.map_eq_none_iff, tokens?_eq_none_iff]
    exact (and_iff_right_of_imp Text.IsInside.lt).symm
  case shifted =>
    exact fun _ _ => tokens?_of_append (c := ⟨r, source, p, moves.filterMap Move.token?⟩)
  case past =>
    exact fun hPast => tokens?_of_atEnd (atEnd_iff.2 hPast)

/-- The character `é` has two bytes here, the third and the fourth. -/
theorem tokens_of_moves_accented :
    let r : Reading := ⟨"shell", true, false⟩
    let t : Token := .endOfInput "mark" 9
    let source := "a é+1"
    let between := [Move.advance 1, .push t, .advance 3].foldl move (start r source)
    let inside := [Move.push t, .advance 3].foldl move (start r source)
    let past := [Move.advance 7, .push t, .push t].foldl move (start r source)
    between.remainder? = some ['+', '1'] ∧
      between.tokens? = some [t, ⟨.operator, "+", .ofOffsets "shell" 4 5⟩,
        ⟨.number, "1", .ofOffsets "shell" 5 6⟩, .endOfInput "shell" 6] ∧
      inside.char? = none ∧ inside.loop? = none ∧
      past.char? = none ∧ past.tokens? = some [t, t, .endOfInput "shell" 7] := by
  intro r t source between inside past
  obtain ⟨-, -, -, hRest, -, -, hShifted, -⟩ :=
    tokens_of_moves r source [.advance 1, .push t, .advance 3]
  obtain ⟨-, hInside, -, -, -, hFails, -⟩ := tokens_of_moves r source [.push t, .advance 3]
  obtain ⟨-, hPast, -, -, -, -, -, hMark⟩ :=
    tokens_of_moves r source [.advance 7, .push t, .push t]
  have hSplit : source.toList = ['a', ' ', 'é'] ++ ['+', '1'] := by decide
  have hAccent : Text.IsInside source.toList 3 :=
    ⟨['a', ' '], 'é', ['+', '1'], by decide, by decide, by decide⟩
  refine ⟨(hRest _ _ hSplit (by decide)).1, ?_, hInside.2 (Or.inr hAccent),
    hFails.2 ⟨hAccent.lt, hAccent⟩, hPast.2 (Or.inl (by decide)), hMark (by decide)⟩
  have hTokens : (r.tokens (String.ofList ['+', '1'])).map (Token.movedBy 4) =
      [⟨.operator, "+", .ofOffsets "shell" 4 5⟩, ⟨.number, "1", .ofOffsets "shell" 5 6⟩,
        .endOfInput "shell" 6] := by decide +kernel
  rw [← hTokens]
  exact hShifted _ _ hSplit (by decide)

end Cursor

end Frontend
