import Frontend.Proofs.Grammar.Standard

/-!
# Nesting

Brackets are matched by counting. A token turns inwards or outwards if it is a bracket of the kind
that is counted, and the turns up to a place add up to how deep it is. The matching itself knows
nothing of tokens; it is about lists of turns.

* `height`: how far turns lead inwards.
* `Inward`: turns that never lead out of the place where they begin.
* `Closes`: the index at which the bracket is closed that the turns begin with.
* `closes_wrap`: brackets around turns that come back to where they begin.
-/

namespace Frontend

/-- By how much the token leads into brackets of a kind. -/
def Token.turnBy (opening closing : Symbol) (t : Token) : Int :=
  if t.is opening then 1 else if t.is closing then -1 else 0

theorem Token.turnBy_of_is {opening closing s : Symbol} {t : Token} (h : t.is s = true) :
    t.turnBy opening closing = if s = opening then 1 else if s = closing then -1 else 0 := by
  have hIs : ∀ s', t.is s' = decide (s = s') := by
    intro s'
    by_cases hEq : s = s'
    · subst hEq
      simpa using h
    · rw [decide_eq_false hEq]
      exact Bool.eq_false_iff.2 fun h' => hEq (Token.is_unique h h')
  simp only [Token.turnBy, hIs, decide_eq_true_eq]

theorem Token.turnBy_of_not_is {t : Token} (h : ∀ s : Symbol, ¬ t.is s = true)
    (opening closing : Symbol) : t.turnBy opening closing = 0 := by
  rw [Token.turnBy, if_neg (h _), if_neg (h _)]

/-- How far the turns lead inwards. -/
def height : List Int → Int
  | [] => 0
  | turn :: turns => turn + height turns

/-- Turns that never lead out of the place where they begin. -/
def Inward (turns : List Int) : Prop :=
  ∀ k, 0 ≤ height (turns.take k)

/-- The bracket that the turns begin with is closed at the index: up to there the turns stay behind
it, and there they come back. -/
structure Closes (turns : List Int) (index : Nat) : Prop where
  inside : ∀ k, 0 < k → k ≤ index → 0 < height (turns.take k)
  back : height (turns.take (index + 1)) = 0

variable {turns behind : List Int} {i j k : Nat}

theorem height_append (turns behind : List Int) :
    height (turns ++ behind) = height turns + height behind := by
  induction turns with
  | nil => simp [height]
  | cons turn turns ih => simp only [List.cons_append, height, ih, Int.add_assoc]

theorem height_take_append (turns behind : List Int) (k : Nat) :
    height ((turns ++ behind).take k) =
      height (turns.take k) + height (behind.take (k - turns.length)) := by
  rw [List.take_append, height_append]

theorem inward_nil : Inward [] := by
  intro k
  rw [List.take_nil]
  exact Int.le_refl 0

theorem inward_zero : Inward [0] := by
  intro k
  cases k with
  | zero => exact Int.le_refl 0
  | succ k =>
    rw [List.take_succ_cons, List.take_nil]
    exact Int.le_refl 0

theorem Inward.height_nonneg (h : Inward turns) : 0 ≤ height turns := by
  have hAll := h turns.length
  rwa [List.take_length] at hAll

theorem Inward.append (h : Inward turns) (h' : Inward behind) : Inward (turns ++ behind) := by
  intro k
  rw [height_take_append]
  exact Int.add_nonneg (h k) (h' _)

/-- Behind an opening bracket, inward turns stay inside of it, and a last one can only close it. -/
theorem Inward.inside_wrap (h : Inward turns) (last : Int) {k : Nat} (hPos : 0 < k)
    (hk : k ≤ turns.length + 1) : 0 < height ((1 :: (turns ++ [last])).take k) := by
  cases k with
  | zero => exact absurd hPos (Nat.lt_irrefl 0)
  | succ k =>
    have hNonneg := h k
    have hLast : k - turns.length = 0 := by omega
    rw [List.take_succ_cons, height, height_take_append, hLast, List.take_zero, height]
    omega

theorem height_wrap (turns : List Int) (last : Int) :
    height (1 :: (turns ++ [last])) = 1 + height turns + last := by
  rw [height, height_append, height, height, Int.add_zero, Int.add_assoc]

theorem length_wrap (turns : List Int) (last : Int) :
    (1 :: (turns ++ [last])).length = turns.length + 1 + 1 := by
  rw [List.length_cons, List.length_append, List.length_singleton]

theorem Inward.wrap (h : Inward turns) {last : Int} (hLast : -1 ≤ last) :
    Inward (1 :: (turns ++ [last])) := by
  intro k
  rcases Nat.eq_zero_or_pos k with rfl | hPos
  · exact Int.le_refl 0
  · by_cases hk : k ≤ turns.length + 1
    · exact Int.le_of_lt (h.inside_wrap last hPos hk)
    · have hNonneg := h.height_nonneg
      rw [List.take_of_length_le (by rw [length_wrap]; omega), height_wrap]
      omega

theorem closes_append (h : i < turns.length) : Closes (turns ++ behind) i ↔ Closes turns i := by
  have hTake : ∀ k, k ≤ i + 1 → (turns ++ behind).take k = turns.take k :=
    fun k hk => List.take_append_of_le_length (Nat.le_trans hk h)
  constructor
  · rintro ⟨hInside, hBack⟩
    refine ⟨?_, ?_⟩
    · intro k hPos hk
      rw [← hTake k (Nat.le_succ_of_le hk)]
      exact hInside k hPos hk
    · rwa [← hTake _ (Nat.le_refl _)]
  · rintro ⟨hInside, hBack⟩
    refine ⟨?_, ?_⟩
    · intro k hPos hk
      rw [hTake k (Nat.le_succ_of_le hk)]
      exact hInside k hPos hk
    · rwa [hTake _ (Nat.le_refl _)]

/-- Brackets around turns that come back to where they begin. -/
theorem closes_wrap (h : Inward turns) (hBack : height turns = 0) :
    Closes (1 :: (turns ++ [-1])) (turns.length + 1) := by
  refine ⟨fun k hPos hk => h.inside_wrap _ hPos hk, ?_⟩
  rw [← length_wrap turns (-1), List.take_length, height_wrap, hBack]
  rfl

theorem closes_iff : Closes turns i ↔
    (∀ k < i, 0 < height (turns.take (k + 1))) ∧ height (turns.take (i + 1)) = 0 := by
  constructor
  · rintro ⟨hInside, hBack⟩
    exact ⟨fun k hk => hInside (k + 1) (Nat.succ_pos k) hk, hBack⟩
  · rintro ⟨hInside, hBack⟩
    refine ⟨fun k hPos hk => ?_, hBack⟩
    obtain ⟨k, rfl⟩ := Nat.exists_eq_succ_of_ne_zero (Nat.pos_iff_ne_zero.1 hPos)
    exact hInside k hk

instance (turns : List Int) (index : Nat) : Decidable (Closes turns index) :=
  decidable_of_iff _ closes_iff.symm

theorem Closes.unique (h : Closes turns i) (h' : Closes turns j) : i = j := by
  have hNotLt : ∀ {i j}, Closes turns i → Closes turns j → ¬ i < j := by
    intro i j hi hj hLt
    have hInside := hj.inside (i + 1) (Nat.succ_pos i) hLt
    rw [hi.back] at hInside
    exact Int.lt_irrefl 0 hInside
  exact Nat.le_antisymm (Nat.le_of_not_lt (hNotLt h' h)) (Nat.le_of_not_lt (hNotLt h h'))

end Frontend
