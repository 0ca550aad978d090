import Frontend.Decimal

/-!
# Reading back a decimal number

Digits are read as the number they stand for, leading zeros or not, as long as it is a 64-bit number.
So every 64-bit number that is not negative is read back from its decimal text.

* `value_digits`: the digits of a number stand for it.
* `exists_toInt64?`, `toInt64?_eq_none`: digits are read as the number they stand for, if this is
  a 64-bit number.
* `toInt64?_ofInt`: the text of a number that is not negative is read as the number.
-/

namespace Frontend.Decimal

theorem isDigit_digit {n : Nat} (h : n < 10) : (digit n).isDigit = true := by
  have hAll : ∀ k < 10, (digit k).isDigit = true := by decide
  exact hAll n h

theorem toNat_digit {n : Nat} (h : n < 10) : (digit n).toNat = 48 + n := by
  have hAll : ∀ k < 10, (digit k).toNat = 48 + k := by decide
  exact hAll n h

theorem digits_ne_nil (n : Nat) : digits n ≠ [] := by
  unfold digits
  split <;> simp

theorem isDigit_of_mem_digits {n : Nat} {c : Char} (h : c ∈ digits n) : c.isDigit = true := by
  fun_induction digits n with
  | case1 n hSmall =>
    rw [List.mem_singleton.1 h]
    exact isDigit_digit hSmall
  | case2 n hLarge ih =>
    rcases List.mem_append.1 h with h | h
    · exact ih h
    · rw [List.mem_singleton.1 h]
      exact isDigit_digit (Nat.mod_lt n (by decide))

theorem value_concat (ds : List Char) (d : Char) :
    value (ds ++ [d]) = 10 * value ds + (d.toNat - 48) := by
  simp [value, List.foldl_append]

theorem value_digits (n : Nat) : value (digits n) = n := by
  fun_induction digits n with
  | case1 n hSmall =>
    have hDigit := toNat_digit hSmall
    simp only [value, List.foldl_cons, List.foldl_nil]
    omega
  | case2 n hLarge ih =>
    have hDigit := toNat_digit (Nat.mod_lt n (by decide : 10 > 0))
    rw [value_concat, ih]
    omega

/-! ## Digits without a sign -/

section

variable {ds : List Char} (hText : ds ≠ []) (hDigits : ∀ c ∈ ds, c.isDigit = true)
include hText hDigits

theorem toNat?_of_isDigit : toNat? ds = some (value ds) := by
  rw [toNat?, if_pos ⟨hText, List.all_eq_true.2 hDigits⟩]

/-- Digits are read without a sign. -/
theorem toInt?_of_isDigit : toInt? ds = some (value ds : Int) := by
  have hRead := toNat?_of_isDigit hText hDigits
  have hSign : ∀ c ∈ ds, c ≠ '-' ∧ c ≠ '+' := by
    intro c hMem
    have hDigit := hDigits c hMem
    constructor <;> rintro rfl <;> exact absurd hDigit (by decide)
  unfold toInt?
  split
  · exact absurd rfl (hSign '-' List.mem_cons_self).1
  · exact absurd rfl (hSign '+' List.mem_cons_self).2
  · rw [hRead]
    rfl

end

theorem toInt?_digits (n : Nat) : toInt? (digits n) = some (n : Int) := by
  rw [toInt?_of_isDigit (digits_ne_nil n) fun _ => isDigit_of_mem_digits, value_digits]

section

variable {text : String} (hText : text.toList ≠ [])
  (hDigits : ∀ c ∈ text.toList, c.isDigit = true)
include hText hDigits

/-- Digits within the 64-bit range are read as the number that they stand for. -/
theorem exists_toInt64? (hRange : value text.toList ≤ 9223372036854775807) :
    ∃ v, toInt64? text = some v ∧ v.toInt = value text.toList := by
  have hLower : Int64.minValue.toInt ≤ value text.toList :=
    Int.le_trans (by decide) (Int.natCast_nonneg _)
  have hUpper : (value text.toList : Int) ≤ Int64.maxValue.toInt := Int.ofNat_le.2 hRange
  refine ⟨Int64.ofInt (value text.toList), ?_, ?_⟩
  · rw [toInt64?, toInt?_of_isDigit hText hDigits, Option.bind_some, if_pos ⟨hLower, hUpper⟩]
  · exact Int64.toInt_ofInt_of_le (by simp) (Int.lt_of_le_of_lt hUpper (by decide))

/-- Digits beyond the 64-bit range are refused, however many there are. -/
theorem toInt64?_eq_none (hRange : 9223372036854775807 < value text.toList) :
    toInt64? text = none := by
  rw [toInt64?, toInt?_of_isDigit hText hDigits, Option.bind_some, if_neg]
  rintro ⟨-, hUpper⟩
  exact absurd (Int.ofNat_le.1 hUpper) (Nat.not_le.2 hRange)

end

/-! ## Printed numbers -/

/-- The text of a natural number consists of digits that stand for it. -/
theorem spells_ofNat (n : Nat) :
    (ofNat n).toList ≠ [] ∧ (∀ c ∈ (ofNat n).toList, c.isDigit = true) ∧
      value (ofNat n).toList = n := by
  rw [ofNat, String.toList_ofList]
  exact ⟨digits_ne_nil n, fun _ => isDigit_of_mem_digits, value_digits n⟩

theorem toList_ofInt {v : Int64} (h : 0 ≤ v) : (ofInt v.toInt).toList = digits v.toInt.natAbs := by
  have hSign : ¬ v.toInt < 0 := Int.not_lt.2 (Int64.le_iff_toInt_le.1 h)
  rw [ofInt, if_neg hSign, ofNat, String.toList_ofList]

theorem toInt64?_ofInt {v : Int64} (h : 0 ≤ v) : toInt64? (ofInt v.toInt) = some v := by
  have hPos : (0 : Int) ≤ v.toInt := Int64.le_iff_toInt_le.1 h
  have hBounds : Int64.minValue.toInt ≤ v.toInt ∧ v.toInt ≤ Int64.maxValue.toInt :=
    ⟨v.minValue_le_toInt, v.toInt_le⟩
  rw [toInt64?, toList_ofInt h, toInt?_digits, Option.bind_some, Int.natAbs_of_nonneg hPos,
    if_pos hBounds, Int64.ofInt_toInt]

end Frontend.Decimal
