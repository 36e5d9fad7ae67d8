import ApiLinker.Json.Numeral

/-!
The digits of a number, written and read.
-/

namespace ApiLinker.Json

theorem isDigit_digitChar {digit : Nat} (small : digit < 10) : isDigit digit.digitChar = true := by
  revert digit
  decide

theorem digitValue_digitChar {digit : Nat} (small : digit < 10) :
    digitValue digit.digitChar = digit := by
  revert digit
  decide

namespace Numeral

theorem ofDigits_append (digits : List Nat) (digit : Nat) :
    ofDigits (digits ++ [digit]) = ofDigits digits * 10 + digit := by
  simp [ofDigits]

theorem ofDigits_toDigits (value : Nat) :
    ofDigits ((Nat.toDigits 10 value).map digitValue) = value := by
  induction value using Nat.strongRecOn with
  | ind value ih =>
      by_cases small : value < 10
      · rw [Nat.toDigits_of_lt_base small]
        simp [ofDigits, digitValue_digitChar small]
      · have last := digitValue_digitChar (Nat.mod_lt value (by decide : 0 < 10))
        rw [Nat.toDigits_of_base_le (by decide) (Nat.le_of_not_lt small), List.map_append,
          List.map_singleton, ofDigits_append, ih _ (by omega), last]
        omega

end Numeral

/-- Different numbers are written differently. -/
theorem toString_injective {left right : Nat} (same : toString left = toString right) :
    left = right := by
  have digits : Nat.toDigits 10 left = Nat.toDigits 10 right := by
    rw [← Nat.toList_repr, ← Nat.toList_repr]
    exact congrArg String.toList same
  rw [← Numeral.ofDigits_toDigits left, digits, Numeral.ofDigits_toDigits]

end ApiLinker.Json
