import WideColumn.Codec

/-! Integers survive their decimal text: it has no blanks to trim, one sign at most, and
digits that denote what they were written from. -/
namespace WideColumn

namespace Text

theorem not_isBlank_of_isDigit {c : Char} (digit : c.isDigit) : isBlank c = false := by
  obtain ⟨low, high⟩ := Char.isDigit_iff_toNat.1 digit
  simp at low high
  simp [isBlank, blankRanges]
  omega

theorem dropWhile_of_solid {text : List Char} (solid : ∀ c ∈ text, isBlank c = false) :
    text.dropWhile isBlank = text := by
  cases text with
  | nil => rfl
  | cons c rest => rw [List.dropWhile_cons_of_neg (by simp [solid])]

theorem trim_of_solid {text : List Char} (solid : ∀ c ∈ text, isBlank c = false) :
    trim text = text := by
  rw [trim, dropWhile_of_solid solid, dropWhile_of_solid, List.reverse_reverse]
  intro c member
  exact solid c (List.mem_reverse.1 member)

end Text

theorem isDigit_of_mem_toDigits {n : Nat} (member : c ∈ Nat.toDigits 10 n) : c.isDigit :=
  Nat.isDigit_of_mem_toDigits (by decide) (by decide) member

theorem natural?_digits (digits : ∀ c ∈ text, c.isDigit) (some_digit : text ≠ []) :
    natural? text = some (digitsValue text) := by
  have all : text.all Char.isDigit := List.all_eq_true.2 digits
  simp [natural?, all, some_digit]

theorem natural?_toDigits (n : Nat) : natural? (Nat.toDigits 10 n) = some n := by
  rw [natural?_digits (fun c => isDigit_of_mem_toDigits) Nat.toDigits_ne_nil]
  exact congrArg some Nat.ofDigitChars_ten_toDigits

theorem takeSign_digit (digit : c.isDigit) : takeSign (c :: rest) = (false, c :: rest) := by
  unfold takeSign
  split
  · next same => cases same; cases digit
  · next same => cases same; cases digit
  · rfl

theorem takeSign_toDigits (n : Nat) : takeSign (Nat.toDigits 10 n) = (false, Nat.toDigits 10 n) := by
  cases text : Nat.toDigits 10 n with
  | nil => exact absurd text Nat.toDigits_ne_nil
  | cons c rest => exact takeSign_digit (isDigit_of_mem_toDigits (n := n) (by simp [text]))

theorem toList_toString_int (n : Int) :
    (toString n).toList =
      if n < 0 then '-' :: Nat.toDigits 10 n.natAbs else Nat.toDigits 10 n.natAbs := by
  rw [Int.toString_eq_repr, Int.repr_eq_if]
  by_cases negative : n < 0
  · have same : (-n).toNat = n.natAbs := by omega
    rw [if_neg (by omega), if_pos negative, same]
    simp
  · have same : n.toNat = n.natAbs := by omega
    rw [if_pos (by omega), if_neg negative, same, Nat.toList_repr]

theorem integer?_toString (n : Int) : integer? (toString n).toList = some n := by
  rw [toList_toString_int]
  by_cases negative : n < 0
  · have magnitude : -(n.natAbs : Int) = n := by omega
    rw [if_pos negative]
    simp only [integer?, takeSign, natural?_toDigits]
    exact congrArg some magnitude
  · have magnitude : (n.natAbs : Int) = n := by omega
    rw [if_neg negative]
    simp only [integer?, takeSign_toDigits, natural?_toDigits]
    exact congrArg some magnitude

theorem trim_toString (n : Int) : Text.trim (toString n).toList = (toString n).toList := by
  apply Text.trim_of_solid
  rw [toList_toString_int]
  intro c member
  split at member
  · rcases List.mem_cons.1 member with rfl | member
    · decide
    · exact Text.not_isBlank_of_isDigit (isDigit_of_mem_toDigits member)
  · exact Text.not_isBlank_of_isDigit (isDigit_of_mem_toDigits member)

theorem int64?_toString (n : Int64) : int64? (toString n.toInt).toList = some n := by
  rw [int64?, integer?_toString, Option.bind_some, if_pos ⟨n.minValue_le_toInt, n.toInt_le⟩,
    Int64.ofInt_toInt]

/-- A stored integer is read back as the same integer. -/
theorem Value.ofNumberText_toString (n : Int64) :
    Value.ofNumberText (toString n.toInt) = .ok (.int n) := by
  simp only [Value.ofNumberText, trim_toString, int64?_toString]

end WideColumn
