import WideColumn.Proofs.Codec.Decimal
import WideColumn.Proofs.Double.Shortest
import Mathlib.Data.List.TakeWhile

/-! The text of a finite double is read as that double. Three layouts are written: digits
with zeros behind them, digits with a point among them, and digits with zeros and a point
before them. Each reads as the decimal it was written from, which is in reach. -/
namespace WideColumn

namespace Decimal

theorem digitsValue_digits (d : Decimal) : digitsValue d.digits = d.coefficient :=
  Nat.ofDigitChars_ten_toDigits

theorem digitsValue_append_zeros (digits : List Char) (n : Nat) :
    digitsValue (digits ++ List.replicate n '0') = digitsValue digits * 10 ^ n := by
  have split : digitsValue (digits ++ List.replicate n '0') =
      Nat.ofDigitChars 10 (List.replicate n '0') (digitsValue digits) := Nat.ofDigitChars_append 0
  rw [split, Nat.ofDigitChars_replicate_zero, Nat.mul_comm]

theorem digitsValue_zeros_append (digits : List Char) (n : Nat) :
    digitsValue (List.replicate n '0' ++ digits) = digitsValue digits := by
  have split : digitsValue (List.replicate n '0' ++ digits) =
      Nat.ofDigitChars 10 digits (Nat.ofDigitChars 10 (List.replicate n '0') 0) :=
    Nat.ofDigitChars_append 0
  rw [split, Nat.ofDigitChars_replicate_zero]
  rfl

theorem isDigit_of_mem_digits {d : Decimal} (member : c ∈ d.digits) : c.isDigit :=
  isDigit_of_mem_toDigits member

theorem isDigit_of_mem_zeros (member : c ∈ List.replicate n '0') : c.isDigit := by
  rw [List.eq_of_mem_replicate member]
  decide

/-- Without a fraction there are digits only. -/
theorem positional_whole {d : Decimal} (whole : 0 ≤ d.exponent) :
    d.positional ≠ [] ∧ (∀ c ∈ d.positional, c.isDigit) ∧
      digitsValue d.positional = d.numerator := by
  rw [positional, if_pos whole]
  refine ⟨?_, ?_, ?_⟩
  · exact List.append_ne_nil_of_left_ne_nil Nat.toDigits_ne_nil _
  · intro c member
    rcases List.mem_append.1 member with digit | zero
    · exact isDigit_of_mem_digits digit
    · exact isDigit_of_mem_zeros zero
  · rw [digitsValue_append_zeros, digitsValue_digits, numerator]

/-- A fraction has its digits on both sides of a point, as many behind it as the exponent says. -/
theorem positional_fraction {d : Decimal} (part : d.exponent < 0) :
    ∃ whole fraction, d.positional = whole ++ '.' :: fraction ∧ whole ≠ [] ∧
      (∀ c ∈ whole ++ fraction, c.isDigit) ∧ (fraction.length : Int) = -d.exponent ∧
      digitsValue (whole ++ fraction) = d.coefficient := by
  rw [positional, if_neg (by omega)]
  by_cases inside : (-d.exponent).toNat < d.digits.length
  · refine ⟨d.digits.take (d.digits.length - (-d.exponent).toNat),
      d.digits.drop (d.digits.length - (-d.exponent).toNat), if_pos inside, ?_, ?_, ?_, ?_⟩
    · rw [Ne, List.take_eq_nil_iff]
      rintro (none | empty)
      · omega
      · exact Nat.toDigits_ne_nil empty
    · rw [List.take_append_drop]
      exact fun c => isDigit_of_mem_digits
    · rw [List.length_drop]
      omega
    · rw [List.take_append_drop, digitsValue_digits]
  · refine ⟨['0'], List.replicate ((-d.exponent).toNat - d.digits.length) '0' ++ d.digits,
      if_neg inside, List.cons_ne_nil _ _, ?_, ?_, ?_⟩
    · intro c member
      rcases List.mem_cons.1 member with rfl | member
      · decide
      · rcases List.mem_append.1 (show c ∈ _ ++ d.digits from member) with zero | digit
        · exact isDigit_of_mem_zeros zero
        · exact isDigit_of_mem_digits digit
    · rw [List.length_append, List.length_replicate]
      omega
    · rw [← List.append_assoc]
      exact (digitsValue_zeros_append d.digits _).trans d.digitsValue_digits

end Decimal

/-! Reading a sign, digits, and a point with digits behind it. -/

/-- The characters that `Double.signed` packs. -/
def signedText (negative : Bool) (text : List Char) : List Char :=
  if negative then '-' :: text else text

def signedInt (negative : Bool) (n : Nat) : Int := if negative then -(n : Int) else n

theorem toList_signed (negative : Bool) (text : List Char) :
    (Double.signed negative text).toList = signedText negative text :=
  String.toList_ofList

theorem takeSign_signedText (negative : Bool) (digit : c.isDigit) :
    takeSign (signedText negative (c :: rest)) = (negative, c :: rest) := by
  cases negative
  · exact takeSign_digit digit
  · rfl

theorem Numeral.read?_whole (negative : Bool) (digits : ∀ c ∈ text, c.isDigit)
    (some_digit : text ≠ []) :
    read? (signedText negative text) = some ⟨negative, digitsValue text, 0⟩ := by
  obtain ⟨c, rest, rfl⟩ := List.exists_cons_of_ne_nil some_digit
  rw [read?, takeSign_signedText negative (digits c (by simp))]
  simp [List.takeWhile_eq_self_iff.2 digits, List.dropWhile_eq_nil_iff.2 digits, power?]

theorem Numeral.read?_fraction (negative : Bool) (digits : ∀ c ∈ whole ++ fraction, c.isDigit)
    (some_digit : whole ≠ []) :
    read? (signedText negative (whole ++ '.' :: fraction)) =
      some ⟨negative, digitsValue (whole ++ fraction), -fraction.length⟩ := by
  have before : ∀ c ∈ whole, c.isDigit := fun c member => digits c (by simp [member])
  have behind : ∀ c ∈ fraction, c.isDigit := fun c member => digits c (by simp [member])
  have head : (whole ++ '.' :: fraction).takeWhile Char.isDigit = whole := by
    rw [List.takeWhile_append_of_pos before]
    simp
  have tail : (whole ++ '.' :: fraction).dropWhile Char.isDigit = '.' :: fraction := by
    rw [List.dropWhile_append_of_pos before]
    simp
  have sign : takeSign (signedText negative (whole ++ '.' :: fraction)) =
      (negative, whole ++ '.' :: fraction) := by
    obtain ⟨c, rest, rfl⟩ := List.exists_cons_of_ne_nil some_digit
    exact takeSign_signedText negative (before c (by simp))
  rw [read?, sign]
  simp [head, tail, List.takeWhile_eq_self_iff.2 behind, List.dropWhile_eq_nil_iff.2 behind,
    some_digit, power?]

theorem toLower_of_isDigit {c : Char} (digit : c.isDigit) : c.toLower = c := by
  have range := (Char.isDigit_iff_toNat.1 digit).2
  refine dif_neg fun upper => ?_
  have low := UInt32.le_iff_toNat_le.1 upper.1
  exact absurd low (Nat.not_le.2 (Nat.lt_of_le_of_lt range (by decide)))

/-- The words begin with a letter. -/
theorem Double.read?_digit (negative : Bool) (digit : c.isDigit) :
    read? (signedText negative (c :: rest)) =
      (Numeral.read? (signedText negative (c :: rest))).map Numeral.toDouble := by
  have word (letters : List Char) (letter : letters.head?.any Char.isDigit = false) :
      (c :: rest).map Char.toLower ≠ letters := by
    intro same
    rw [← same] at letter
    simp [toLower_of_isDigit digit, digit] at letter
  rw [read?, takeSign_signedText negative digit]
  simp only
  rw [if_neg (not_or.2 ⟨word _ (by decide), word _ (by decide)⟩), if_neg (word _ (by decide))]

namespace Double

theorem Reach.Contains.rank_eq_zero (reads : (reach rank).Contains 0 denominator)
    (positive : 0 < denominator) : rank = 0 := by
  have low := reads.near.1
  have few := below_mul_le rank (spacing rank denominator)
  have none : significand rank ≤ 0 := by
    apply le_of_near (spacing_pos rank positive)
    omega
  by_contra nonzero
  exact absurd (significand_pos nonzero) (Nat.not_lt.2 none)

theorem two_units_le : 2 * unitsPerOne ≤ 10 ^ 400 := by decide +kernel

/-- The least double above zero is one unit, and its reach starts at half of that. -/
theorem Reach.Contains.denominator_le (reads : (reach rank).Contains numerator denominator)
    (nonzero : rank ≠ 0) : denominator ≤ 2 * (numerator * unitsPerOne) := by
  have low := reads.low.le
  have positive := significand_pos nonzero
  have start : 2 ≤ (reach rank).low := by
    have cut : 2 ≤ 4 * significand rank - below rank := by
      unfold below
      split <;> omega
    exact Nat.le_trans cut (Nat.le_mul_of_pos_right _ (Nat.two_pow_pos _))
  have scaled := Nat.mul_le_mul_right denominator start
  omega

/-- No digits in reach of a double are so small that they count as zero at once. -/
theorem Reach.Contains.not_small (reads : (reach rank).Contains coefficient (10 ^ places))
    (nonzero : rank ≠ 0) : places ≤ 400 + coefficient.log2 := by
  rcases Nat.le_total places 400 with few | many
  · omega
  · have size : 2 ^ (places - 400) ≤ coefficient := by
      refine Nat.le_of_mul_le_mul_right ?_ (Nat.mul_pos Nat.two_pos unitsPerOne_pos)
      calc 2 ^ (places - 400) * (2 * unitsPerOne)
          ≤ 10 ^ (places - 400) * 10 ^ 400 :=
            Nat.mul_le_mul (Nat.pow_le_pow_left (by decide) _) two_units_le
        _ = 10 ^ places := by rw [← pow_add, Nat.sub_add_cancel many]
        _ ≤ 2 * (coefficient * unitsPerOne) := reads.denominator_le nonzero
        _ = coefficient * (2 * unitsPerOne) := Nat.mul_left_comm _ _ _
    have some_digit : coefficient ≠ 0 := by
      have := Nat.two_pow_pos (places - 400)
      omega
    have := (Nat.le_log2 some_digit).2 size
    omega

theorem toDouble_of_contains {rank : Fin ranks} {coefficient : Nat} {exponent : Int} (small : exponent ≤ 0)
    (sized : coefficient ≠ 0 → -400 ≤ exponent + coefficient.log2)
    (reads : (reach rank).Contains coefficient (10 ^ (-exponent).toNat)) :
    Numeral.toDouble ⟨negative, coefficient, exponent⟩ = .finite negative rank := by
  have positive : 0 < 10 ^ (-exponent).toNat := Nat.pow_pos (by decide)
  rw [Numeral.toDouble, if_neg (by simp only; omega)]
  split
  · next zero =>
    have none : coefficient = 0 := by
      by_contra digits
      have := sized digits
      simp only at zero
      omega
    subst none
    have first := reads.rank_eq_zero positive
    apply nearest_of_contains _ Nat.one_pos
    rw [first]
    exact contains_zero Nat.one_pos
  · have whole : exponent.toNat = 0 := by omega
    simp only [whole, Nat.pow_eq, Nat.pow_zero, Nat.mul_one]
    exact nearest_of_contains reads positive

theorem rank_ne_zero (part : (shortest tie rank).exponent < 0) : rank ≠ 0 := by
  rintro rfl
  exact absurd part (by simp [shortest])

/-- The text of a finite double is read as that double. -/
theorem read?_display (x : Double) (finite : x.isFinite) : read? x.display.toList = some x := by
  cases x with
  | nan => cases finite
  | infinite negative => cases finite
  | finite negative rank =>
    have reads := contains_shortest .up rank
    rw [display, toList_signed]
    rcases Int.lt_or_le (shortest .up rank).exponent 0 with part | whole
    · obtain ⟨head, fraction, text, some_digit, digits, places, value⟩ :=
        Decimal.positional_fraction part
      obtain ⟨c, rest, rfl⟩ := List.exists_cons_of_ne_nil some_digit
      rw [text, List.cons_append, read?_digit negative (digits c (by simp)), ← List.cons_append,
        Numeral.read?_fraction negative digits some_digit, value, places, Int.neg_neg,
        Option.map_some]
      have none : (shortest .up rank).exponent.toNat = 0 := by omega
      rw [Decimal.numerator, none, Nat.pow_zero, Nat.mul_one] at reads
      have size := reads.not_small (rank_ne_zero part)
      exact congrArg some (toDouble_of_contains (Int.le_of_lt part) (fun _ => by omega) reads)
    · obtain ⟨some_digit, digits, value⟩ := Decimal.positional_whole whole
      obtain ⟨c, rest, text⟩ := List.exists_cons_of_ne_nil some_digit
      rw [text] at digits some_digit value ⊢
      rw [read?_digit negative (digits c (by simp)), Numeral.read?_whole negative digits some_digit,
        value, Option.map_some]
      rw [Decimal.denominator_whole whole] at reads
      exact congrArg some (toDouble_of_contains (Int.le_refl 0) (fun _ => by omega) reads)

theorem isBlank_positional (d : Decimal) (member : c ∈ d.positional) : Text.isBlank c = false := by
  rcases Int.lt_or_le d.exponent 0 with part | whole
  · obtain ⟨head, fraction, text, _, digits, _, _⟩ := Decimal.positional_fraction part
    rw [text] at member
    rcases List.mem_append.1 member with before | point
    · exact Text.not_isBlank_of_isDigit (digits c (by simp [before]))
    · rcases List.mem_cons.1 point with rfl | behind
      · decide
      · exact Text.not_isBlank_of_isDigit (digits c (by simp [behind]))
  · exact Text.not_isBlank_of_isDigit ((Decimal.positional_whole whole).2.1 c member)

theorem trim_signedText (negative : Bool) (d : Decimal) :
    Text.trim (signedText negative d.positional) = signedText negative d.positional := by
  apply Text.trim_of_solid
  intro c member
  cases negative
  · exact isBlank_positional d member
  · rcases List.mem_cons.1 member with rfl | digit
    · decide
    · exact isBlank_positional d digit

/-- Without a fraction the text is that of an integer. -/
theorem integer?_display_whole (negative : Bool) {d : Decimal} (whole : 0 ≤ d.exponent) :
    integer? (signedText negative d.positional) =
      some (signedInt negative d.numerator) := by
  obtain ⟨some_digit, digits, value⟩ := Decimal.positional_whole whole
  obtain ⟨c, rest, text⟩ := List.exists_cons_of_ne_nil some_digit
  rw [text] at digits some_digit value ⊢
  rw [integer?, takeSign_signedText negative (digits c (by simp))]
  simp only [natural?_digits digits some_digit, value]
  rfl

/-- A point is no digit. -/
theorem integer?_display_fraction (negative : Bool) {d : Decimal} (part : d.exponent < 0) :
    integer? (signedText negative d.positional) = none := by
  obtain ⟨head, fraction, text, some_digit, digits, _, _⟩ := Decimal.positional_fraction part
  obtain ⟨c, rest, rfl⟩ := List.exists_cons_of_ne_nil some_digit
  rw [text, List.cons_append, integer?, takeSign_signedText negative (digits c (by simp))]
  have point : ((c :: (rest ++ '.' :: fraction)).all Char.isDigit) = false := by
    simp
  simp only [natural?, point, Bool.not_false, Bool.or_true, if_true]
  rfl

end Double

end WideColumn
