import WideColumn.Proofs.Codec.Numeral
import WideColumn.Proofs.Codec.ReadBack

/-! Which native number a stored numeral becomes. An integer of 64 bits that is written plainly
is that integer. Of any other numeral not its exact value decides, but the nearest double, which
is read as an integer when it is one below the bound. -/
namespace WideColumn

open Double

namespace Double

theorem withSign_natCast (negative : Bool) (n : Nat) :
    withSign negative n = (signedInt negative n : ℚ) := by
  cases negative <;> simp [withSign, signedInt]

theorem value?_finite (negative : Bool) (rank : Fin ranks) (n : Int) :
    (finite negative rank).value? = some (n : ℚ) ↔
      signedInt negative n.natAbs = n ∧ units rank = n.natAbs * unitsPerOne := by
  rw [value?, Option.some.injEq, ← magnitude_eq_iff]
  constructor
  · intro same
    have size : magnitude rank = n.natAbs := by
      rw [Nat.cast_natAbs, Int.cast_abs, ← same, abs_withSign, abs_of_nonneg (magnitude_nonneg _)]
    rw [size, withSign_natCast, Int.cast_inj] at same
    exact ⟨same, size⟩
  · rintro ⟨same, size⟩
    rw [size, withSign_natCast, same]

theorem toInt?_eq_some_iff {x : Double} {n : Int} :
    x.toInt? = some n ↔ x.value? = some (n : ℚ) := by
  rcases x with _ | _ | ⟨negative, rank⟩
  case finite =>
    rw [value?_finite]
    constructor
    · intro whole
      have same : signedInt negative n.natAbs = n := by
        simp only [toInt?] at whole
        split at whole
        · obtain rfl := Option.some.inj whole
          generalize units rank / unitsPerOne = m
          cases negative <;> simp [signedInt]
        · cases whole
      exact ⟨same, (toInt?_eq_iff negative rank _).1 (same.symm ▸ whole)⟩
    · rintro ⟨same, size⟩
      rw [← same]
      exact (toInt?_eq_iff negative rank _).2 size
  all_goals
    constructor <;> intro held <;> cases held

theorem integralBound_lt : integralBound < 2 ^ 53 - 1 := by decide

/-- Integers below the bound are doubles. -/
theorem exists_value_int {n : Int} (small : |n| < integralBound) :
    ∃ x, value? x = some (n : ℚ) := by
  rw [Int.abs_eq_natAbs, Nat.cast_lt] at small
  obtain ⟨x, held⟩ := exists_value (n < 0) (small.trans integralBound_lt)
  refine ⟨x, held.trans (congrArg some ?_)⟩
  rw [withSign_natCast, Int.cast_inj, signedInt]
  by_cases below : n < 0
  · rw [decide_eq_true below, if_pos rfl]
    omega
  · rw [decide_eq_false below, if_neg Bool.false_ne_true]
    omega

end Double

namespace DecimalText

variable (t : DecimalText)

theorem value_plain (plain : t.Plain) : t.value = signedInt t.sign.negative t.whole.number := by
  obtain ⟨noPoint, noPower⟩ := plain
  have places : t.places = [] := by simp [DecimalText.places, noPoint]
  have exponent : t.exponent = 0 := by simp [DecimalText.exponent, noPower]
  rw [value, places, exponent, ← withSign_natCast]
  simp [Digits.number]

theorem int64?_eq_some_iff (n : Int64) :
    int64? (t.sign.chars ++ t.body) = some n ↔ t.Plain ∧ t.value = n.toInt := by
  by_cases plain : t.Plain
  · rw [int64?, t.integer?_plain plain, Option.bind_some, t.value_plain plain]
    generalize signedInt t.sign.negative t.whole.number = k
    rw [Int.cast_inj]
    constructor
    · intro read
      split at read
      · next range =>
        obtain rfl := Option.some.inj read
        rw [Int64.toInt_minValue, Int64.toInt_maxValue] at range
        exact ⟨plain, (Int64.toInt_ofInt_of_le (by omega) (by omega)).symm⟩
      · cases read
    · rintro ⟨-, rfl⟩
      rw [if_pos ⟨n.minValue_le_toInt, n.toInt_le⟩, Int64.ofInt_toInt]
  · rw [int64?, t.integer?_marked plain]
    simp [plain]

inductive Decodes : Value → Prop where
  | plain (n : Int64) : t.Plain → t.value = n.toInt → Decodes (.int n)
  | integral (n : Int64) : (t.Plain → ∀ m : Int64, t.value ≠ m.toInt) → Rounds t.value x →
    x.value? = some (n.toInt : ℚ) → |n.toInt| < integralBound → Decodes (.int n)
  | double : (t.Plain → ∀ m : Int64, t.value ≠ m.toInt) → Rounds t.value x →
    (∀ m : Int, x.value? = some (m : ℚ) → integralBound ≤ |m|) → Decodes (.float x)

theorem ofNumberText_decodes : ∃ v, Value.ofNumberText t.text = .ok v ∧ t.Decodes v := by
  simp only [Value.ofNumberText, t.trim_chars]
  cases read : int64? (t.sign.chars ++ t.body) with
  | some n =>
    obtain ⟨plain, value⟩ := (t.int64?_eq_some_iff n).1 read
    exact ⟨_, rfl, .plain n plain value⟩
  | none =>
    have other (plain : t.Plain) (m : Int64) (value : t.value = m.toInt) : False := by
      rw [(t.int64?_eq_some_iff m).2 ⟨plain, value⟩] at read
      cases read
    have rounds : Rounds t.value t.numeral.toDouble :=
      t.value_numeral ▸ t.numeral.rounds_toDouble
    rw [t.double_read?_chars]
    refine ⟨_, rfl, ?_⟩
    generalize t.numeral.toDouble = x at rounds
    unfold Value.ofDouble
    split
    · next n whole =>
      split
      · next small =>
        have exact : (Int64.ofInt n).toInt = n := by
          simp only [integralBound, Nat.pow_eq] at small
          exact Int64.toInt_ofInt_of_le (by omega) (by omega)
        refine .integral _ other rounds ?_ ?_
        · rw [exact]
          exact toInt?_eq_some_iff.1 whole
        · rwa [exact, Int.abs_eq_natAbs, Nat.cast_lt]
      · next large =>
        refine .double other rounds fun m value => ?_
        obtain rfl : n = m := Option.some.inj (whole.symm.trans (toInt?_eq_some_iff.2 value))
        rwa [Int.abs_eq_natAbs, Nat.cast_le, ← not_lt]
    · next none =>
      refine .double other rounds fun m value => ?_
      rw [toInt?_eq_some_iff.2 value] at none
      cases none

variable {t}

/-- An integer below the bound is the double that it is read as, and one from there on is not
read as a double below. -/
theorem rounds_integral {k : Int} (whole : t.value = k) (rounds : Rounds t.value x) :
    (|k| < integralBound → x.value? = some (k : ℚ)) ∧
      ∀ n : Int, x.value? = some (n : ℚ) → |n| < integralBound → n = k ∧ |k| < integralBound := by
  rw [whole] at rounds
  have exact (small : |k| < integralBound) : x.value? = some (k : ℚ) := by
    obtain ⟨y, held⟩ := exists_value_int small
    exact rounds.value_eq held
  refine ⟨exact, fun n value small => ?_⟩
  by_cases below : |k| < integralBound
  · exact ⟨Int.cast_injective (Option.some.inj (value.symm.trans (exact below))), below⟩
  · have bound := rounds.le_abs value (fun negative => exists_value negative integralBound_lt)
      (by exact_mod_cast not_lt.1 below)
    exact absurd small (not_lt.2 (by exact_mod_cast bound))

/-- An integer is read as an integer if it is written plainly or lies below the bound, and then
it is read as itself. -/
theorem Decodes.integer {k : Int} {v : Value} (whole : t.value = k) (decodes : t.Decodes v) :
    (∀ n : Int64, n.toInt = k → t.Plain ∨ |k| < integralBound → v = .int n) ∧
      ∀ n : Int64, v = .int n → n.toInt = k ∧ (t.Plain ∨ |k| < integralBound) := by
  cases decodes with
  | plain n plain value =>
    have same : n.toInt = k := Int.cast_injective (value.symm.trans whole)
    refine ⟨fun m given _ => ?_, fun m given => ?_⟩
    · rw [Int64.toInt_inj.1 (same.trans given.symm)]
    · cases given
      exact ⟨same, .inl plain⟩
  | integral n _ rounds value small =>
    obtain ⟨same, below⟩ := (rounds_integral whole rounds).2 _ value small
    refine ⟨fun m given _ => ?_, fun m given => ?_⟩
    · rw [Int64.toInt_inj.1 (same.trans given.symm)]
    · cases given
      exact ⟨same, .inr below⟩
  | double other rounds large =>
    refine ⟨fun m given reason => ?_, fun m given => ?_⟩
    · rcases reason with plain | small
      · exact absurd (given ▸ whole) (other plain m)
      · exact absurd (large k ((rounds_integral whole rounds).1 small)) (not_le.2 small)
    · cases given

end DecimalText

/-- Every numeral is read. One that is an integer of 64 bits and written plainly is read as this
integer; any other one is rounded to a double, which is read as an integer if it is one below the
bound. Of the integers those that are written plainly and those below the bound are read as integers,
as themselves, and no others. -/
theorem WireValue.deserialize_decimalText (t : DecimalText) :
    ∃ v, (WireValue.number t.text).deserialize = .ok v ∧ t.Decodes v ∧
      ∀ k : Int, t.value = k →
        (∀ n : Int64, n.toInt = k → t.Plain ∨ |k| < integralBound → v = .int n) ∧
        ∀ n : Int64, v = .int n → n.toInt = k ∧ (t.Plain ∨ |k| < integralBound) := by
  obtain ⟨v, read, decodes⟩ := t.ofNumberText_decodes
  exact ⟨v, read, decodes, fun k whole => decodes.integer whole⟩

namespace DecimalText

def quintillion : DecimalText :=
  ⟨none, [1], none, some ⟨false, none, [1, 8], by decide⟩, by decide⟩

def nines : DecimalText := ⟨none, [0], some (List.replicate 20 9), none, by decide⟩

theorem value_quintillion : quintillion.value = (1000000000000000000 : Int) := by
  have parts : quintillion.whole.number = 1 ∧ quintillion.places.number = 0 ∧
      quintillion.places.length = 0 ∧ quintillion.exponent = 18 := by decide
  rw [value, parts.1, parts.2.1, parts.2.2.1, parts.2.2.2]
  norm_num [quintillion, Sign.negative, withSign]

theorem value_nines : nines.value = 1 - 1 / 10 ^ 20 := by
  have parts : nines.whole.number = 0 ∧ nines.places.number = 99999999999999999999 ∧
      nines.places.length = 20 ∧ nines.exponent = 0 := by decide
  rw [value, parts.1, parts.2.1, parts.2.2.1, parts.2.2.2]
  norm_num [nines, Sign.negative, withSign]

theorem ofNumberText_nines : Value.ofNumberText nines.text = .ok (.int 1) := by
  have one : nines.numeral.toDouble = .finite false ⟨1023 * binade, by decide⟩ := by decide +kernel
  have none : int64? (nines.sign.chars ++ nines.body) = none := by decide
  have whole : toInt? (.finite false ⟨1023 * binade, by decide⟩) = some 1 := by decide +kernel
  simp only [Value.ofNumberText, nines.trim_chars, none, nines.double_read?_chars, one]
  simp only [Value.ofDouble, whole]
  rfl

end DecimalText

/-- Reading by the exact number: an integer of 64 bits as itself, any other number as the nearest
double. -/
def ExactRule (q : ℚ) (v : Value) : Prop :=
  (∀ n : Int64, q = n.toInt → v = .int n) ∧
    ((∀ n : Int64, q ≠ n.toInt) → |q| < overflow → ∃ x, Rounds q x ∧ v = .float x)

/-- The rule is broken both ways: an integer with a power of ten becomes a double, and a fraction
whose nearest double is an integer becomes this integer. -/
theorem WireValue.not_deserialize_exact :
    (DecimalText.quintillion.text = "1e18" ∧
      ¬∃ v, (WireValue.number DecimalText.quintillion.text).deserialize = .ok v ∧
        ExactRule DecimalText.quintillion.value v) ∧
    DecimalText.nines.text = "0.99999999999999999999" ∧
      ¬∃ v, (WireValue.number DecimalText.nines.text).deserialize = .ok v ∧
        ExactRule DecimalText.nines.value v := by
  refine ⟨⟨rfl, ?_⟩, rfl, ?_⟩
  · rintro ⟨v, read, exact, -⟩
    obtain ⟨v', read', decodes⟩ := DecimalText.quintillion.ofNumberText_decodes
    obtain rfl : v = v' := Except.ok.inj (read.symm.trans read')
    have given := exact 1000000000000000000 DecimalText.value_quintillion
    obtain ⟨-, plain | small⟩ := (decodes.integer DecimalText.value_quintillion).2 _ given
    · exact absurd plain (by decide)
    · exact absurd small (by decide)
  · rintro ⟨v, read, -, exact⟩
    obtain rfl : Value.int 1 = v := Except.ok.inj (DecimalText.ofNumberText_nines.symm.trans read)
    rw [DecimalText.value_nines] at exact
    have between (n : Int64) : (1 : ℚ) - 1 / 10 ^ 20 ≠ n.toInt := by
      intro same
      have above : (0 : ℚ) < n.toInt := by rw [← same]; norm_num
      have below : (n.toInt : ℚ) < 1 := by rw [← same]; norm_num
      have positive : 0 < n.toInt := Int.cast_pos.1 above
      have small : n.toInt < 1 := by exact_mod_cast below
      omega
    have finite : |(1 : ℚ) - 1 / 10 ^ 20| < overflow := by
      have unit : (1 : ℚ) ≤ overflow := Nat.one_le_cast.2 (by decide +kernel)
      refine lt_of_lt_of_le ?_ unit
      norm_num
    obtain ⟨x, -, same⟩ := exact between finite
    cases same

end WideColumn
