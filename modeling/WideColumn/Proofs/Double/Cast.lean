import WideColumn.Proofs.Codec.NumberText

/-! Doubles compared as numbers. A double is compared with an integer of 64 bits by cutting it to
such an integer, which takes the fraction away and moves what is too large to the ends of the
range; the upper end is itself no double. With the guards as they are the comparison is exact. -/
namespace WideColumn

namespace Double

inductive Quantity where
  | finite (q : ℚ)
  | infinite (negative : Bool)
  deriving DecidableEq

def quantity? : Double → Option Quantity
  | .nan => none
  | .infinite negative => some (.infinite negative)
  | .finite negative rank => some (.finite (withSign negative (magnitude rank)))

theorem quantity?_eq_finite {x : Double} : x.quantity? = some (.finite q) ↔ x.value? = some q := by
  cases x <;> simp [quantity?, value?]

theorem quantity?_eq_none {x : Double} : x.quantity? = none ↔ x = .nan := by
  cases x <;> simp [quantity?]

/-- The finite doubles are numbered in their order, those below zero downwards. -/
theorem withSign_lt_iff (a b : Bool) (m n : Nat) :
    withSign a (magnitude m) < withSign b (magnitude n) ↔ signedInt a m < signedInt b n := by
  have less (m n : Nat) : magnitude m < magnitude n ↔ m < n := magnitude_strictMono.lt_iff_lt
  have nonneg := magnitude_nonneg
  cases a <;> cases b <;> simp only [withSign, signedInt, if_true, Bool.false_eq_true, if_false]
  case false.false => rw [less, Nat.cast_lt]
  case true.true => rw [neg_lt_neg_iff, less, neg_lt_neg_iff, Nat.cast_lt]
  case false.true =>
    have := nonneg m
    have := nonneg n
    exact iff_of_false (by linarith) (by omega)
  case true.false =>
    constructor
    · intro below
      by_contra together
      obtain ⟨rfl, rfl⟩ : m = 0 ∧ n = 0 := by omega
      rw [magnitude_zero, neg_zero] at below
      exact lt_irrefl _ below
    · intro below
      have positive : 0 < m ∨ 0 < n := by omega
      rw [← less, ← less, magnitude_zero] at positive
      have := nonneg m
      have := nonneg n
      rcases positive with above | above <;> linarith

theorem withSign_eq_iff (a b : Bool) (m n : Nat) :
    withSign a (magnitude m) = withSign b (magnitude n) ↔ signedInt a m = signedInt b n := by
  rw [← not_iff_not, ← Ne.eq_def, ← Ne.eq_def, ne_iff_lt_or_gt, ne_iff_lt_or_gt,
    withSign_lt_iff, withSign_lt_iff]

theorem sameNumber_iff {x y : Double} :
    x.sameNumber y ↔ ∃ k, x.quantity? = some k ∧ y.quantity? = some k := by
  cases x with
  | nan => simp [sameNumber, quantity?]
  | infinite a =>
    cases y with
    | infinite b =>
      simp only [sameNumber, quantity?, Option.some.injEq, exists_eq_left', Quantity.infinite.injEq,
        beq_iff_eq]
      exact eq_comm
    | _ => simp [sameNumber, quantity?]
  | finite a m =>
    cases y with
    | finite b n =>
      simp only [sameNumber, quantity?, Option.some.injEq, exists_eq_left', Quantity.finite.injEq,
        withSign_eq_iff, Bool.and_eq_true, Bool.or_eq_true, beq_iff_eq, Fin.ext_iff]
      cases a <;> cases b <;> simp [signedInt] <;> omega
    | _ => simp [sameNumber, quantity?]

theorem sameNumber_zero {x : Double} : x.sameNumber zero ↔ x.value? = some 0 := by
  have nought : zero.quantity? = some (.finite 0) := congrArg (some ∘ Quantity.finite) magnitude_zero
  simp [sameNumber_iff, nought, quantity?_eq_finite]

def position? : Double → Option Int
  | .nan => none
  | .infinite negative => some (signedInt negative ranks)
  | .finite negative rank => some (signedInt negative rank)

def lessThan (x y : Double) : Bool :=
  match x.position?, y.position? with
  | some a, some b => a < b
  | _, _ => false

def atMost (x y : Double) : Bool :=
  match x.position?, y.position? with
  | some a, some b => a ≤ b
  | _, _ => false

def fraction : Double → Double
  | .finite negative rank => nearest negative (units rank % unitsPerOne) unitsPerOne
  | _ => .nan

/-- Cut to an integer of 64 bits. The fraction goes, a number outside the range gives the nearest
end of it, and what is no number gives zero. -/
def toInt64 : Double → Int64
  | .nan => 0
  | .infinite negative => if negative then Int64.minValue else Int64.maxValue
  | .finite negative rank =>
    Int64.ofInt (max Int64.minValue.toInt
      (min Int64.maxValue.toInt (signedInt negative (units rank / unitsPerOne))))

/-- Comparison with an integer of 64 bits by way of the cut, which has to cut nothing off. -/
def equalsInt64 (x : Double) (n : Int64) : Bool :=
  x.fraction.sameNumber zero && (ofInt Int64.minValue.toInt).atMost x &&
    x.lessThan (ofInt Int64.maxValue.toInt) && x.toInt64 == n

section Compare

variable {x y : Double} {q p : ℚ} (first : x.value? = some q) (second : y.value? = some p)
include first second

theorem lessThan_iff : x.lessThan y ↔ q < p := by
  cases x <;> cases y <;> cases first <;> cases second
  simp [lessThan, position?, withSign_lt_iff]

theorem atMost_iff : x.atMost y ↔ q ≤ p := by
  cases x <;> cases y <;> cases first <;> cases second
  simp only [atMost, position?, decide_eq_true_eq]
  rw [← not_lt, ← not_lt, withSign_lt_iff]

end Compare

/-- A remainder is small, but it is not rounded to zero: the smallest double is nearer. -/
theorem fraction_eq_zero_iff (negative : Bool) (rank : Fin ranks) :
    (finite negative rank).fraction.sameNumber zero ↔ units rank % unitsPerOne = 0 := by
  rw [sameNumber_zero, fraction]
  have rounds := rounds_nearest negative (units rank % unitsPerOne) unitsPerOne_pos
  generalize units rank % unitsPerOne = rest at rounds ⊢
  constructor
  · intro nought
    by_contra positive
    have one : units 1 ≤ rest := Nat.one_le_iff_ne_zero.2 positive
    have le : magnitude 1 ≤ |withSign negative ((rest : ℚ) / unitsPerOne)| := by
      rw [abs_withSign, abs_of_nonneg (div_nonneg (Nat.cast_nonneg _) unitsPerOne_cast_pos.le)]
      exact div_le_div_of_nonneg_right (Nat.cast_le.2 one) unitsPerOne_cast_pos.le
    have bound := rounds.le_abs nought (fun sign => ⟨.finite sign ⟨1, by decide⟩, rfl⟩) le
    rw [abs_zero, ← magnitude_zero] at bound
    exact absurd bound (not_le.2 (magnitude_strictMono Nat.one_pos))
  · rintro rfl
    rw [Nat.cast_zero, zero_div, withSign_zero] at rounds
    exact rounds.value_eq (show value? zero = some 0 from congrArg some magnitude_zero)

theorem magnitude_twoPow63 : magnitude (1086 * binade) = (2 ^ 63 : ℕ) :=
  (magnitude_eq_iff _ _).2 (by decide +kernel)

/-- The lower end of the range is a double. -/
theorem value?_minValue : (ofInt Int64.minValue.toInt).value? = some ((-2 ^ 63 : ℤ) : ℚ) := by
  have same : ofInt Int64.minValue.toInt = .finite true ⟨1086 * binade, by decide⟩ := by
    decide +kernel
  rw [same, value?, magnitude_twoPow63]
  norm_num [withSign]

/-- The upper end lies between doubles and is rounded up. -/
theorem value?_maxValue : (ofInt Int64.maxValue.toInt).value? = some ((2 ^ 63 : ℤ) : ℚ) := by
  have same : ofInt Int64.maxValue.toInt = .finite false ⟨1086 * binade, by decide⟩ := by
    decide +kernel
  rw [same, value?, magnitude_twoPow63]
  norm_num [withSign]

/-- The guards let the integers of 64 bits pass, and these are cut to themselves. -/
theorem equalsInt64_integer {negative : Bool} {rank : Fin ranks} {k : Int}
    (whole : toInt? (.finite negative rank) = some k) (n : Int64) :
    equalsInt64 (.finite negative rank) n ↔ k = n.toInt := by
  have integral : units rank % unitsPerOne = 0 := by
    by_contra part
    rw [toInt?, if_neg part] at whole
    cases whole
  have size : signedInt negative (units rank / unitsPerOne) = k := by
    rw [toInt?, if_pos integral] at whole
    exact Option.some.inj whole
  have value := toInt?_eq_some_iff.1 whole
  have lower := (atMost_iff value?_minValue value).trans Int.cast_le
  have upper := (lessThan_iff value value?_maxValue).trans Int.cast_lt
  have cut : toInt64 (.finite negative rank) = Int64.ofInt (max (-2 ^ 63) (min (2 ^ 63 - 1) k)) := by
    rw [toInt64, size, Int64.toInt_minValue, Int64.toInt_maxValue]
  have least := n.le_toInt
  have greatest := n.toInt_lt
  simp only [equalsInt64, Bool.and_eq_true, lower, upper, (fraction_eq_zero_iff negative rank).2 integral,
    true_and, beq_iff_eq, cut]
  constructor
  · rintro ⟨⟨above, below⟩, same⟩
    rw [min_eq_right (by omega), max_eq_right (by omega)] at same
    rw [← same, Int64.toInt_ofInt_of_le above below]
  · rintro rfl
    refine ⟨⟨least, greatest⟩, ?_⟩
    rw [min_eq_right (by omega), max_eq_right (by omega), Int64.ofInt_toInt]

theorem equalsInt64_iff (x : Double) (n : Int64) :
    x.equalsInt64 n ↔ x.value? = some (n.toInt : ℚ) := by
  cases x with
  | nan => simp [equalsInt64, fraction, sameNumber, value?]
  | infinite negative => simp [equalsInt64, fraction, sameNumber, value?]
  | finite negative rank =>
    rw [← toInt?_eq_some_iff]
    cases whole : toInt? (.finite negative rank) with
    | some k => rw [equalsInt64_integer whole, Option.some.injEq]
    | none =>
      have part : ¬units rank % unitsPerOne = 0 := by
        intro integral
        rw [toInt?, if_pos integral] at whole
        cases whole
      have guarded := mt (fraction_eq_zero_iff negative rank).1 part
      simp [equalsInt64, guarded]

end Double

end WideColumn
