import WideColumn.Double.Text
import WideColumn.Proofs.Double.Nearest

/-! The shortest digits of a double are in its reach, whichever grid they were found on: a
point of a grid is only taken where it is in reach, and on the last grid lies the double
itself. Of an integral double they have no fraction. -/
namespace WideColumn

namespace Decimal

/-- The fraction that the decimal denotes is `numerator / denominator`. -/
def numerator (d : Decimal) : Nat := d.coefficient * 10 ^ d.exponent.toNat

def denominator (d : Decimal) : Nat := 10 ^ (-d.exponent).toNat

theorem denominator_pos (d : Decimal) : 0 < d.denominator := Nat.pow_pos (by decide)

theorem denominator_whole {d : Decimal} (whole : 0 ≤ d.exponent) : d.denominator = 1 := by
  have none : (-d.exponent).toNat = 0 := by omega
  rw [denominator, none, Nat.pow_zero]

/-- The decimal is the double of this rank itself, and not only in its reach. -/
def Denotes (d : Decimal) (rank : Nat) : Prop :=
  Double.units rank * d.denominator = d.numerator * Double.unitsPerOne

end Decimal

namespace Double

theorem unitsPerOne_eq : unitsPerOne = 2 ^ 1074 := by decide +kernel

theorem unitsPerOne_pos : 0 < unitsPerOne := by decide +kernel

theorem two_pow_add (n : Nat) : 2 ^ (1074 + n) = unitsPerOne * 2 ^ n := by
  rw [unitsPerOne_eq, pow_add]

theorem unitsPerOne_split (fine : n ≤ 1074) : unitsPerOne = 2 ^ (1074 - n) * 2 ^ n := by
  rw [unitsPerOne_eq, ← pow_add, Nat.sub_add_cancel fine]

theorem ten_pow_1074 : 10 ^ 1074 = Nat.pow 5 1074 * unitsPerOne := by decide +kernel

/-- The double is strictly inside its reach. -/
theorem reach_low_lt (nonzero : rank ≠ 0) : (reach rank).low < (reach rank).middle := by
  have positive := significand_pos nonzero
  apply Nat.mul_lt_mul_of_pos_right _ (Nat.two_pow_pos _)
  split <;> omega

theorem reach_lt_high (rank : Nat) : (reach rank).middle < (reach rank).high :=
  Nat.mul_lt_mul_of_pos_right (by omega) (Nat.two_pow_pos _)

theorem Reach.within_iff {r : Reach} :
    (if r.closed then decide (a ≤ b) else decide (a < b)) = true ↔ r.Within a b := by
  cases shut : r.closed <;> simp [Within, shut, Nat.le_iff_lt_or_eq]

/-- How far apart the points of a grid are, in quarters of a unit. -/
def gridStep (exponent : Int) : Nat := 10 ^ exponent.toNat * (4 * unitsPerOne)

theorem gridStep_pos (exponent : Int) : 0 < gridStep exponent :=
  Nat.mul_pos (Nat.pow_pos (by decide)) (Nat.mul_pos (by decide) unitsPerOne_pos)

/-- The neighbour on a grid that is not above the double. -/
def gridBelow (r : Reach) (exponent : Int) : Nat :=
  r.middle * 10 ^ (-exponent).toNat / gridStep exponent

theorem gridPoint?_ne_none {r : Reach}
    (down : r.Within (r.low * 10 ^ (-exponent).toNat) (gridBelow r exponent * gridStep exponent)) :
    gridPoint? tie r exponent ≠ none := by
  intro missing
  simp only [gridPoint?, Nat.pow_eq] at missing
  split at missing
  · next shut _ =>
    cases shut.symm.trans (Reach.within_iff.2 down)
  · cases missing
  · cases missing
  · split at missing
    · cases missing
    · split at missing <;> cases missing

/-- The two neighbours on a grid, each taken only if it is in reach. -/
theorem gridPoint?_cases {r : Reach} (found : gridPoint? tie r exponent = some coefficient) :
    (coefficient = gridBelow r exponent ∧
        r.Within (r.low * 10 ^ (-exponent).toNat) (coefficient * gridStep exponent)) ∨
      (coefficient = gridBelow r exponent + 1 ∧
        r.Within (coefficient * gridStep exponent) (r.high * 10 ^ (-exponent).toNat)) := by
  simp only [gridPoint?, Nat.pow_eq] at found
  split at found
  · cases found
  · next down _ =>
    cases found
    exact .inl ⟨rfl, Reach.within_iff.1 down⟩
  · next _ up =>
    cases found
    exact .inr ⟨rfl, Reach.within_iff.1 up⟩
  · next down up =>
    -- with both in reach the nearer one is taken, and at a tie either may be
    have either : coefficient = gridBelow r exponent ∨ coefficient = gridBelow r exponent + 1 := by
      split at found
      · cases found
        exact .inl rfl
      · split at found
        · cases found
          exact .inr rfl
        · cases found
          cases tie
          · exact .inr rfl
          · simp only [TieRule.choose, gridBelow, gridStep]
            omega
    rcases either with rfl | rfl
    · exact .inl ⟨rfl, Reach.within_iff.1 down⟩
    · exact .inr ⟨rfl, Reach.within_iff.1 up⟩

theorem Reach.contains_of_scaled {r : Reach} {d : Decimal}
    (low : r.Within (r.low * d.denominator) (d.coefficient * gridStep d.exponent))
    (high : r.Within (d.coefficient * gridStep d.exponent) (r.high * d.denominator)) :
    r.Contains d.numerator d.denominator := by
  have scaled : 4 * (d.numerator * unitsPerOne) = d.coefficient * gridStep d.exponent := by
    rw [Decimal.numerator, gridStep]
    ring
  rw [← scaled] at low high
  exact ⟨low, high⟩

/-- A point of a grid is only taken where it is in reach. -/
theorem contains_of_gridPoint? (nonzero : rank ≠ 0)
    (found : gridPoint? tie (reach rank) exponent = some coefficient) :
    (reach rank).Contains (Decimal.mk coefficient exponent).numerator
      (Decimal.mk coefficient exponent).denominator := by
  have part : 0 < 10 ^ (-exponent).toNat := Nat.pow_pos (by decide)
  have left := Nat.mul_lt_mul_of_pos_right (reach_low_lt nonzero) part
  have right := Nat.mul_lt_mul_of_pos_right (reach_lt_high rank) part
  rcases gridPoint?_cases found with ⟨lower, within⟩ | ⟨upper, within⟩
  · have under : coefficient * gridStep exponent ≤ (reach rank).middle * 10 ^ (-exponent).toNat := by
      rw [lower]
      exact Nat.div_mul_le_self _ _
    exact Reach.contains_of_scaled within (.inl (Nat.lt_of_le_of_lt under right))
  · have beyond : (reach rank).middle * 10 ^ (-exponent).toNat < coefficient * gridStep exponent := by
      rw [upper, Nat.succ_mul]
      exact Nat.lt_div_mul_add (gridStep_pos exponent)
    exact Reach.contains_of_scaled (.inl (Nat.lt_trans left beyond)) within

/-- Every double is a point of the finest grid. -/
theorem contains_of_denotes (nonzero : rank ≠ 0) (d : Decimal) (denotes : d.Denotes rank) :
    (reach rank).Contains d.numerator d.denominator := by
  have middle : (reach rank).middle * d.denominator = 4 * (d.numerator * unitsPerOne) := by
    rw [← denotes, units]
    simp only [reach]
    ring
  constructor
  · rw [← middle]
    exact .inl (Nat.mul_lt_mul_of_pos_right (reach_low_lt nonzero) d.denominator_pos)
  · rw [← middle]
    exact .inl (Nat.mul_lt_mul_of_pos_right (reach_lt_high rank) d.denominator_pos)

theorem denotes_of_power {places fives : Nat} (power : 10 ^ places = fives * unitsPerOne) (rank : Nat) :
    Decimal.Denotes ⟨units rank * fives, -(places : Int)⟩ rank := by
  have whole : (-(places : Int)).toNat = 0 := by omega
  simp only [Decimal.Denotes, Decimal.denominator, Decimal.numerator, Int.neg_neg, whole,
    Int.toNat_natCast, power, Nat.pow_zero, Nat.mul_one, Nat.mul_assoc]

theorem contains_coarsest (tie : TieRule) (nonzero : rank ≠ 0) (n : Nat) :
    (reach rank).Contains (coarsest tie rank n).numerator (coarsest tie rank n).denominator := by
  induction n with
  | zero => exact contains_of_denotes nonzero _ (denotes_of_power ten_pow_1074 rank)
  | succ n ih =>
    rw [coarsest]
    split
    · next found => exact contains_of_gridPoint? nonzero found
    · exact ih

theorem contains_zero (positive : 0 < denominator) : (reach 0).Contains 0 denominator := by
  constructor
  · exact .inr ⟨by simp [reach, significand], by simp [reach, significand]⟩
  · refine .inl ?_
    rw [high_eq, Nat.zero_mul]
    have wide := spacing_pos 0 positive
    omega

/-- The shortest digits are in reach of their double. -/
theorem contains_shortest (tie : TieRule) (rank : Nat) :
    (reach rank).Contains (shortest tie rank).numerator (shortest tie rank).denominator := by
  unfold shortest
  split
  · next zero =>
    subst zero
    exact contains_zero Nat.one_pos
  · next nonzero => exact contains_coarsest tie nonzero _

/-- The grid of the integers holds every integral double. -/
theorem gridPoint?_integral (tie : TieRule) (integral : units rank % unitsPerOne = 0)
    (nonzero : rank ≠ 0) : gridPoint? tie (reach rank) 0 ≠ none := by
  have step : gridStep 0 = 4 * unitsPerOne := by
    rw [gridStep, Int.toNat_zero, Nat.pow_zero, Nat.one_mul]
  have whole : gridBelow (reach rank) 0 * gridStep 0 = (reach rank).middle := by
    rw [gridBelow, step, Int.neg_zero, Int.toNat_zero, Nat.pow_zero, Nat.mul_one]
    apply Nat.div_mul_cancel
    rw [reach, Nat.mul_assoc]
    exact Nat.mul_dvd_mul_left 4 (Nat.dvd_of_mod_eq_zero integral)
  apply gridPoint?_ne_none
  rw [whole, Int.neg_zero, Int.toNat_zero, Nat.pow_zero, Nat.mul_one]
  exact .inl (reach_low_lt nonzero)

theorem exponent_coarsest (tie : TieRule) (integral : units rank % unitsPerOne = 0)
    (nonzero : rank ≠ 0) (n : Nat) : 0 ≤ (coarsest tie rank (1074 + n)).exponent := by
  induction n with
  | zero =>
    rw [Nat.add_zero, coarsest]
    split
    · exact Int.le_refl 0
    · next missing => exact absurd missing (gridPoint?_integral tie integral nonzero)
  | succ n ih =>
    rw [← Nat.add_assoc, coarsest]
    split
    · show (0 : Int) ≤ (1074 + n + 1 : Nat) - 1074
      omega
    · exact ih

theorem exponent_shortest (tie : TieRule) (integral : units rank % unitsPerOne = 0) :
    0 ≤ (shortest tie rank).exponent := by
  unfold shortest
  split
  · exact Int.le_refl 0
  · next nonzero => exact exponent_coarsest tie integral nonzero 309

/-! Which integers are in reach of which doubles. -/

theorem units_lt (rank : Nat) : units rank < 2 ^ 53 * 2 ^ scale rank :=
  Nat.mul_lt_mul_of_pos_right (significand_lt rank) (Nat.two_pow_pos _)

theorem le_units (coarse : scale rank ≠ 0) : 2 ^ 52 * 2 ^ scale rank ≤ units rank :=
  Nat.mul_le_mul_right _ (binade_le_significand coarse)

/-- The size of a double gives its spacing. -/
theorem scale_le_iff : scale rank ≤ 1074 + n ↔ units rank < 2 ^ 53 * (unitsPerOne * 2 ^ n) := by
  rw [← two_pow_add]
  constructor
  · intro fine
    have spacing : 2 ^ scale rank ≤ 2 ^ (1074 + n) := Nat.pow_le_pow_right (by decide) fine
    exact Nat.lt_of_lt_of_le (units_lt rank) (Nat.mul_le_mul_left _ spacing)
  · intro small
    refine Nat.le_of_not_lt fun coarse => ?_
    have spacing : 2 ^ (1074 + n + 1) ≤ 2 ^ scale rank := Nat.pow_le_pow_right (by decide) coarse
    have large := le_units (show scale rank ≠ 0 by omega)
    rw [Nat.pow_succ] at spacing
    omega

theorem scale_le_1074_iff : scale rank ≤ 1074 ↔ units rank < 2 ^ 53 * unitsPerOne := by
  simpa using scale_le_iff (n := 0)

theorem scale_le_1084_iff : scale rank ≤ 1084 ↔ units rank < 2 ^ 63 * unitsPerOne := by
  have size : 2 ^ 53 * (unitsPerOne * 2 ^ 10) = 2 ^ 63 * unitsPerOne := by ring
  rw [← size]
  exact scale_le_iff (n := 10)

theorem integral_of_large (large : 2 ^ 53 * unitsPerOne ≤ units rank) :
    units rank % unitsPerOne = 0 := by
  have coarse : ¬scale rank ≤ 1074 := fun fine => Nat.not_lt.2 large (scale_le_1074_iff.1 fine)
  obtain ⟨n, same⟩ := Nat.exists_eq_add_of_le (Nat.le_of_not_le coarse)
  rw [units, Nat.pow_eq, same, two_pow_add, Nat.mul_left_comm, Nat.mul_mod_right]

theorem le_of_near {a b spacing : Nat} (positive : 0 < spacing)
    (near : 4 * (a * spacing) ≤ 4 * (b * spacing) + 2 * spacing) : a ≤ b := by
  refine Nat.le_of_not_lt fun beyond => ?_
  have far := Nat.mul_le_mul_right spacing beyond
  rw [Nat.succ_mul] at far
  omega

/-- Where the spacing is one at most, only the double itself is an integer in its reach. -/
theorem eq_of_contains (reads : (reach rank).Contains n 1) (fine : scale rank ≤ 1074) :
    units rank = n * unitsPerOne := by
  obtain ⟨low, high⟩ := reads.near
  have few := below_mul_le rank (spacing rank 1)
  have positive : 0 < 2 ^ scale rank := Nat.two_pow_pos _
  have whole : n * unitsPerOne = n * 2 ^ (1074 - scale rank) * 2 ^ scale rank := by
    rw [unitsPerOne_split fine, Nat.mul_assoc]
  rw [whole] at low high ⊢
  simp only [spacing, Nat.one_mul] at low high few
  have same : significand rank = n * 2 ^ (1074 - scale rank) :=
    Nat.le_antisymm (le_of_near positive (by omega)) (le_of_near positive high)
  rw [← same, units, Nat.pow_eq]

theorem le_of_contains (reads : (reach rank).Contains n 1) (fine : scale rank ≤ 1074 + m) :
    4 * n ≤ (4 * significand rank + 2) * 2 ^ m := by
  have spacing : 2 ^ scale rank ≤ unitsPerOne * 2 ^ m :=
    (Nat.pow_le_pow_right (by decide) fine).trans_eq (two_pow_add m)
  refine Nat.le_of_mul_le_mul_right ?_ unitsPerOne_pos
  calc 4 * n * unitsPerOne
      ≤ (4 * significand rank + 2) * 2 ^ scale rank := by
        have high := reads.near.2
        rw [Double.spacing, Nat.one_mul] at high
        linarith
    _ ≤ (4 * significand rank + 2) * (unitsPerOne * 2 ^ m) := Nat.mul_le_mul_left _ spacing
    _ = (4 * significand rank + 2) * 2 ^ m * unitsPerOne := by ring

theorem ge_of_contains (reads : (reach rank).Contains n 1) (coarse : 1074 + m ≤ scale rank) :
    (4 * significand rank - 2) * 2 ^ m ≤ 4 * n := by
  have spacing : unitsPerOne * 2 ^ m ≤ 2 ^ scale rank :=
    (two_pow_add m).symm.trans_le (Nat.pow_le_pow_right (by decide) coarse)
  refine Nat.le_of_mul_le_mul_right ?_ unitsPerOne_pos
  calc (4 * significand rank - 2) * 2 ^ m * unitsPerOne
      = (4 * significand rank - 2) * (unitsPerOne * 2 ^ m) := by ring
    _ ≤ (4 * significand rank - 2) * 2 ^ scale rank := Nat.mul_le_mul_left _ spacing
    _ ≤ 4 * n * unitsPerOne := by
        have low := reads.near.1
        have few := below_mul_le rank (Double.spacing rank 1)
        rw [Double.spacing, Nat.one_mul] at low few
        rw [Nat.sub_mul, Nat.mul_assoc, Nat.mul_assoc]
        omega

theorem lt_of_contains (reads : (reach rank).Contains n 1) (fine : scale rank ≤ 1084) :
    n < 2 ^ 63 := by
  have count := le_of_contains (m := 10) reads fine
  have bound := significand_lt rank
  simp only [binade] at bound
  omega

/-- From `2 ^ 63` on only the first double has smaller integers in reach. -/
theorem gt_of_contains (reads : (reach rank).Contains n 1) (coarse : 1085 ≤ scale rank)
    (later : rank ≠ 1086 * binade) : 2 ^ 63 < n := by
  have parts := rank_eq rank
  have bound := binade_le_significand (show scale rank ≠ 0 by omega)
  simp only [binade] at parts bound later
  rcases Nat.eq_or_lt_of_le coarse with same | coarser
  · have count := ge_of_contains (m := 11) reads coarse
    omega
  · have count := ge_of_contains (m := 12) reads coarser
    omega

/-- The shortest digits of `2 ^ 63` denote a larger number. -/
theorem numerator_first : (shortest .up (1086 * binade)).numerator = 9223372036854776000 := by
  decide +kernel

theorem gt_of_large (reads : (reach rank).Contains (shortest .up rank).numerator 1)
    (large : 1085 ≤ scale rank) : 2 ^ 63 < (shortest .up rank).numerator := by
  by_cases first : rank = 1086 * binade
  · rw [first, numerator_first]
    decide
  · exact gt_of_contains reads large first

end Double

end WideColumn
