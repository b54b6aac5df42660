import WideColumn.Proofs.Double.Shortest
import Mathlib.Algebra.Order.Field.Rat
import Mathlib.Tactic.FieldSimp
import Mathlib.Tactic.NormNum

/-! `nearest` rounds to the nearest double. The reaches of the ranks meet: where one ends the next
begins, and of the two the one with the even significand has the common end. So every fraction
is in reach of some rank, which is the one that `nearest` computes, and every other double is
further away or as far and odd. -/
namespace WideColumn.Double

section Neighbours

/-- The next rank has the next significand, or it is the first of the next spacing. -/
theorem next_rank (rank : Nat) :
    scale (rank + 1) = scale rank ∧ significand (rank + 1) = significand rank + 1 ∨
      scale (rank + 1) = scale rank + 1 ∧ significand (rank + 1) = binade ∧
        significand rank + 1 = 2 * binade := by
  simp only [scale, significand, binade]
  split <;> split <;> omega

theorem units_succ (rank : Nat) : units (rank + 1) = units rank + 2 ^ scale rank := by
  simp only [units, Nat.pow_eq]
  rcases next_rank rank with ⟨sameScale, next⟩ | ⟨nextScale, first, last⟩
  · rw [sameScale, next, Nat.succ_mul]
  · rw [nextScale, first, ← Nat.succ_mul, Nat.succ_eq_add_one, last, Nat.pow_succ]
    ring

theorem units_strictMono : StrictMono units :=
  strictMono_nat_of_lt_succ fun rank => by
    rw [units_succ]
    exact Nat.lt_add_of_pos_right (Nat.two_pow_pos _)

/-- A reach ends half-way to the next double. -/
theorem reach_high (rank : Nat) : (reach rank).high = 2 * (units rank + units (rank + 1)) := by
  rw [units_succ]
  simp only [reach, units, Nat.pow_eq]
  ring

/-- And there the next reach begins. -/
theorem reach_low_succ (rank : Nat) : (reach (rank + 1)).low = (reach rank).high := by
  simp only [reach, Nat.pow_eq]
  rcases next_rank rank with ⟨sameScale, next⟩ | ⟨nextScale, first, last⟩
  · have inside : ¬(significand rank + 1 = binade ∧ scale rank ≠ 0) := by
      rintro ⟨full, coarse⟩
      have := binade_le_significand coarse
      omega
    rw [sameScale, next, if_neg inside]
    congr 1
  · rw [nextScale, first, if_pos ⟨rfl, Nat.succ_ne_zero _⟩, Nat.pow_succ, Nat.mul_comm _ 2,
      ← Nat.mul_assoc]
    congr 1
    omega

theorem reach_closed_succ (rank : Nat) : (reach (rank + 1)).closed = !(reach rank).closed := by
  simp only [reach, ← decide_not, decide_eq_decide]
  rcases next_rank rank with ⟨-, next⟩ | ⟨-, first, last⟩
  · omega
  · simp only [binade] at *
    omega

theorem reach_low_zero : (reach 0).low = 0 := by decide

theorem reach_low_strictMono : StrictMono fun rank => (reach rank).low :=
  strictMono_nat_of_lt_succ fun rank => by
    show (reach rank).low < (reach (rank + 1)).low
    rw [reach_low_succ]
    refine Nat.lt_of_le_of_lt ?_ (reach_lt_high rank)
    by_cases zero : rank = 0
    · rw [zero, reach_low_zero]
      exact Nat.zero_le _
    · exact Nat.le_of_lt (reach_low_lt zero)

end Neighbours

section Covering

variable {numerator denominator : Nat} (positive : 0 < denominator)
include positive

/-- The first reach that does not end below a fraction has the fraction. -/
theorem exists_contains (numerator : Nat) :
    ∃ rank, (reach rank).Contains numerator denominator := by
  classical
  have ends : ∃ rank, (reach rank).Within (4 * (numerator * unitsPerOne))
      ((reach rank).high * denominator) := by
    refine ⟨4 * (numerator * unitsPerOne), .inl ?_⟩
    have far := units_strictMono.id_le (4 * (numerator * unitsPerOne) + 1)
    rw [reach_high]
    calc 4 * (numerator * unitsPerOne)
        < 2 * (units _ + units (4 * (numerator * unitsPerOne) + 1)) := by
          simp only [id] at far
          omega
      _ ≤ _ := Nat.le_mul_of_pos_right _ positive
  obtain ⟨rank, here, earlier⟩ : ∃ rank, (reach rank).Within (4 * (numerator * unitsPerOne))
      ((reach rank).high * denominator) ∧ ∀ before < rank,
        ¬(reach before).Within (4 * (numerator * unitsPerOne))
          ((reach before).high * denominator) :=
    ⟨Nat.find ends, Nat.find_spec ends, fun _ => Nat.find_min ends⟩
  refine ⟨rank, ?_, here⟩
  cases rank with
  | zero =>
    rw [reach_low_zero, Nat.zero_mul]
    exact (Nat.eq_zero_or_pos _).elim (fun none => .inr ⟨none.symm, rfl⟩) .inl
  | succ before =>
    have not_before := earlier before (Nat.lt_succ_self before)
    rw [reach_low_succ]
    rcases Nat.lt_or_ge ((reach before).high * denominator) (4 * (numerator * unitsPerOne)) with
      above | le
    · exact .inl above
    · have equal : 4 * (numerator * unitsPerOne) = (reach before).high * denominator :=
        (Nat.eq_or_lt_of_le le).resolve_right fun less => not_before (.inl less)
      refine .inr ⟨equal.symm, ?_⟩
      rw [reach_closed_succ, Bool.not_eq_true']
      exact Bool.eq_false_of_not_eq_true fun closed => not_before (.inr ⟨equal, closed⟩)

/-- The rank that `nearest` computes, as long as there is one. -/
theorem nearest_eq (negative : Bool) (numerator : Nat) :
    ∃ rank, (reach rank).Contains numerator denominator ∧
      nearest negative numerator denominator =
        if h : rank < ranks then .finite negative ⟨rank, h⟩ else .infinite negative := by
  obtain ⟨rank, reads⟩ := exists_contains positive numerator
  refine ⟨rank, reads, ?_⟩
  simp only [nearest, Nat.pow_eq, reads.nearest_rank positive]

end Covering

/-- The first rank that is no double starts at the number that is rounded to infinity. -/
theorem reach_low_ranks : (reach ranks).low = 4 * ((2 ^ 1024 - 2 ^ 970) * unitsPerOne) := by
  decide +kernel

namespace Reach.Contains

variable {rank : Nat} (reads : (reach rank).Contains numerator denominator)
include reads

/-- The end of the last reach already belongs to the next rank, which is even. -/
theorem lt_ranks_iff (positive : 0 < denominator) :
    rank < ranks ↔ numerator * unitsPerOne < (2 ^ 1024 - 2 ^ 970) * unitsPerOne * denominator := by
  have first : (reach ranks).low * denominator =
      4 * ((2 ^ 1024 - 2 ^ 970) * unitsPerOne * denominator) := by
    rw [reach_low_ranks]
    ring
  constructor
  · intro finite
    have le := Nat.mul_le_mul_right denominator (reach_low_strictMono.monotone finite)
    simp only [Nat.succ_eq_add_one, reach_low_succ, first] at le
    rcases reads.high with less | ⟨equal, closed⟩
    · omega
    · have before : rank + 1 < ranks := by
        refine Nat.lt_of_le_of_ne finite fun last => ?_
        have parity := reach_closed_succ rank
        rw [last, closed] at parity
        exact absurd parity (by decide)
      have less := Nat.mul_lt_mul_of_pos_right (reach_low_strictMono before) positive
      simp only [reach_low_succ, first] at less
      omega
  · intro small
    by_contra beyond
    have le := Nat.mul_le_mul_right denominator
      (reach_low_strictMono.monotone (Nat.le_of_not_lt beyond))
    simp only [first] at le
    have low := reads.low.le
    omega

/-- The doubles beyond are no nearer, and one as near leaves an even significand here. -/
theorem le_midpoint (beyond : rank < other) :
    2 * numerator * unitsPerOne ≤ (units rank + units other) * denominator ∧
      (2 * numerator * unitsPerOne = (units rank + units other) * denominator →
        (reach rank).closed = true) := by
  have next := units_strictMono.monotone (Nat.succ_le_of_lt beyond)
  have wider := Nat.mul_le_mul_right denominator (Nat.add_le_add_left next (units rank))
  have high := reads.high
  simp only [reach_high, Nat.mul_assoc, Nat.succ_eq_add_one] at high wider ⊢
  refine ⟨?_, fun equal => high.closed ?_⟩
  all_goals
    have le := high.le
    omega

theorem midpoint_le (before : other < rank) :
    (units rank + units other) * denominator ≤ 2 * numerator * unitsPerOne ∧
      (2 * numerator * unitsPerOne = (units rank + units other) * denominator →
        (reach rank).closed = true) := by
  obtain ⟨last, rfl⟩ := Nat.exists_eq_succ_of_ne_zero (Nat.ne_zero_of_lt before)
  have next := units_strictMono.monotone (Nat.le_of_lt_succ before)
  have narrower := Nat.mul_le_mul_right denominator (Nat.add_le_add_left next (units (last + 1)))
  have low := reads.low
  simp only [Nat.succ_eq_add_one, reach_low_succ, reach_high, Nat.mul_assoc,
    Nat.add_comm (units last)] at low narrower ⊢
  refine ⟨?_, fun equal => low.closed ?_⟩
  all_goals
    have le := low.le
    omega

end Reach.Contains

/-- The absolute value of the double of this rank. -/
def magnitude (rank : Nat) : ℚ := units rank / unitsPerOne

def withSign (negative : Bool) (m : ℚ) : ℚ := if negative then -m else m

/-- The number that a finite double is. -/
def value? : Double → Option ℚ
  | .finite negative rank => some (withSign negative (magnitude rank))
  | _ => none

/-- From here on numbers are rounded to infinity: half-way between the last double and the
next power of two. -/
def overflow : ℚ := (2 ^ 1024 - 2 ^ 970 : ℕ)

/-- Rounding to the nearest double, and between two of them to the one with the even
significand. -/
inductive Rounds (q : ℚ) : Double → Prop where
  | finite {rank : Fin ranks} : |q| < overflow →
    (∀ other v, value? other = some v → |q - withSign negative (magnitude rank)| ≤ |q - v|) →
    (∀ other v, value? other = some v → v ≠ withSign negative (magnitude rank) →
      |q - withSign negative (magnitude rank)| = |q - v| → significand rank % 2 = 0) →
    Rounds q (.finite negative rank)
  | infinite : overflow ≤ |q| → negative = decide (q < 0) → Rounds q (.infinite negative)

section Distance

theorem unitsPerOne_cast_pos : (0 : ℚ) < unitsPerOne := Nat.cast_pos.2 unitsPerOne_pos

theorem magnitude_nonneg (rank : Nat) : 0 ≤ magnitude rank :=
  div_nonneg (Nat.cast_nonneg _) unitsPerOne_cast_pos.le

theorem magnitude_strictMono : StrictMono magnitude := fun _ _ less =>
  div_lt_div_of_pos_right (Nat.cast_lt.2 (units_strictMono less)) unitsPerOne_cast_pos

theorem magnitude_zero : magnitude 0 = 0 := by
  rw [magnitude, show units 0 = 0 from by decide, Nat.cast_zero, zero_div]

theorem closer_below {m a b : ℚ} (less : a < b) (le : 2 * m ≤ a + b) :
    |m - a| ≤ |m - b| ∧ (|m - a| = |m - b| → 2 * m = a + b) := by
  have far : |m - b| = b - m := by rw [abs_sub_comm, abs_of_nonneg (by linarith)]
  rw [far]
  refine ⟨abs_le.2 ⟨by linarith, by linarith⟩, fun equal => ?_⟩
  rcases abs_cases (m - a) with ⟨same, -⟩ | ⟨same, -⟩ <;> linarith

theorem closer_above {m a b : ℚ} (less : b < a) (le : a + b ≤ 2 * m) :
    |m - a| ≤ |m - b| ∧ (|m - a| = |m - b| → 2 * m = a + b) := by
  have far : |m - b| = m - b := abs_of_nonneg (by linarith)
  rw [far]
  refine ⟨abs_le.2 ⟨by linarith, by linarith⟩, fun equal => ?_⟩
  rcases abs_cases (m - a) with ⟨same, -⟩ | ⟨same, -⟩ <;> linarith

theorem abs_withSign_sub (negative : Bool) (a b : ℚ) :
    |withSign negative a - withSign negative b| = |a - b| := by
  cases negative
  · rfl
  · rw [withSign, withSign, if_pos rfl, if_pos rfl, neg_sub_neg, abs_sub_comm]

theorem abs_withSign_sub_not (negative : Bool) {a b : ℚ} (ha : 0 ≤ a) (hb : 0 ≤ b) :
    |withSign negative a - withSign (!negative) b| = a + b := by
  cases negative
  · simp only [withSign, Bool.not_false, if_true, Bool.false_eq_true, if_false, sub_neg_eq_add]
    exact abs_of_nonneg (add_nonneg ha hb)
  · simp only [withSign, Bool.not_true, if_true, Bool.false_eq_true, if_false]
    rw [abs_of_nonpos (by linarith)]
    ring

variable {numerator denominator : Nat}

theorem twice_eq (numerator denominator : Nat) : 2 * ((numerator : ℚ) / denominator) =
    (2 * numerator * unitsPerOne : ℕ) / ((unitsPerOne * denominator : ℕ) : ℚ) := by
  have cast := unitsPerOne_cast_pos.ne'
  rw [mul_comm (2 * numerator), Nat.cast_mul, Nat.cast_mul unitsPerOne denominator,
    mul_div_mul_left _ _ cast, Nat.cast_mul, mul_div_assoc, Nat.cast_ofNat]

variable (positive : 0 < denominator)
include positive

theorem sum_eq (a b : Nat) : magnitude a + magnitude b =
    ((units a + units b) * denominator : ℕ) / ((unitsPerOne * denominator : ℕ) : ℚ) := by
  have cast : (denominator : ℚ) ≠ 0 := Nat.cast_ne_zero.2 (Nat.ne_zero_of_lt positive)
  rw [Nat.cast_mul, Nat.cast_mul, mul_div_mul_right _ _ cast, Nat.cast_add, add_div]
  rfl

theorem scaled_pos : (0 : ℚ) < (unitsPerOne * denominator : ℕ) :=
  Nat.cast_pos.2 (Nat.mul_pos unitsPerOne_pos positive)

theorem twice_le_iff (a b : Nat) : 2 * ((numerator : ℚ) / denominator) ≤ magnitude a + magnitude b ↔
    2 * numerator * unitsPerOne ≤ (units a + units b) * denominator := by
  rw [twice_eq, sum_eq positive, div_le_div_iff_of_pos_right (scaled_pos positive), Nat.cast_le]

theorem le_twice_iff (a b : Nat) : magnitude a + magnitude b ≤ 2 * ((numerator : ℚ) / denominator) ↔
    (units a + units b) * denominator ≤ 2 * numerator * unitsPerOne := by
  rw [twice_eq, sum_eq positive, div_le_div_iff_of_pos_right (scaled_pos positive), Nat.cast_le]

theorem twice_eq_iff (a b : Nat) : 2 * ((numerator : ℚ) / denominator) = magnitude a + magnitude b ↔
    2 * numerator * unitsPerOne = (units a + units b) * denominator := by
  rw [twice_eq, sum_eq positive, div_left_inj' (scaled_pos positive).ne', Nat.cast_inj]

variable {rank : Nat} (reads : (reach rank).Contains numerator denominator)
include reads

/-- No rank has a magnitude nearer to the fraction than the one that has it in reach. -/
theorem nearest_magnitude (other : Nat) :
    |(numerator : ℚ) / denominator - magnitude rank| ≤
        |(numerator : ℚ) / denominator - magnitude other| ∧
      (other ≠ rank →
        |(numerator : ℚ) / denominator - magnitude rank| =
          |(numerator : ℚ) / denominator - magnitude other| →
        significand rank % 2 = 0) := by
  have even (closed : (reach rank).closed = true) : significand rank % 2 = 0 := by
    simpa [reach] using closed
  rcases Nat.lt_trichotomy rank other with beyond | rfl | before
  · obtain ⟨le, tie⟩ := reads.le_midpoint beyond
    obtain ⟨near, middle⟩ :=
      closer_below (magnitude_strictMono beyond) ((twice_le_iff positive rank other).2 le)
    exact ⟨near, fun _ same => even (tie ((twice_eq_iff positive rank other).1 (middle same)))⟩
  · exact ⟨le_rfl, fun apart => absurd rfl apart⟩
  · obtain ⟨le, tie⟩ := reads.midpoint_le before
    obtain ⟨near, middle⟩ :=
      closer_above (magnitude_strictMono before) ((le_twice_iff positive rank other).2 le)
    exact ⟨near, fun _ same => even (tie ((twice_eq_iff positive rank other).1 (middle same)))⟩

theorem lt_ranks_iff_overflow : rank < ranks ↔ (numerator : ℚ) / denominator < overflow := by
  have cast : (0 : ℚ) < denominator := Nat.cast_pos.2 positive
  rw [reads.lt_ranks_iff positive, Nat.mul_right_comm, Nat.mul_lt_mul_right unitsPerOne_pos,
    div_lt_iff₀ cast, overflow, ← Nat.cast_mul, Nat.cast_lt]

end Distance

theorem abs_withSign (negative : Bool) (m : ℚ) : |withSign negative m| = |m| := by
  cases negative
  · rfl
  · exact abs_neg m

theorem withSign_zero (negative : Bool) : withSign negative 0 = 0 := by
  cases negative
  · rfl
  · exact neg_zero

section Signs

variable {m : ℚ} {rank : Nat} (nonneg : 0 ≤ m)
  (closest : ∀ other, |m - magnitude rank| ≤ |m - magnitude other| ∧
    (other ≠ rank → |m - magnitude rank| = |m - magnitude other| → significand rank % 2 = 0))
include nonneg closest

/-- A double of the other sign is no nearer than zero. -/
theorem near_zero : |m - magnitude rank| ≤ m := by
  have zero := (closest 0).1
  rwa [magnitude_zero, sub_zero, abs_of_nonneg nonneg] at zero

theorem closest_withSign (negative sign : Bool) (other : Nat) :
    |withSign negative m - withSign negative (magnitude rank)| ≤
      |withSign negative m - withSign sign (magnitude other)| := by
  rw [abs_withSign_sub]
  by_cases same : sign = negative
  · rw [same, abs_withSign_sub]
    exact (closest other).1
  · rw [Bool.eq_not_of_ne same, abs_withSign_sub_not negative nonneg (magnitude_nonneg other)]
    have zero := near_zero nonneg closest
    have := magnitude_nonneg other
    linarith

theorem even_withSign (negative sign : Bool) (other : Nat)
    (apart : withSign sign (magnitude other) ≠ withSign negative (magnitude rank))
    (tie : |withSign negative m - withSign negative (magnitude rank)| =
      |withSign negative m - withSign sign (magnitude other)|) : significand rank % 2 = 0 := by
  rw [abs_withSign_sub] at tie
  by_cases same : sign = negative
  · rw [same, abs_withSign_sub] at tie
    refine (closest other).2 ?_ tie
    rintro rfl
    exact apart (by rw [same])
  · -- the other double can only be a zero
    rw [Bool.eq_not_of_ne same,
      abs_withSign_sub_not negative nonneg (magnitude_nonneg other)] at tie
    have zero := near_zero nonneg closest
    have positive := magnitude_nonneg other
    have none : magnitude other = 0 := by linarith
    refine (closest 0).2 ?_ ?_
    · rintro rfl
      exact apart (by rw [none, magnitude_zero, withSign_zero, withSign_zero])
    · rw [magnitude_zero, sub_zero, abs_of_nonneg nonneg]
      linarith

end Signs

/-- `nearest` rounds to the nearest double. -/
theorem rounds_nearest (negative : Bool) (numerator : Nat) {denominator : Nat}
    (positive : 0 < denominator) :
    Rounds (withSign negative ((numerator : ℚ) / denominator))
      (nearest negative numerator denominator) := by
  obtain ⟨rank, reads, same⟩ := nearest_eq positive negative numerator
  have fits := lt_ranks_iff_overflow positive reads
  have nonneg : 0 ≤ (numerator : ℚ) / denominator :=
    div_nonneg (Nat.cast_nonneg _) (Nat.cast_nonneg _)
  have closest := nearest_magnitude positive reads
  rw [same]
  generalize (numerator : ℚ) / denominator = m at *
  have size : |withSign negative m| = m := by rw [abs_withSign, abs_of_nonneg nonneg]
  split
  · next finite =>
    refine .finite (size.symm ▸ fits.1 finite) ?_ ?_
    · rintro (_ | _ | ⟨sign, other⟩) v ⟨⟩
      exact closest_withSign nonneg closest negative sign other
    · rintro (_ | _ | ⟨sign, other⟩) v ⟨⟩ apart tie
      exact even_withSign nonneg closest negative sign other apart tie
  · next infinite =>
    have large := not_lt.1 (mt fits.2 infinite)
    refine .infinite (size.symm ▸ large) ?_
    have positive : 0 < m := lt_of_lt_of_le (Nat.cast_pos.2 (by decide +kernel)) large
    cases negative
    · exact (decide_eq_false (not_lt.2 nonneg)).symm
    · exact (decide_eq_true (neg_neg_of_pos positive)).symm

/-! What rounding says about numbers that are doubles, integers first of all. -/

theorem abs_value_lt_overflow {x : Double} (held : x.value? = some q) : |q| < overflow := by
  rcases x with _ | _ | ⟨negative, rank⟩
  case finite =>
    obtain rfl : withSign negative (magnitude rank) = q := Option.some.inj held
    have inside := (reach_lt_high rank).trans_le (Nat.le_of_eq (reach_low_succ rank).symm)
    have below := inside.trans_le (reach_low_strictMono.monotone rank.isLt)
    have size : (reach rank).middle = 4 * units rank := Nat.mul_assoc _ _ _
    simp only [reach_low_ranks, size] at below
    rw [abs_withSign, abs_of_nonneg (magnitude_nonneg _), magnitude, overflow,
      div_lt_iff₀ unitsPerOne_cast_pos, ← Nat.cast_mul, Nat.cast_lt]
    omega
  all_goals cases held

/-- A number that is a double rounds to itself, up to the sign of zero. -/
theorem Rounds.value_eq (rounds : Rounds q x) (held : value? y = some q) : x.value? = some q := by
  cases rounds with
  | finite _ near _ =>
    have same := near y q held
    rw [sub_self, abs_zero] at same
    exact congrArg some (sub_eq_zero.1 (abs_nonpos_iff.1 same)).symm
  | infinite beyond _ => exact absurd (abs_value_lt_overflow held) (not_lt.2 beyond)

/-- Rounding does not pass a double. -/
theorem Rounds.le_abs (rounds : Rounds q x) (value : x.value? = some v)
    (bound : ∀ negative, ∃ y, value? y = some (withSign negative b)) (le : b ≤ |q|) : b ≤ |v| := by
  cases rounds with
  | infinite => cases value
  | finite _ near _ =>
    obtain rfl := Option.some.inj value
    generalize withSign _ _ = v at near ⊢
    rcases abs_cases q with ⟨same, -⟩ | ⟨same, -⟩
    · obtain ⟨y, held⟩ := bound false
      have nearer : |q - v| ≤ |q - b| := near y _ held
      rw [abs_of_nonneg (show 0 ≤ q - b by linarith)] at nearer
      have below := le_abs_self (q - v)
      exact le_trans (by linarith) (le_abs_self v)
    · obtain ⟨y, held⟩ := bound true
      have nearer : |q - v| ≤ |q - -b| := near y _ held
      rw [abs_of_nonpos (show q - -b ≤ 0 by linarith)] at nearer
      have above := neg_abs_le (q - v)
      exact le_trans (by linarith) (neg_le_abs v)

theorem magnitude_eq_iff (rank n : Nat) : magnitude rank = n ↔ units rank = n * unitsPerOne := by
  rw [magnitude, div_eq_iff unitsPerOne_cast_pos.ne', ← Nat.cast_mul, Nat.cast_inj]

/-- The small integers are doubles. -/
theorem exists_value (negative : Bool) {n : Nat} (small : n < 2 ^ 53 - 1) :
    ∃ x, value? x = some (withSign negative n) := by
  obtain ⟨rank, reads⟩ := exists_contains Nat.one_pos n
  have fine : scale rank ≤ 1074 := by
    by_contra coarse
    have count := ge_of_contains (m := 1) reads (by omega)
    have full := binade_le_significand (show scale rank ≠ 0 by omega)
    simp only [binade] at full
    omega
  have finite : rank < ranks := by
    have parts := rank_eq rank
    have few := significand_lt rank
    simp only [ranks, binade] at *
    omega
  refine ⟨.finite negative ⟨rank, finite⟩, ?_⟩
  rw [value?, (magnitude_eq_iff rank n).2 (eq_of_contains reads fine)]

end WideColumn.Double
