import WideColumn.Double.Shortest
import Mathlib.Tactic.Linarith
import Mathlib.Tactic.Ring

/-! A fraction in reach of a double is read as that double. The reach goes half a spacing to
either side, so rounding at the double's own spacing gives it back. A fraction below a power of
two is rounded at a finer spacing, and rounds up to the power, the first rank of the coarser one.
-/
namespace WideColumn.Double

theorem ranks_pos : 0 < ranks := by decide

theorem significand_lt (rank : Nat) : significand rank < 2 * binade := by
  have := Nat.mod_lt rank (show 0 < binade by decide)
  unfold significand
  split <;> omega

theorem rank_eq (rank : Nat) : scale rank * binade + significand rank = rank := by
  simp only [scale, significand, binade]
  split <;> omega

theorem binade_le_significand (coarse : scale rank ≠ 0) : binade ≤ significand rank := by
  simp only [scale, significand, binade] at *
  split <;> omega

theorem significand_pos (nonzero : rank ≠ 0) : 0 < significand rank := by
  simp only [significand, binade]
  split <;> omega

/-- Comparison as at the ends of a reach: an end itself counts when the reach is closed. -/
def Reach.Within (r : Reach) (a b : Nat) : Prop := a < b ∨ a = b ∧ r.closed = true

theorem Reach.Within.le {r : Reach} (within : r.Within a b) : a ≤ b := by
  rcases within with less | ⟨equal, _⟩ <;> omega

theorem Reach.Within.closed {r : Reach} (within : r.Within a b) (equal : a = b) : r.closed = true := by
  rcases within with less | ⟨_, closed⟩
  · omega
  · exact closed

/-- The fraction `numerator / denominator` lies in the reach. -/
structure Reach.Contains (r : Reach) (numerator denominator : Nat) : Prop where
  low : r.Within (r.low * denominator) (4 * (numerator * unitsPerOne))
  high : r.Within (4 * (numerator * unitsPerOne)) (r.high * denominator)

theorem roundHalfEven_eq (low : 2 * (m * d) ≤ 2 * n + d) (high : 2 * n ≤ 2 * (m * d) + d)
    (positive : 0 < d) (tie : 2 * (m * d) = 2 * n + d ∨ 2 * n = 2 * (m * d) + d → m % 2 = 0) :
    roundHalfEven n d = m := by
  have parts : d * (n / d) + n % d = n := Nat.div_add_mod n d
  have rest : n % d < d := Nat.mod_lt n positive
  unfold roundHalfEven
  generalize n / d = quotient at *
  generalize n % d = remainder at *
  -- the quotient is the result or its predecessor
  have above : quotient < m + 1 := Nat.lt_of_not_le fun beyond => by
    have := Nat.mul_le_mul_left d beyond
    rw [Nat.mul_add, Nat.mul_comm d m] at this
    omega
  have below : m < quotient + 2 := Nat.lt_of_not_le fun beyond => by
    have := Nat.mul_le_mul_left d beyond
    rw [Nat.mul_add, Nat.mul_comm d m] at this
    omega
  obtain rfl | rfl : m = quotient ∨ m = quotient + 1 := by omega
  · rw [Nat.mul_comm] at parts
    simp only
    split
    · rfl
    · split
      · omega
      · have := tie (by omega)
        omega
  · rw [Nat.add_mul, Nat.one_mul, Nat.mul_comm quotient d] at *
    simp only
    split
    · omega
    · split
      · rfl
      · have := tie (by omega)
        omega

/-- The spacing that `nearest` rounds at, from the size of the fraction. -/
theorem shift_eq (positive : 0 < denominator)
    (low : k = 0 ∨ binade * (denominator * 2 ^ k) ≤ total)
    (high : total < 2 * (binade * (denominator * 2 ^ k))) :
    (total / denominator).log2 - 52 = k := by
  have power : binade = 2 ^ 52 := rfl
  have above : total / denominator < 2 ^ (53 + k) := by
    rw [Nat.div_lt_iff_lt_mul positive]
    calc total < 2 * (binade * (denominator * 2 ^ k)) := high
      _ = 2 ^ (53 + k) * denominator := by rw [power, Nat.pow_add]; ring
  rcases Nat.eq_zero_or_pos (total / denominator) with zero | large
  · rcases low with rfl | low
    · rw [zero]; rfl
    · have := Nat.div_le_div_right (c := denominator) low
      rw [Nat.mul_left_comm, Nat.mul_div_cancel_left _ positive, zero] at this
      have := Nat.mul_pos (show 0 < binade by decide) (Nat.two_pow_pos k)
      omega
  · have upper := (Nat.log2_lt (by omega)).2 above
    rcases low with rfl | low
    · omega
    · have below : 2 ^ (52 + k) ≤ total / denominator := by
        rw [Nat.le_div_iff_mul_le positive]
        calc 2 ^ (52 + k) * denominator = binade * (denominator * 2 ^ k) := by
              rw [power, Nat.pow_add]; ring
          _ ≤ total := low
      have lower := (Nat.le_log2 (by omega)).2 below
      omega

def spacing (rank denominator : Nat) : Nat := denominator * 2 ^ scale rank

theorem spacing_pos (rank : Nat) (positive : 0 < denominator) : 0 < spacing rank denominator :=
  Nat.mul_pos positive (Nat.two_pow_pos _)

/-- How far the reach goes down, in quarters of the spacing. -/
def below (rank : Nat) : Nat := if significand rank = binade ∧ scale rank ≠ 0 then 1 else 2

theorem below_mul_le (rank n : Nat) : below rank * n ≤ 2 * n := by
  apply Nat.mul_le_mul_right
  unfold below
  split <;> omega

theorem low_add_below (rank denominator : Nat) :
    4 * (significand rank * spacing rank denominator) ≤
      (reach rank).low * denominator + below rank * spacing rank denominator := by
  have cut : 4 * significand rank ≤ 4 * significand rank - below rank + below rank := by omega
  calc 4 * (significand rank * spacing rank denominator)
      = 4 * significand rank * spacing rank denominator := by ring
    _ ≤ (4 * significand rank - below rank + below rank) * spacing rank denominator :=
        Nat.mul_le_mul_right _ cut
    _ = (4 * significand rank - below rank) * 2 ^ scale rank * denominator +
          below rank * spacing rank denominator := by unfold spacing; ring

theorem high_eq (rank denominator : Nat) :
    (reach rank).high * denominator =
      4 * (significand rank * spacing rank denominator) + 2 * spacing rank denominator := by
  simp only [reach, spacing, Nat.pow_eq]
  ring

namespace Reach.Contains

variable {numerator denominator rank : Nat}

theorem near (reads : (reach rank).Contains numerator denominator) :
    4 * (significand rank * spacing rank denominator) ≤
        4 * (numerator * unitsPerOne) + below rank * spacing rank denominator ∧
      4 * (numerator * unitsPerOne) ≤
        4 * (significand rank * spacing rank denominator) + 2 * spacing rank denominator := by
  have low := reads.low.le
  have high := reads.high.le
  have cut := low_add_below rank denominator
  rw [high_eq] at high
  exact ⟨by omega, high⟩

/-- Half a spacing away there are two neighbours, and the one in whose reach this is is even. -/
theorem even (reads : (reach rank).Contains numerator denominator)
    (tie : 4 * (significand rank * spacing rank denominator) =
        4 * (numerator * unitsPerOne) + 2 * spacing rank denominator ∨
      4 * (numerator * unitsPerOne) =
        4 * (significand rank * spacing rank denominator) + 2 * spacing rank denominator) :
    significand rank % 2 = 0 := by
  have closed : (reach rank).closed = true := by
    rcases tie with low | high
    · have cut := low_add_below rank denominator
      have few := below_mul_le rank (spacing rank denominator)
      have end_le := reads.low.le
      exact reads.low.closed (by omega)
    · exact reads.high.closed (by rw [high_eq]; omega)
  simpa [reach] using closed

theorem round (reads : (reach rank).Contains numerator denominator) (positive : 0 < denominator) :
    roundHalfEven (numerator * unitsPerOne) (spacing rank denominator) = significand rank := by
  obtain ⟨low, high⟩ := reads.near
  have few := below_mul_le rank (spacing rank denominator)
  apply roundHalfEven_eq (by omega) (by omega) (spacing_pos rank positive)
  intro tie
  exact reads.even (by omega)

/-- Only a power of two has something in reach that is below its spacing's first rank. -/
theorem power (reads : (reach rank).Contains numerator denominator) (coarse : scale rank ≠ 0)
    (short : numerator * unitsPerOne < binade * spacing rank denominator) :
    significand rank = binade := by
  refine Nat.le_antisymm (Nat.le_of_not_lt fun beyond => ?_) (binade_le_significand coarse)
  have above := Nat.mul_le_mul_right (spacing rank denominator) beyond
  rw [Nat.succ_mul] at above
  have few := below_mul_le rank (spacing rank denominator)
  have low := reads.near.1
  omega

theorem numerator_lt (reads : (reach rank).Contains numerator denominator)
    (positive : 0 < denominator) :
    numerator * unitsPerOne < 2 * (binade * spacing rank denominator) := by
  have bound := Nat.mul_le_mul_right (spacing rank denominator) (significand_lt rank)
  rw [Nat.succ_mul, Nat.mul_assoc] at bound
  have high := reads.near.2
  have wide := spacing_pos rank positive
  omega

/-- Rounding at the spacing chosen by size. -/
theorem nearest_rank (reads : (reach rank).Contains numerator denominator)
    (positive : 0 < denominator) :
    ((numerator * unitsPerOne / denominator).log2 - 52) * binade +
      roundHalfEven (numerator * unitsPerOne)
        (denominator * 2 ^ ((numerator * unitsPerOne / denominator).log2 - 52)) = rank := by
  by_cases inside : scale rank = 0 ∨ binade * spacing rank denominator ≤ numerator * unitsPerOne
  · have round := reads.round positive
    rw [spacing] at round
    rw [shift_eq positive inside (reads.numerator_lt positive), round]
    exact rank_eq rank
  · -- just below a power of two, where the spacing is half of the double's own
    obtain ⟨coarse, short⟩ := not_or.1 inside
    have power := reads.power coarse (Nat.lt_of_not_le short)
    have low := reads.near.1
    obtain ⟨finer, same⟩ := Nat.exists_eq_succ_of_ne_zero coarse
    have double : spacing rank denominator = 2 * (denominator * 2 ^ finer) := by
      rw [spacing, same, Nat.pow_succ]; ring
    have product : binade * spacing rank denominator =
        2 * (binade * (denominator * 2 ^ finer)) := by rw [double, Nat.mul_left_comm]
    have quarter : below rank = 1 := by simp [below, power, coarse]
    rw [quarter, power, product, double] at low
    rw [product] at short
    have wide : 0 < denominator * 2 ^ finer := Nat.mul_pos positive (Nat.two_pow_pos _)
    have many : denominator * 2 ^ finer ≤ binade * (denominator * 2 ^ finer) :=
      Nat.le_mul_of_pos_left _ (by decide)
    have up : roundHalfEven (numerator * unitsPerOne) (denominator * 2 ^ finer) = 2 * binade := by
      refine roundHalfEven_eq ?_ ?_ wide fun _ => by decide
      all_goals rw [Nat.mul_assoc]; omega
    have shift : (numerator * unitsPerOne / denominator).log2 - 52 = finer :=
      shift_eq positive (.inr (by omega)) (by omega)
    have whole := rank_eq rank
    rw [same, power, Nat.succ_mul] at whole
    rw [shift, up, ← whole, Nat.two_mul, Nat.add_assoc]

end Reach.Contains

/-- A fraction in reach of a double is read as that double. -/
theorem nearest_of_contains {rank : Fin ranks}
    (reads : (reach rank).Contains numerator denominator) (positive : 0 < denominator) :
    nearest negative numerator denominator = .finite negative rank := by
  simp only [nearest, Nat.pow_eq, reads.nearest_rank positive, rank.isLt, dite_true]

end WideColumn.Double
