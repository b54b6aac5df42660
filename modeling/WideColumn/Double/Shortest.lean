import WideColumn.Double

/-! The fewest decimal digits that read back as a double: those of a point on the coarsest decimal
grid that has one between the midpoints around the double, and of its points the nearest one. If a
grid has such a point, one of the double's two neighbours on the grid is one. -/
namespace WideColumn

structure Decimal where
  coefficient : Nat
  exponent : Int
  deriving DecidableEq, Repr

inductive TieRule where
  | up
  | toEven
  deriving DecidableEq, Repr

namespace Double

/-- The fractions that read back as one double, in quarters of a unit. -/
structure Reach where
  low : Nat
  middle : Nat
  high : Nat
  closed : Bool

def reach (rank : Nat) : Reach :=
  let s := significand rank
  let gap := Nat.pow 2 (scale rank)
  let below := if s = binade ∧ scale rank ≠ 0 then 1 else 2
  ⟨(4 * s - below) * gap, 4 * s * gap, (4 * s + 2) * gap, s % 2 = 0⟩

def TieRule.choose (tie : TieRule) (lower : Nat) : Nat :=
  match tie with
  | .up => lower + 1
  | .toEven => lower + lower % 2

/-- The point of the grid `10 ^ exponent` that is in reach and nearest to the middle. -/
def gridPoint? (tie : TieRule) (r : Reach) (exponent : Int) : Option Nat :=
  let step := Nat.pow 10 exponent.toNat * (4 * unitsPerOne)
  let part := Nat.pow 10 (-exponent).toNat
  let lower := r.middle * part / step
  let reaches (a b : Nat) : Bool := if r.closed then a ≤ b else a < b
  let down := reaches (r.low * part) (lower * step)
  let up := reaches ((lower + 1) * step) (r.high * part)
  let rest := 2 * (r.middle * part % step)
  match down, up with
  | false, false => none
  | true, false => some lower
  | false, true => some (lower + 1)
  | true, true =>
    if rest < step then some lower
    else if step < rest then some (lower + 1)
    else some (TieRule.choose tie lower)

/-- Tries the grids `10 ^ (n - 1074)` for falling `n`. Every double is on the grid of `n = 0`. -/
def coarsest (tie : TieRule) (rank : Nat) : Nat → Decimal
  | 0 => ⟨units rank * Nat.pow 5 1074, -1074⟩
  | n + 1 =>
    let exponent : Int := (n + 1 : Nat) - 1074
    match gridPoint? tie (reach rank) exponent with
    | some coefficient => ⟨coefficient, exponent⟩
    | none => coarsest tie rank n

def shortest (tie : TieRule) (rank : Nat) : Decimal :=
  if rank = 0 then ⟨0, 0⟩ else coarsest tie rank (1074 + 309)

end Double

end WideColumn
