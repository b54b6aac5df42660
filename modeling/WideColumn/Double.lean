/-! Doubles. A finite one is represented by its rank, its place when the finite doubles of one
sign are counted upwards from zero: the first `2 ^ 53` ranks are one unit of `2 ^ -1074` apart,
and after that every `2 ^ 52` ranks the spacing doubles. Nothing is rounded but where
`roundHalfEven` stands. -/
namespace WideColumn

abbrev Double.binade : Nat := 4503599627370496

abbrev Double.ranks : Nat := 2047 * Double.binade

/-- A double-precision number. All values that are not numbers count as one. -/
inductive Double where
  | nan
  | infinite (negative : Bool)
  | finite (negative : Bool) (rank : Fin Double.ranks)
  deriving DecidableEq, Repr

namespace Double

def significand (rank : Nat) : Nat := if rank < binade then rank else binade + rank % binade

def scale (rank : Nat) : Nat := rank / binade - 1

/-- The magnitude of the double of this rank, in units of `2 ^ -1074`. -/
def units (rank : Nat) : Nat := significand rank * Nat.pow 2 (scale rank)

def unitsPerOne : Nat := Nat.pow 2 1074

def zero : Double := .finite false ⟨0, by decide⟩

def isFinite : Double → Bool
  | .finite .. => true
  | _ => false

/-- Equality of the numbers: both zeros are equal, and what is not a number equals nothing. -/
def sameNumber : Double → Double → Bool
  | .infinite a, .infinite b => a == b
  | .finite a m, .finite b n => m == n && (a == b || m.val == 0)
  | _, _ => false

def toInt? : Double → Option Int
  | .finite negative rank =>
    if units rank % unitsPerOne = 0 then
      let magnitude : Int := (units rank / unitsPerOne : Nat)
      some (if negative then -magnitude else magnitude)
    else none
  | _ => none

/-- The integer nearest to `numerator / denominator`; a half goes to the even neighbour. -/
def roundHalfEven (numerator denominator : Nat) : Nat :=
  let quotient := numerator / denominator
  let rest := 2 * (numerator % denominator)
  if rest < denominator then quotient
  else if denominator < rest then quotient + 1
  else quotient + quotient % 2

/-- The double nearest to a fraction, infinite when the fraction is too large. The spacing is
chosen from the size of the fraction, and a significand that rounds up to `2 ^ 53` lands on
the first rank of the next spacing by itself. -/
def nearest (negative : Bool) (numerator denominator : Nat) : Double :=
  let total := numerator * unitsPerOne
  let shift := (total / denominator).log2 - 52
  let rank := shift * binade + roundHalfEven total (denominator * Nat.pow 2 shift)
  if h : rank < ranks then .finite negative ⟨rank, h⟩ else .infinite negative

def ofInt (n : Int) : Double := nearest (n < 0) n.natAbs 1

abbrev signBit : Nat := 2048 * binade

/-- The 64-bit interchange form: sign, then rank; all ones in the exponent for the rest. -/
def toBits : Double → Nat
  | .nan => ranks + binade / 2
  | .infinite negative => ranks + if negative then signBit else 0
  | .finite negative rank => rank.val + if negative then signBit else 0

def ofBits (bits : Nat) : Double :=
  let negative := decide (signBit ≤ bits)
  let rank := bits % signBit
  if h : rank < ranks then .finite negative ⟨rank, h⟩
  else if rank = ranks then .infinite negative
  else .nan

end Double

end WideColumn
