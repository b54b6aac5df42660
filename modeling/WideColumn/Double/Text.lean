import WideColumn.Double.Shortest

/-! Two ways to write a double with its shortest digits. `Double.display` writes the digits out in
full and rounds a tie upwards. `Double.jsonText?` keeps a digit after the point, changes to powers
of ten for small and for large numbers, rounds a tie to even and has no text for infinities. -/
namespace WideColumn

namespace Decimal

def digits (d : Decimal) : List Char := Nat.toDigits 10 d.coefficient

/-- All digits, with a point where a fraction starts and zeros where the digits do not reach. -/
def positional (d : Decimal) : List Char :=
  if 0 ≤ d.exponent then d.digits ++ List.replicate d.exponent.toNat '0'
  else
    let places := (-d.exponent).toNat
    let count := d.digits.length
    if places < count then d.digits.take (count - places) ++ '.' :: d.digits.drop (count - places)
    else ['0', '.'] ++ List.replicate (places - count) '0' ++ d.digits

def magnitude (d : Decimal) : Int := d.exponent + d.digits.length - 1

/-- One digit, a point where more follow, and a power of ten with its sign. -/
def scientific (d : Decimal) : List Char :=
  let rest := d.digits.drop 1
  let sign := if 0 ≤ d.magnitude then '+' else '-'
  d.digits.take 1 ++ (if rest.isEmpty then [] else '.' :: rest) ++
    ['e', sign] ++ Nat.toDigits 10 d.magnitude.natAbs

end Decimal

namespace Double

def signed (negative : Bool) (text : List Char) : String :=
  String.ofList (if negative then '-' :: text else text)

def display : Double → String
  | .nan => "NaN"
  | .infinite negative => signed negative ['i', 'n', 'f']
  | .finite negative rank => signed negative (shortest .up rank).positional

def jsonText? : Double → Option String
  | .finite negative rank =>
    let d := shortest .toEven rank
    let text :=
      if -5 ≤ d.magnitude ∧ d.magnitude < 16 then
        d.positional ++ if 0 ≤ d.exponent then ['.', '0'] else []
      else d.scientific
    some (signed negative text)
  | _ => none

end Double

end WideColumn
