import WideColumn.Double

/-! Readers of number text. An integer is an optional sign and at least one digit. A
numeral may also have a point, before or after which digits may be missing but not on both
sides, and a power of ten. Next to numerals the words for infinity and for what is not a
number are read, in any case. Only the ten ASCII digits are digits. -/
namespace WideColumn

structure Numeral where
  negative : Bool
  coefficient : Nat
  exponent : Int
  deriving DecidableEq, Repr

def takeSign : List Char → Bool × List Char
  | '-' :: rest => (true, rest)
  | '+' :: rest => (false, rest)
  | rest => (false, rest)

def digitsValue (digits : List Char) : Nat :=
  digits.foldl (fun n c => 10 * n + (c.toNat - '0'.toNat)) 0

/-- Digits only, and at least one. -/
def natural? (text : List Char) : Option Nat :=
  if text.isEmpty || !text.all Char.isDigit then none else some (digitsValue text)

def integer? (text : List Char) : Option Int :=
  let (negative, digits) := takeSign text
  (natural? digits).map fun n => if negative then -(n : Int) else n

namespace Numeral

def power? : List Char → Option Int
  | [] => some 0
  | c :: rest => if c = 'e' ∨ c = 'E' then integer? rest else none

def read? (text : List Char) : Option Numeral :=
  let (negative, text) := takeSign text
  let whole := text.takeWhile Char.isDigit
  let text := text.dropWhile Char.isDigit
  let (fraction, text) := match text with
    | '.' :: rest => (rest.takeWhile Char.isDigit, rest.dropWhile Char.isDigit)
    | _ => ([], text)
  if whole.isEmpty && fraction.isEmpty then none
  else (power? text).map fun power =>
    ⟨negative, digitsValue (whole ++ fraction), power - fraction.length⟩

/-- The nearest double. A numeral of `10 ^ 400` or more is too large for any double and one
below `10 ^ -400` too small, so their powers of ten need not be computed. -/
def toDouble (n : Numeral) : Double :=
  if n.coefficient ≠ 0 ∧ 400 ≤ n.exponent then .infinite n.negative
  else if n.coefficient = 0 ∨ n.exponent + n.coefficient.log2 < -400 then
    .nearest n.negative 0 1
  else
    .nearest n.negative (n.coefficient * Nat.pow 10 n.exponent.toNat)
      (Nat.pow 10 (-n.exponent).toNat)

end Numeral

def Double.read? (text : List Char) : Option Double :=
  let (negative, word) := takeSign text
  let word := word.map Char.toLower
  if word = "inf".toList ∨ word = "infinity".toList then some (.infinite negative)
  else if word = "nan".toList then some .nan
  else (Numeral.read? text).map Numeral.toDouble

/-- The integer that a text denotes, if it has 64 bits. -/
def int64? (text : List Char) : Option Int64 :=
  (integer? text).bind fun n =>
    if Int64.minValue.toInt ≤ n ∧ n ≤ Int64.maxValue.toInt then some (Int64.ofInt n) else none

end WideColumn
