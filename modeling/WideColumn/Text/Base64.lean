/-! Base 64. Three bytes are written as four symbols of six bits. A last group of one or
two bytes is filled up with `=`, and the bits of its last symbol that belong to no byte
are zero. Reading accepts nothing but what writing produces. -/
namespace WideColumn.Text.Base64

def alphabet : List Char :=
  "ABCDEFGHIJKLMNOPQRSTUVWXYZabcdefghijklmnopqrstuvwxyz0123456789+/".toList

def symbol (n : Nat) : Char := alphabet.getD n '='

def value? (c : Char) : Option Nat := alphabet.findIdx? (· == c)

def encode : List UInt8 → List Char
  | [] => []
  | [a] => [symbol (a.toNat / 4), symbol (a.toNat % 4 * 16), '=', '=']
  | [a, b] =>
    [symbol (a.toNat / 4), symbol (a.toNat % 4 * 16 + b.toNat / 16), symbol (b.toNat % 16 * 4), '=']
  | a :: b :: c :: rest =>
    symbol (a.toNat / 4) :: symbol (a.toNat % 4 * 16 + b.toNat / 16) ::
      symbol (b.toNat % 16 * 4 + c.toNat / 64) :: symbol (c.toNat % 64) :: encode rest

/-- The bytes of a last group, which may be filled up. -/
def decodeLast? (s t u v : Char) : Option (List UInt8) := do
  let s ← value? s
  let t ← value? t
  if u = '=' then
    if v = '=' ∧ t % 16 = 0 then some [UInt8.ofNat (s * 4 + t / 16)] else none
  else
    let u ← value? u
    let first := UInt8.ofNat (s * 4 + t / 16)
    let second := UInt8.ofNat (t % 16 * 16 + u / 4)
    if v = '=' then
      if u % 4 = 0 then some [first, second] else none
    else
      let v ← value? v
      some [first, second, UInt8.ofNat (u % 4 * 64 + v)]

def decode? : List Char → Option (List UInt8)
  | [] => some []
  | [s, t, u, v] => decodeLast? s t u v
  | s :: t :: u :: v :: rest => do
    let group ← decodeLast? s t u v
    if group.length = 3 then return group ++ (← decode? rest) else none
  | _ => none

end WideColumn.Text.Base64
