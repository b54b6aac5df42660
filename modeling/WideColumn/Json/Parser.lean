import WideColumn.Json.Document
import WideColumn.Numeral

/-! A reader of JSON text by the grammar of RFC 8259. An integer of 64 bits stays an integer; any
other number is rounded twice, as a significand of 64 bits and when it is scaled. Numbers too
large for a double, halves of surrogate pairs and too deep a nesting are left beyond the values.
-/
namespace WideColumn

namespace Json

def maxDepth : Nat := 127

namespace Parser

def isBlank (c : Char) : Bool := c = ' ' || c = '\n' || c = '\r' || c = '\t'

def after? : (word text : List Char) → Option (List Char)
  | [], text => some text
  | w :: word, c :: text => if w = c then after? word text else none
  | _ :: _, [] => none

/-! ## Numbers -/

/-- Digits are added while the significand has 64 bits; the second part counts those ignored. -/
def addWhole : Nat × Nat → Char → Nat × Nat
  | (s, ignored), c =>
    let next := 10 * s + (c.toNat - '0'.toNat)
    if ignored = 0 ∧ next < UInt64.size then (next, 0) else (s, ignored + 1)

/-- Fraction digits that no longer fit, and all after them, are dropped. -/
def addFraction (s : Nat) (used : Nat) : List Char → Nat × Nat
  | [] => (s, used)
  | c :: rest =>
    let next := 10 * s + (c.toNat - '0'.toNat)
    if next < UInt64.size then addFraction next (used + 1) rest else (s, used)

/-- Divides by `10 ^ n`, in steps of at most `10 ^ 308`, each rounded. -/
def shrink (x : Double) (n : Nat) : Double :=
  match x with
  | .finite negative rank =>
    let divide (n : Nat) : Double :=
      match Double.nearest false (Nat.pow 10 n) 1 with
      | .finite _ power => .nearest negative (Double.units rank) (Double.units power)
      | other => other
    if n ≤ 308 then divide n
    else if rank.val = 0 then x
    else shrink (divide 308) (n - 308)
  | other => other
termination_by n

def grow? (x : Double) (n : Nat) : Option Double :=
  match x, Double.nearest false (Nat.pow 10 (min n 309)) 1 with
  | .finite negative rank, .finite _ power =>
    let product := Double.units rank * Double.units power
    let result := Double.nearest negative product (Double.unitsPerOne * Double.unitsPerOne)
    if result.isFinite then some result else none
  | .finite _ rank, _ => if rank.val = 0 then some x else none
  | _, _ => none

def float (negative : Bool) (whole fraction : List Char) (power : Int) : Document :=
  let (s, ignored) := whole.foldl addWhole (0, 0)
  let (s, used) := addFraction s 0 fraction
  let exponent := power + ignored - used
  let x := Double.nearest negative s 1
  if 0 ≤ exponent then
    match grow? x exponent.toNat with
    | some y => .float y
    | none => .beyond .scalar
  else .float (shrink x (-exponent).toNat)

def number (negative : Bool) (whole : List Char) : Option (List Char) → Option Int → Document
  | none, none =>
    let n := digitsValue whole
    if negative then
      if 0 < n ∧ Int64.minValue.toInt ≤ -n then .integer (-n) else float true whole [] 0
    else if n < UInt64.size then .integer n
    else float false whole [] 0
  | fraction, power => float negative whole (fraction.getD []) (power.getD 0)

def takeDigits (text : List Char) : List Char × List Char :=
  (text.takeWhile Char.isDigit, text.dropWhile Char.isDigit)

def takeFraction? : List Char → Option (Option (List Char) × List Char)
  | '.' :: text =>
    let (digits, text) := takeDigits text
    if digits.isEmpty then none else some (some digits, text)
  | text => some (none, text)

def takePower? : List Char → Option (Option Int × List Char)
  | c :: text =>
    if c = 'e' ∨ c = 'E' then
      let (negative, text) := takeSign text
      let (digits, text) := takeDigits text
      if digits.isEmpty then none
      else
        let n : Int := digitsValue digits
        some (some (if negative then -n else n), text)
    else some (none, c :: text)
  | [] => some (none, [])

def takeNumber? (text : List Char) : Option (Document × List Char) := do
  let (negative, text) := match text with
    | '-' :: text => (true, text)
    | text => (false, text)
  let (whole, text) := takeDigits text
  if whole.isEmpty || (whole.head? == some '0' && whole.length != 1) then none
  let (fraction, text) ← takeFraction? text
  let (power, text) ← takePower? text
  return (number negative whole fraction power, text)

/-! ## Strings -/

def hexValue? (c : Char) : Option Nat :=
  if c.isDigit then some (c.toNat - '0'.toNat)
  else if 'a' ≤ c ∧ c ≤ 'f' then some (c.toNat - 'a'.toNat + 10)
  else if 'A' ≤ c ∧ c ≤ 'F' then some (c.toNat - 'A'.toNat + 10)
  else none

def unit? (a b c d : Char) : Option Nat := do
  let a ← hexValue? a
  let b ← hexValue? b
  let c ← hexValue? c
  let d ← hexValue? d
  return ((a * 16 + b) * 16 + c) * 16 + d

def unescape? : Char → Option Nat
  | '"' => some '"'.toNat
  | '\\' => some '\\'.toNat
  | '/' => some '/'.toNat
  | 'b' => some 8
  | 'f' => some 12
  | 'n' => some '\n'.toNat
  | 'r' => some '\r'.toNat
  | 't' => some '\t'.toNat
  | _ => none

def takeCodes? (done : List Nat) : List Char → Option (List Nat × List Char)
  | [] => none
  | '"' :: text => some (done.reverse, text)
  | '\\' :: 'u' :: a :: b :: c :: d :: text =>
    match unit? a b c d with
    | some unit => takeCodes? (unit :: done) text
    | none => none
  | '\\' :: c :: text =>
    match unescape? c with
    | some code => takeCodes? (code :: done) text
    | none => none
  | c :: text => if c.toNat < 32 then none else takeCodes? (c.toNat :: done) text

/-- The characters of code points, after those that are done, which stand in reverse. A high
half of a surrogate pair makes one character with the low half behind it; no half stands alone. -/
def characters? (done : List Char) : List Nat → Option (List Char)
  | [] => some done.reverse
  | code :: rest =>
    if 0xD800 ≤ code ∧ code < 0xDC00 then
      match rest with
      | low :: rest =>
        if 0xDC00 ≤ low ∧ low < 0xE000 then
          characters? (Char.ofNat (0x10000 + (code - 0xD800) * 0x400 + (low - 0xDC00)) :: done) rest
        else none
      | [] => none
    else if 0xDC00 ≤ code ∧ code < 0xE000 then none
    else characters? (Char.ofNat code :: done) rest

/-- A string, whose text is missing if its halves of surrogate pairs do not belong together. -/
def takeString? : List Char → Option (Option String × List Char)
  | '"' :: text => (takeCodes? [] text).map fun (codes, text) =>
    ((characters? [] codes).map String.ofList, text)
  | _ => none

/-! ## Values -/

def takeScalar? (text : List Char) : Option (Document × List Char) :=
  match text with
  | '"' :: _ => (takeString? text).map fun (s, text) =>
    (match s with
      | some s => .string s
      | none => .beyond .scalar, text)
  | 't' :: text => (after? "rue".toList text).map (.bool true, ·)
  | 'f' :: text => (after? "alse".toList text).map (.bool false, ·)
  | 'n' :: text => (after? "ull".toList text).map (.null, ·)
  | _ => takeNumber? text

/-- An array or object that is not closed yet: the parts that are read, in reverse, and the name
of the part that comes next. -/
inductive Frame where
  | array (items : List Document)
  | object (fields : List (Option String × Document)) (name : Option String)

namespace Frame

def kind : Frame → Document.Kind
  | .array _ => .array
  | .object _ _ => .object

def close (last : Document) : Frame → Document
  | .array items => .array (last :: items).reverse
  | .object fields name => .object ((name, last) :: fields).reverse

def closing : Frame → Char
  | .array _ => ']'
  | .object _ _ => '\x7d'

end Frame

/-- Where a reader stands: inside the open frames, the innermost first, behind a value or, where
none is given, before one. -/
structure Place where
  frames : List Frame
  value : Option Document
  rest : List Char

namespace Place

def takeName? (text : List Char) : Option (Option String × List Char) := do
  let (name, text) ← takeString? (text.dropWhile isBlank)
  match text.dropWhile isBlank with
  | ':' :: text => return (name, text)
  | _ => none

/-- Behind the whole array or object that a frame became. It is a value if there are no more than
`depth` frames with it. -/
def leave (depth : Nat) (frame : Frame) (frames : List Frame) (whole : Document)
    (rest : List Char) : Place :=
  let shallow := ((frame :: frames).drop depth).isEmpty
  ⟨frames, some (if shallow then whole else .beyond frame.kind), rest⟩

def enter? (depth : Nat) (frames : List Frame) (text : List Char) : Option Place :=
  match text.dropWhile isBlank with
  | '[' :: text =>
    match text.dropWhile isBlank with
    | ']' :: text => some (leave depth (.array []) frames (.array []) text)
    | text => some ⟨.array [] :: frames, none, text⟩
  | '\x7b' :: text =>
    match text.dropWhile isBlank with
    | '\x7d' :: text => some (leave depth (.object [] none) frames (.object []) text)
    | text => (takeName? text).map fun (name, text) => ⟨.object [] name :: frames, none, text⟩
  | text => (takeScalar? text).map fun (value, text) => ⟨frames, some value, text⟩

def advance? (depth : Nat) (frame : Frame) (frames : List Frame) (value : Document)
    (text : List Char) : Option Place :=
  match frame, text.dropWhile isBlank with
  | .array items, ',' :: text => some ⟨.array (value :: items) :: frames, none, text⟩
  | .object fields name, ',' :: text => (takeName? text).map fun (next, text) =>
    ⟨.object ((name, value) :: fields) next :: frames, none, text⟩
  | frame, c :: text =>
    if c = frame.closing then some (leave depth frame frames (frame.close value) text)
    else none
  | _, [] => none

/-- Goes on until a value is read that is in no frame. Every step takes a character, so there are
no more steps than characters. -/
def finish? (depth : Nat) : Nat → Place → Option (Document × List Char)
  | _, ⟨[], some value, rest⟩ => some (value, rest)
  | 0, _ => none
  | n + 1, ⟨frame :: frames, some value, rest⟩ =>
    match advance? depth frame frames value rest with
    | some place => finish? depth n place
    | none => none
  | n + 1, ⟨frames, none, rest⟩ =>
    match enter? depth frames rest with
    | some place => finish? depth n place
    | none => none

end Place

end Parser

end Json

/-- The one document that a text holds. An array or object inside `depth` others is beyond the
values. -/
def Document.parseWithin? (depth : Nat) (text : String) : Option Document := do
  let (value, rest) ← Json.Parser.Place.finish? depth text.length ⟨[], none, text.toList⟩
  if rest.all Json.Parser.isBlank then some value else none

def Document.parse? (text : String) : Option Document := Document.parseWithin? Json.maxDepth text

def Json.parseWithin? (depth : Nat) (text : String) : Option Json :=
  (Document.parseWithin? depth text).bind Document.json?

def Json.parse? (text : String) : Option Json := Json.parseWithin? maxDepth text

end WideColumn
