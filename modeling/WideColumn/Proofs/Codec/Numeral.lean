import WideColumn.Proofs.Double.Rounding
import WideColumn.Proofs.Double.Text
import Mathlib.Data.List.Induction
import Mathlib.Data.Nat.Digits.Defs

/-! Decimal numerals: how they are written, what they denote, and that they are read as what
they denote. `DecimalText` has the parts of a numeral as it is written, and its value is put
together from these; the reader makes one row of digits out of them and moves the point. -/
namespace WideColumn

/-- Decimal digits as they are written. -/
abbrev Digits := List (Fin 10)

namespace Digits

def chars (digits : Digits) : List Char := digits.map fun d => Nat.digitChar d.val

def number (digits : Digits) : Nat := Nat.ofDigits 10 (digits.reverse.map Fin.val)

theorem isDigit_of_mem_chars {digits : Digits} (member : c ∈ digits.chars) : c.isDigit := by
  have all : ∀ d : Fin 10, (Nat.digitChar d.val).isDigit := by decide
  obtain ⟨d, -, rfl⟩ := List.mem_map.1 member
  exact all d

theorem digitsValue_chars (digits : Digits) : digitsValue digits.chars = digits.number := by
  have value : ∀ d : Fin 10, (Nat.digitChar d.val).toNat - '0'.toNat = d.val := by decide
  induction digits using List.reverseRec with
  | nil => rfl
  | append_singleton more d ih =>
    simp only [digitsValue, chars, number] at ih ⊢
    rw [List.map_append, List.foldl_append, ih, List.reverse_append, List.map_singleton,
      List.foldl_cons, List.foldl_nil, value, List.reverse_singleton, List.singleton_append,
      List.map_cons, Nat.ofDigits_cons, Nat.add_comm]

theorem number_append (a b : Digits) :
    (a ++ b : Digits).number = a.number * 10 ^ b.length + b.number := by
  simp [number, Nat.ofDigits_append]
  ring

end Digits

/-- A written sign is a minus when it is `true`. -/
abbrev Sign := Option Bool

namespace Sign

def chars : Sign → List Char
  | none => []
  | some true => ['-']
  | some false => ['+']

def negative (sign : Sign) : Bool := sign == some true

theorem takeSign_chars (sign : Sign) {text : List Char}
    (first : ∀ c ∈ text.head?, c ≠ '-' ∧ c ≠ '+') :
    takeSign (sign.chars ++ text) = (sign.negative, text) := by
  rcases sign with _ | _ | _
  · show takeSign text = _
    unfold takeSign
    split
    · exact absurd rfl (first '-' rfl).1
    · exact absurd rfl (first '+' rfl).2
    · rfl
  · rfl
  · rfl

end Sign

/-- A power of ten. -/
structure Power where
  capital : Bool
  sign : Sign
  digits : Digits
  some_digit : digits ≠ []

namespace Power

def chars (p : Power) : List Char :=
  (if p.capital then 'E' else 'e') :: (p.sign.chars ++ p.digits.chars)

def exponent (p : Power) : Int := signedInt p.sign.negative p.digits.number

end Power

/-- A decimal numeral as it is written. There is a digit before the point or behind it. -/
structure DecimalText where
  sign : Sign
  whole : Digits
  /-- What stands behind the point, if there is a point. -/
  fraction : Option Digits
  power : Option Power
  some_digit : whole ++ fraction.getD [] ≠ []

namespace DecimalText

variable (t : DecimalText)

/-- The digits behind the point. -/
def places : Digits := t.fraction.getD []

def exponent : Int := (t.power.map Power.exponent).getD 0

/-- What the numeral denotes: its digits on both sides of the point, times its power of ten. -/
def value : ℚ :=
  Double.withSign t.sign.negative
    ((t.whole.number + t.places.number / 10 ^ t.places.length) * 10 ^ t.exponent)

def pointChars : List Char := (t.fraction.map fun digits => '.' :: digits.chars).getD []

def powerChars : List Char := (t.power.map Power.chars).getD []

/-- What follows the sign. -/
def body : List Char := t.whole.chars ++ (t.pointChars ++ t.powerChars)

def text : String := String.ofList (t.sign.chars ++ t.body)

/-- Without a point and without a power of ten. -/
def Plain : Prop := t.fraction = none ∧ t.power = none

instance : Decidable t.Plain := inferInstanceAs (Decidable (_ ∧ _))

end DecimalText

/-! Reading. -/

namespace Digits

/-- Reading digits stops at what is none. -/
theorem span_chars (digits : Digits) {rest : List Char}
    (stop : ∀ c ∈ rest.head?, c.isDigit = false) :
    (digits.chars ++ rest).takeWhile Char.isDigit = digits.chars ∧
      (digits.chars ++ rest).dropWhile Char.isDigit = rest := by
  have all : ∀ c ∈ digits.chars, c.isDigit := fun c => isDigit_of_mem_chars
  rw [List.takeWhile_append_of_pos all, List.dropWhile_append_of_pos all]
  cases rest with
  | nil => simp
  | cons c more => simp [stop c rfl]

theorem head_chars (digits : Digits) {rest : List Char} (c : Char)
    (first : c ∈ (digits.chars ++ rest).head?) : c.isDigit ∨ digits = [] ∧ c ∈ rest.head? := by
  cases digits with
  | nil => exact .inr ⟨rfl, first⟩
  | cons d more =>
    left
    obtain rfl : Nat.digitChar d.val = c := Option.some.inj first
    have only : Nat.digitChar d.val ∈ Digits.chars [d] := List.mem_singleton.2 rfl
    exact isDigit_of_mem_chars only

theorem unsigned_of_isDigit {c : Char} (digit : c.isDigit) : c ≠ '-' ∧ c ≠ '+' := by
  constructor <;> rintro rfl <;> cases digit

end Digits

theorem integer?_chars (sign : Sign) {digits : Digits} (some_digit : digits ≠ []) :
    integer? (sign.chars ++ digits.chars) = some (signedInt sign.negative digits.number) := by
  have first : ∀ c ∈ digits.chars.head?, c ≠ '-' ∧ c ≠ '+' := fun c head =>
    Digits.unsigned_of_isDigit (Digits.isDigit_of_mem_chars (List.mem_of_mem_head? head))
  have chars : digits.chars ≠ [] := by simpa [Digits.chars] using some_digit
  rw [integer?, sign.takeSign_chars first]
  simp only [natural?_digits (fun c => Digits.isDigit_of_mem_chars) chars, Digits.digitsValue_chars]
  rfl

namespace DecimalText

variable (t : DecimalText)

theorem head_powerChars : ∀ c ∈ t.powerChars.head?, c = 'e' ∨ c = 'E' := by
  intro c first
  unfold powerChars at first
  cases power : t.power with
  | none => simp [power] at first
  | some p =>
    simp only [power, Option.map_some, Option.getD_some, Power.chars, List.head?_cons] at first
    obtain rfl := Option.some.inj first
    cases p.capital <;> simp

theorem power?_powerChars : Numeral.power? t.powerChars = some t.exponent := by
  unfold powerChars exponent
  cases t.power with
  | none => rfl
  | some p =>
    have mark :
        (if p.capital then 'E' else 'e') = 'e' ∨ (if p.capital then 'E' else 'e') = 'E' := by
      cases p.capital <;> simp
    simp only [Option.map_some, Option.getD_some, Power.chars, Numeral.power?, if_pos mark]
    exact integer?_chars p.sign p.some_digit

/-- What follows the sign starts with a digit or with the point. -/
theorem head_body : ∀ c ∈ t.body.head?, c.isDigit ∨ c = '.' := by
  intro c first
  refine (t.whole.head_chars c first).imp_right fun ⟨empty, first⟩ => ?_
  unfold pointChars at first
  cases point : t.fraction with
  | none => exact absurd (by simp [empty, point]) t.some_digit
  | some digits =>
    rw [point] at first
    exact (Option.some.inj first).symm

theorem head_rest : ∀ c ∈ (t.pointChars ++ t.powerChars).head?, c.isDigit = false := by
  intro c first
  unfold pointChars at first
  cases point : t.fraction with
  | none =>
    rw [point] at first
    rcases t.head_powerChars c first with rfl | rfl <;> rfl
  | some digits =>
    rw [point] at first
    obtain rfl := Option.some.inj first
    rfl

/-- One row of digits with the point behind it. -/
def numeral : Numeral where
  negative := t.sign.negative
  coefficient := (t.whole ++ t.places : Digits).number
  exponent := t.exponent - t.places.length

theorem unsigned : ∀ c ∈ t.body.head?, c ≠ '-' ∧ c ≠ '+' := by
  intro c first
  rcases t.head_body c first with digit | rfl
  · exact Digits.unsigned_of_isDigit digit
  · decide

theorem read?_chars : Numeral.read? (t.sign.chars ++ t.body) = some t.numeral := by
  obtain ⟨whole, rest⟩ := t.whole.span_chars t.head_rest
  have some_digit : (t.whole.chars.isEmpty && t.places.chars.isEmpty) = false := by
    have digit := t.some_digit
    simp only [Digits.chars, List.isEmpty_map]
    simpa [places] using digit
  have value :
      digitsValue (t.whole.chars ++ t.places.chars) = (t.whole ++ t.places : Digits).number := by
    rw [← Digits.digitsValue_chars, Digits.chars, Digits.chars, Digits.chars, List.map_append]
  have length : t.places.chars.length = t.places.length := List.length_map _
  rw [Numeral.read?, t.sign.takeSign_chars t.unsigned]
  simp only [body, whole, rest]
  cases point : t.fraction with
  | none =>
    have noPlaces : t.places = [] := by simp [places, point]
    have noPoint : t.pointChars = [] := by simp [pointChars, point]
    rw [noPlaces] at some_digit value
    simp only [noPoint, List.nil_append]
    split
    · next more same =>
      have first := t.head_powerChars '.' (by rw [same]; rfl)
      exact absurd first (by decide)
    · rw [if_neg (by simpa [Digits.chars] using some_digit), power?_powerChars, numeral, noPlaces,
        ← value]
      rfl
  | some digits =>
    have here : t.places = digits := by simp [places, point]
    have after : t.pointChars ++ t.powerChars = '.' :: (digits.chars ++ t.powerChars) := by
      simp [pointChars, point]
    have stop : ∀ c ∈ t.powerChars.head?, c.isDigit = false := fun c first => by
      rcases t.head_powerChars c first with rfl | rfl <;> rfl
    obtain ⟨behind, power⟩ := digits.span_chars stop
    rw [here] at some_digit value length
    simp only [after, behind, power]
    rw [if_neg (by simp [some_digit]), power?_powerChars, value, length, numeral, here]
    rfl

theorem mem_chars (member : c ∈ t.sign.chars ++ t.body) :
    c.isDigit ∨ c ∈ ['+', '-', '.', 'e', 'E'] := by
  have signed {sign : Sign} (member : c ∈ sign.chars) : c ∈ ['+', '-', '.', 'e', 'E'] := by
    rcases sign with _ | _ | _ <;> simp [Sign.chars] at member <;> simp [member]
  simp only [body, List.mem_append] at member
  rcases member with sign | digit | point | power
  · exact .inr (signed sign)
  · exact .inl (Digits.isDigit_of_mem_chars digit)
  · unfold pointChars at point
    cases given : t.fraction with
    | none => simp [given] at point
    | some digits =>
      rw [given] at point
      rcases List.mem_cons.1 point with rfl | digit
      · simp
      · exact .inl (Digits.isDigit_of_mem_chars digit)
  · unfold powerChars at power
    cases given : t.power with
    | none => simp [given] at power
    | some p =>
      rw [given] at power
      rcases List.mem_cons.1 power with rfl | rest
      · cases p.capital <;> simp
      · exact (List.mem_append.1 rest).elim (fun sign => .inr (signed sign))
          fun digit => .inl (Digits.isDigit_of_mem_chars digit)

theorem solid : ∀ c ∈ t.sign.chars ++ t.body, Text.isBlank c = false := by
  intro c member
  rcases t.mem_chars member with digit | mark
  · exact Text.not_isBlank_of_isDigit digit
  · simp only [List.mem_cons, List.not_mem_nil, or_false] at mark
    rcases mark with rfl | rfl | rfl | rfl | rfl <;> decide

theorem trim_chars : Text.trim t.text.toList = t.sign.chars ++ t.body := by
  rw [text, String.toList_ofList, Text.trim_of_solid t.solid]

/-- The words that are read as doubles start otherwise. -/
theorem double_read?_chars :
    Double.read? (t.sign.chars ++ t.body) = some t.numeral.toDouble := by
  have word (letters : List Char)
      (other : ∃ c ∈ letters.head?, c.isDigit = false ∧ c ≠ '.') :
      t.body.map Char.toLower ≠ letters := by
    rintro rfl
    obtain ⟨c, first, noDigit, noPoint⟩ := other
    obtain ⟨d, head, rfl⟩ := Option.map_eq_some_iff.1 (List.head?_map ▸ first)
    rcases t.head_body d head with digit | rfl
    · rw [toLower_of_isDigit digit, digit] at noDigit
      cases noDigit
    · exact noPoint rfl
  rw [Double.read?, t.sign.takeSign_chars t.unsigned, t.read?_chars]
  simp only
  rw [if_neg (not_or.2 ⟨word _ ⟨'i', rfl, by decide⟩, word _ ⟨'i', rfl, by decide⟩⟩),
    if_neg (word _ ⟨'n', rfl, by decide⟩)]
  rfl

theorem integer?_plain (plain : t.Plain) :
    integer? (t.sign.chars ++ t.body) = some (signedInt t.sign.negative t.whole.number) := by
  have digits : t.body = t.whole.chars := by
    simp [body, pointChars, powerChars, plain.1, plain.2]
  rw [digits, integer?_chars t.sign]
  simpa [plain.1] using t.some_digit

theorem integer?_marked (marked : ¬t.Plain) : integer? (t.sign.chars ++ t.body) = none := by
  obtain ⟨c, rest, text⟩ : ∃ c rest, t.pointChars ++ t.powerChars = c :: rest := by
    apply List.exists_cons_of_ne_nil
    intro none
    obtain ⟨noPoint, noPower⟩ := List.append_eq_nil_iff.1 none
    apply marked
    constructor
    · cases given : t.fraction with
      | none => rfl
      | some digits => simp [pointChars, given] at noPoint
    · cases given : t.power with
      | none => rfl
      | some p => simp [powerChars, given, Power.chars] at noPower
  have noDigit := t.head_rest c (by rw [text]; rfl)
  have body : t.body.all Char.isDigit = false := by simp [body, text, noDigit]
  rw [integer?, t.sign.takeSign_chars t.unsigned]
  simp only [natural?, body, Bool.not_false, Bool.or_true, if_true]
  rfl

end DecimalText

/-! What is read is what is denoted. -/

/-- What the row of digits denotes. -/
def Numeral.value (n : Numeral) : ℚ := Double.withSign n.negative (n.coefficient * 10 ^ n.exponent)

theorem DecimalText.value_numeral (t : DecimalText) : t.numeral.value = t.value := by
  have ten : (10 : ℚ) ^ t.places.length ≠ 0 := pow_ne_zero _ (by norm_num)
  simp only [Numeral.value, value, numeral, Digits.number_append]
  congr 1
  rw [zpow_sub₀ (by norm_num), zpow_natCast, Nat.cast_add, Nat.cast_mul, Nat.cast_pow]
  field_simp
  norm_num

namespace Numeral

section Extremes

variable {n : Numeral}

/-- From `10 ^ 400` on there are no doubles. -/
theorem nearest_large (some_digit : n.coefficient ≠ 0) (power : 400 ≤ n.exponent) :
    Double.nearest n.negative (n.coefficient * 10 ^ n.exponent.toNat) (10 ^ (-n.exponent).toNat) =
      .infinite n.negative := by
  have whole : (-n.exponent).toNat = 0 := by omega
  have high : 400 ≤ n.exponent.toNat := by omega
  have most : 2 ^ 1024 - 2 ^ 970 ≤ 10 ^ 400 := by decide +kernel
  have powers := pow_le_pow_right₀ (show 1 ≤ 10 by decide) high
  have size := Nat.le_mul_of_pos_left (10 ^ n.exponent.toNat) (Nat.pos_of_ne_zero some_digit)
  rw [whole, Nat.pow_zero]
  obtain ⟨rank, reads, same⟩ := Double.nearest_eq Nat.one_pos n.negative
    (n.coefficient * 10 ^ n.exponent.toNat)
  rw [same, dif_neg]
  rw [reads.lt_ranks_iff Nat.one_pos, Nat.mul_one, not_lt]
  exact Nat.mul_le_mul_right _ ((most.trans powers).trans size)

/-- Below `10 ^ -400` zero is the nearest double. -/
theorem nearest_small (small : n.coefficient = 0 ∨ n.exponent + n.coefficient.log2 < -400) :
    Double.nearest n.negative (n.coefficient * 10 ^ n.exponent.toNat) (10 ^ (-n.exponent).toNat) =
      .nearest n.negative 0 1 := by
  have positive : 0 < 10 ^ (-n.exponent).toNat := Nat.pow_pos (by decide)
  obtain ⟨rank, reads, same⟩ := Double.nearest_eq positive n.negative
    (n.coefficient * 10 ^ n.exponent.toNat)
  obtain rfl : rank = 0 := by
    by_contra nonzero
    rcases small with none | tiny
    · rw [none, Nat.zero_mul] at reads
      exact nonzero (reads.rank_eq_zero positive)
    · have flat : n.exponent.toNat = 0 := by omega
      rw [flat, Nat.pow_zero, Nat.mul_one] at reads
      have few := reads.not_small nonzero
      omega
  rw [same, dif_pos (by decide)]
  exact (Double.nearest_of_contains (Double.contains_zero Nat.one_pos) Nat.one_pos).symm

end Extremes

theorem toDouble_eq (n : Numeral) : n.toDouble =
    .nearest n.negative (n.coefficient * 10 ^ n.exponent.toNat) (10 ^ (-n.exponent).toNat) := by
  rw [toDouble]
  split
  · next large => rw [nearest_large large.1 large.2]
  · split
    · next small => rw [nearest_small small]
    · rw [Nat.pow_eq, Nat.pow_eq]

theorem value_eq (n : Numeral) : n.value = Double.withSign n.negative
    (((n.coefficient * 10 ^ n.exponent.toNat : ℕ) : ℚ) / (10 ^ (-n.exponent).toNat : ℕ)) := by
  rw [value]
  congr 1
  rw [Nat.cast_mul, Nat.cast_pow, Nat.cast_pow, Nat.cast_ofNat, mul_div_assoc, ← zpow_natCast,
    ← zpow_natCast, ← zpow_sub₀ (by norm_num)]
  congr 2
  omega

/-- Numerals are read as the nearest double. -/
theorem rounds_toDouble (n : Numeral) : Double.Rounds n.value n.toDouble := by
  rw [toDouble_eq, value_eq]
  exact Double.rounds_nearest n.negative _ (Nat.pow_pos (by decide))

end Numeral

end WideColumn
