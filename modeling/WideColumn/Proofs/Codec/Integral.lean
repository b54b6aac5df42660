import WideColumn.Proofs.Codec.ReadBack
import WideColumn.Proofs.Text.Apart

/-! Doubles that are read back as integers, and the texts of both. A double that is an integer of
64 bits is read back as that integer. Written out plainly it has the text of the integer, the
negative zero apart, because no fraction is shown; in a JSON text it never has, because there a
double has a point or a power of ten and an integer has neither. -/
namespace WideColumn

open Outcome Text

theorem Decimal.digits_eq_positional {d : Decimal} (whole : 0 ≤ d.exponent)
    (leading : d.coefficient ≠ 0 ∨ d.exponent = 0) : d.positional = Nat.toDigits 10 d.numerator := by
  have zeros (n : Nat) (positive : 0 < d.coefficient) :
      d.digits ++ List.replicate n '0' = Nat.toDigits 10 (d.coefficient * 10 ^ n) := by
    induction n with
    | zero => simp [digits]
    | succ n ih =>
      rw [List.replicate_succ', ← List.append_assoc, ih]
      have size : 0 < d.coefficient * 10 ^ n := Nat.mul_pos positive (Nat.pow_pos (by decide))
      have last := Nat.toDigits_append_toDigits (b := 10) (n := d.coefficient * 10 ^ n) (d := 0)
        (by decide) size (by decide)
      rw [Nat.pow_succ, ← Nat.mul_assoc, Nat.mul_comm _ 10]
      exact last
  rw [positional, if_pos whole, numerator]
  rcases Nat.eq_zero_or_pos d.coefficient with none | positive
  · have flat : d.exponent = 0 := leading.resolve_left (by simp [none])
    simp [digits, flat]
  · exact zeros _ positive

theorem natAbs_signedInt (negative : Bool) (n : Nat) : (signedInt negative n).natAbs = n := by
  cases negative <;> simp [signedInt]

namespace Double

def negativeZero : Double := .finite true ⟨0, ranks_pos⟩

theorem toInt?_negativeZero : negativeZero.toInt? = some 0 := by decide +kernel

/-- An integer of 64 bits. -/
def Integral64 (x : Double) : Prop := ∃ n, x.toInt? = some n ∧ n.natAbs < 2 ^ 63

theorem integral64_iff (negative : Bool) (rank : Fin ranks) :
    (finite negative rank).Integral64 ↔
      units rank % unitsPerOne = 0 ∧ units rank < 2 ^ 63 * unitsPerOne := by
  constructor
  · rintro ⟨n, whole, small⟩
    simp only [toInt?] at whole
    split at whole
    · next integral =>
      obtain rfl : signedInt negative (units rank / unitsPerOne) = n := Option.some.inj whole
      rw [natAbs_signedInt] at small
      exact ⟨integral, (Nat.div_lt_iff_lt_mul unitsPerOne_pos).1 small⟩
    · cases whole
  · rintro ⟨integral, small⟩
    refine ⟨signedInt negative (units rank / unitsPerOne), ?_, ?_⟩
    · rw [toInt?_eq_iff]
      exact (Nat.div_mul_cancel (Nat.dvd_of_mod_eq_zero integral)).symm
    · rw [natAbs_signedInt]
      exact (Nat.div_lt_iff_lt_mul unitsPerOne_pos).2 small

/-- The shortest digits have no fraction exactly when the double has none. -/
theorem exponent_iff (rank : Nat) :
    0 ≤ (shortest .up rank).exponent ↔ units rank % unitsPerOne = 0 := by
  refine ⟨fun whole => ?_, exponent_shortest .up⟩
  have reads := contains_shortest .up rank
  rw [Decimal.denominator_whole whole] at reads
  rcases Nat.lt_or_ge 1074 (scale rank) with coarse | fine
  · exact integral_of_large (Nat.le_of_not_lt fun small =>
      Nat.not_lt.2 (scale_le_1074_iff.2 small) coarse)
  · rw [eq_of_contains reads fine, Nat.mul_mod_left]

theorem positional_shortest {rank : Nat} (whole : 0 ≤ (shortest .up rank).exponent) :
    (shortest .up rank).positional = Nat.toDigits 10 (shortest .up rank).numerator ∧
      ((shortest .up rank).numerator = 0 ↔ rank = 0) := by
  have reads := contains_shortest .up rank
  rw [Decimal.denominator_whole whole] at reads
  by_cases zero : rank = 0
  · subst zero
    exact ⟨Decimal.digits_eq_positional whole (.inr rfl), by simp [shortest, Decimal.numerator]⟩
  · have some_digit : (shortest .up rank).numerator ≠ 0 := fun none =>
      zero (Reach.Contains.rank_eq_zero (none ▸ reads) Nat.one_pos)
    refine ⟨Decimal.digits_eq_positional whole (.inl fun none => some_digit ?_), by simp [zero, some_digit]⟩
    rw [Decimal.numerator, none, Nat.zero_mul]

end Double

namespace Value

/-- The plain text of a double that is an integer of 64 bits is that of the integer it is read
back as, but the sign of a zero is lost. -/
theorem ofNumberText_integral {x : Double} (integral : x.Integral64) :
    ∃ n : Int64, ofNumberText x.display = .ok (.int n) ∧
      SameIff (fun _ => True) (x ≠ .negativeZero) (toString n.toInt).toList x.display.toList := by
  obtain ⟨m, whole, bound⟩ := id integral
  cases x with
  | nan => cases whole
  | infinite negative => cases whole
  | finite negative rank =>
    obtain ⟨integral, small⟩ := (Double.integral64_iff negative rank).1 integral
    have places := (Double.exponent_iff rank).2 integral
    obtain ⟨digits, zero⟩ := Double.positional_shortest places
    have reads := Double.contains_shortest .up rank
    rw [Decimal.denominator_whole places] at reads
    obtain ⟨n, found, value⟩ := int64?_small (Double.integer?_display_whole negative places)
      (Double.lt_of_contains reads (Double.scale_le_1084_iff.2 small))
    refine ⟨n, ?_, ?_⟩
    · rw [ofNumberText_display rfl, Double.display, toList_signed, found]
    rw [Double.display, toList_signed, toList_toString_int, value, digits]
    cases negative with
    | false =>
      have positive : ¬signedInt false (Double.shortest .up rank).numerator < 0 := by simp [signedInt]
      rw [if_neg positive]
      exact .refl (by simp [Double.negativeZero]) _
    | true =>
      by_cases first : rank.val = 0
      · have same : Double.finite true rank = .negativeZero := by
          rw [Double.negativeZero]
          exact congrArg _ (Fin.ext first)
        rw [zero.2 first, same]
        exact .of_apart (by simp) (apart_cons (by decide) _ _)
      · have nonzero := mt zero.1 first
        have below : signedInt true (Double.shortest .up rank).numerator < 0 := by
          simp [signedInt]
          omega
        rw [if_pos below, signedInt, if_pos rfl, Int.natAbs_neg, Int.natAbs_natCast, signedText,
          if_pos rfl]
        refine .refl (fun same => first ?_) _
        rw [Double.negativeZero] at same
        injection same with _ rank
        exact congrArg Fin.val rank

/-- Any other double is read back as itself. -/
theorem ofNumberText_other {x : Double} (finite : x.isFinite) (other : ¬x.Integral64) :
    ofNumberText x.display = .ok (.float x) := by
  have itself : ofDouble x = .float x := by
    unfold ofDouble
    split
    · next n whole =>
      refine if_neg fun small => other ⟨n, whole, ?_⟩
      exact Nat.lt_trans small (by decide)
    · rfl
  have none : int64? x.display.toList = none := by
    cases x with
    | nan => cases finite
    | infinite negative => cases finite
    | finite negative rank =>
      rw [Double.display, toList_signed]
      rcases Int.lt_or_le (Double.shortest .up rank).exponent 0 with part | whole
      · rw [int64?, Double.integer?_display_fraction negative part, Option.bind_none]
      · have reads := Double.contains_shortest .up rank
        rw [Decimal.denominator_whole whole] at reads
        have integral := (Double.exponent_iff rank).1 whole
        have large : 1085 ≤ Double.scale rank := by
          by_contra fine
          have small := Double.scale_le_1084_iff.1 (by omega : Double.scale rank ≤ 1084)
          exact other ((Double.integral64_iff negative rank).2 ⟨integral, small⟩)
        exact int64?_large (Double.integer?_display_whole negative whole)
          (Double.gt_of_large reads large)
  rw [ofNumberText_display finite, none, itself]

end Value

/-! Numbers in a JSON text. -/

/-- Goes on with what cannot be part of a number. -/
def Ended (text : List Char) : Prop :=
  ∃ c rest, text = c :: rest ∧ c.isDigit = false ∧ c ≠ '.' ∧ c ≠ 'e'

/-- Digits, and a point or a power of ten behind them. -/
def Marked (text : List Char) : Prop :=
  ∃ digits c rest, text = digits ++ c :: rest ∧ digits ≠ [] ∧ (∀ a ∈ digits, a.isDigit) ∧
    (c = '.' ∨ c = 'e')

theorem Decimal.marked_positional (d : Decimal) :
    Marked (d.positional ++ if 0 ≤ d.exponent then ['.', '0'] else []) := by
  rcases Int.lt_or_le d.exponent 0 with part | whole
  · obtain ⟨head, fraction, text, some_digit, digits, -, -⟩ := positional_fraction part
    rw [if_neg (Int.not_le.2 part), text, List.append_nil]
    exact ⟨head, '.', fraction, rfl, some_digit, fun a h => digits a (by simp [h]), .inl rfl⟩
  · obtain ⟨some_digit, digits, -⟩ := positional_whole whole
    rw [if_pos whole]
    exact ⟨_, '.', ['0'], rfl, some_digit, digits, .inl rfl⟩

theorem Decimal.marked_scientific (d : Decimal) : Marked d.scientific := by
  have first : d.digits.take 1 ≠ [] := by
    rw [Ne, List.take_eq_nil_iff]
    simp [digits, Nat.toDigits_ne_nil]
  have leading (a : Char) (h : a ∈ d.digits.take 1) : a.isDigit :=
    isDigit_of_mem_digits (List.mem_of_mem_take h)
  simp only [scientific, List.append_assoc]
  cases d.digits.drop 1 with
  | nil => exact ⟨_, 'e', _, rfl, first, leading, .inr rfl⟩
  | cons a rest => exact ⟨_, '.', _, rfl, first, leading, .inl rfl⟩

theorem apart_signedText (first : c.isDigit) (second : d.isDigit) (apart : Apart (c :: s) (d :: t)) :
    Apart (signedText a (c :: s)) (signedText b (d :: t)) := by
  cases a <;> cases b
  · exact apart
  · exact apart_cons (by rintro rfl; cases first) _ _
  · exact apart_cons (by rintro rfl; cases second) _ _
  · exact apart.prepend ['-']

theorem signedText_append (negative : Bool) (text behind : List Char) :
    signedText negative text ++ behind = signedText negative (text ++ behind) := by
  cases negative <;> rfl

theorem toList_toString_signed (n : Int) :
    (toString n).toList = signedText (n < 0) (Nat.toDigits 10 n.natAbs) := by
  rw [toList_toString_int, signedText]
  by_cases below : n < 0 <;> simp [below]

namespace Double

theorem jsonText?_finite {x : Double} (finite : x.isFinite) :
    ∃ negative text, x.jsonText? = some (signed negative text) ∧ Marked text := by
  cases x with
  | nan => cases finite
  | infinite negative => cases finite
  | finite negative rank =>
    refine ⟨negative, _, rfl, ?_⟩
    split
    · exact Decimal.marked_positional _
    · exact Decimal.marked_scientific _

/-- In a JSON text no double is written as an integer. -/
theorem apart_jsonText {x : Double} (finite : x.isFinite) (n : Int) (s : List Char) (ended : Ended t) :
    Apart ((toString n).toList ++ t) ((x.jsonText?.getD "null").toList ++ s) := by
  obtain ⟨negative, text, written, digits, c, rest, rfl, some_digit, all, mark⟩ := jsonText?_finite finite
  obtain ⟨d, others, rfl, noDigit, noPoint, noPower⟩ := ended
  have notDigit : c.isDigit = false := by rcases mark with rfl | rfl <;> rfl
  have ne : d ≠ c := by rcases mark with rfl | rfl <;> assumption
  have decimal (a : Char) (member : a ∈ Nat.toDigits 10 n.natAbs) : a.isDigit :=
    isDigit_of_mem_toDigits member
  have unsigned := apart_digits decimal all noDigit notDigit ne others (rest ++ s)
  rw [written, Option.getD_some, toList_signed, toList_toString_signed, signedText_append,
    signedText_append, List.append_assoc, List.cons_append]
  obtain ⟨a, more, same⟩ := List.exists_cons_of_ne_nil (Nat.toDigits_ne_nil (b := 10) (n := n.natAbs))
  obtain ⟨b, others', rfl⟩ := List.exists_cons_of_ne_nil some_digit
  rw [same] at decimal unsigned ⊢
  exact apart_signedText (decimal a (by simp)) (all b (by simp)) unsigned

end Double

namespace Value

/-- The value that a double is read back as. -/
theorem ofNumberText_display_cases {x : Double} (finite : x.isFinite) :
    (x.Integral64 ∧ ∃ n : Int64, ofNumberText x.display = .ok (.int n) ∧
      SameIff (fun _ => True) (x ≠ .negativeZero) (toString n.toInt).toList x.display.toList) ∨
    ¬x.Integral64 ∧ ofNumberText x.display = .ok (.float x) := by
  by_cases integral : x.Integral64
  · exact .inl ⟨integral, ofNumberText_integral integral⟩
  · exact .inr ⟨integral, ofNumberText_other finite integral⟩

end Value

end WideColumn
