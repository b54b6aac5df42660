import WideColumn.Proofs.Codec.Exact
import WideColumn.Proofs.Double.Text

/-! What comes back from the store, doubles included. The text of a double without a fraction is
tried as an integer first, and then the zeros behind the shortest digits count as digits. From `2
^ 53` to `2 ^ 63` such a double comes back only if its shortest digits denote it exactly. -/
namespace WideColumn

open Outcome

namespace Double

/-- Below `2 ^ 53` and from `2 ^ 63` on every double is kept, and in between one whose
shortest digits denote it exactly. -/
def Kept : Double → Prop
  | .finite _ rank => 2 ^ 53 * unitsPerOne ≤ units rank → units rank < 2 ^ 63 * unitsPerOne →
      (shortest .up rank).Denotes rank
  | _ => True

theorem kept_of_fraction (negative : Bool) {rank : Fin ranks}
    (part : (shortest .up rank).exponent < 0) : (finite negative rank).Kept := by
  intro large _
  have := exponent_shortest .up (integral_of_large large)
  omega

theorem kept_of_large (negative : Bool) {rank : Fin ranks} (large : 1085 ≤ scale rank) :
    (finite negative rank).Kept := by
  intro _ small
  exact absurd (scale_le_1084_iff.2 small) (Nat.not_le.2 large)

/-- Below `2 ^ 53` digits without a fraction are exact anyway. -/
theorem kept_iff_denotes (negative : Bool) {rank : Fin ranks} (fine : scale rank ≤ 1084)
    (whole : (shortest .up rank).denominator = 1) :
    (finite negative rank).Kept ↔ (shortest .up rank).Denotes rank := by
  constructor
  · intro kept
    rcases Nat.lt_or_ge 1074 (scale rank) with coarse | finer
    · refine kept (Nat.le_of_not_lt fun small => ?_) (scale_le_1084_iff.1 fine)
      exact absurd (scale_le_1074_iff.2 small) (Nat.not_le.2 coarse)
    · have reads := contains_shortest .up rank
      rw [whole] at reads
      rw [Decimal.Denotes, whole, Nat.mul_one]
      exact eq_of_contains reads finer
  · exact fun denotes _ _ => denotes

theorem toInt?_eq_iff (negative : Bool) (rank : Fin ranks) (n : Nat) :
    (finite negative rank).toInt? = some (signedInt negative n) ↔
      units rank = n * unitsPerOne := by
  simp only [toInt?]
  split
  · next integral =>
    have same : units rank / unitsPerOne = n ↔ units rank = n * unitsPerOne :=
      Nat.div_eq_iff_eq_mul_left unitsPerOne_pos (Nat.dvd_of_mod_eq_zero integral)
    rw [← same]
    generalize units rank / unitsPerOne = magnitude
    cases negative <;> simp [signedInt]
  · next fraction =>
    constructor
    · rintro ⟨⟩
    · intro whole
      rw [whole, Nat.mul_mod_left] at fraction
      exact absurd rfl fraction

end Double

theorem int64?_small {text : List Char} (read : integer? text = some (signedInt negative n))
    (small : n < 2 ^ 63) :
    ∃ back, int64? text = some back ∧ back.toInt = signedInt negative n := by
  have low : -2 ^ 63 ≤ signedInt negative n := by
    unfold signedInt
    split <;> omega
  have high : signedInt negative n < 2 ^ 63 := by
    unfold signedInt
    split <;> omega
  refine ⟨_, ?_, Int64.toInt_ofInt_of_le low high⟩
  rw [int64?, read, Option.bind_some, if_pos]
  rw [Int64.toInt_minValue, Int64.toInt_maxValue]
  omega

theorem int64?_large {text : List Char} (read : integer? text = some (signedInt negative n))
    (large : 2 ^ 63 < n) : int64? text = none := by
  rw [int64?, read, Option.bind_some, if_neg]
  rw [Int64.toInt_minValue, Int64.toInt_maxValue, signedInt]
  split <;> omega

namespace Value

theorem same_ofDouble {x : Double} (finite : x.isFinite) :
    same (.ofDouble x) (.float x) = true := by
  have self : same (.float x) (.float x) = true := by
    cases x with
    | finite negative rank => simp [same, Double.sameNumber]
    | _ => cases finite
  unfold ofDouble
  split
  · next n whole =>
    split
    · next small =>
      have exact : (Int64.ofInt n).toInt = n := by
        simp only [integralBound, Nat.pow_eq] at small
        exact Int64.toInt_ofInt_of_le (by omega) (by omega)
      simp [same, whole, exact]
    · exact self
  · exact self

theorem ofNumberText_display {x : Double} (finite : x.isFinite) :
    ofNumberText x.display =
      match int64? x.display.toList with
      | some n => .ok (.int n)
      | none => .ok (.ofDouble x) := by
  have solid : Text.trim x.display.toList = x.display.toList := by
    cases x with
    | finite negative rank =>
      rw [Double.display, toList_signed]
      exact Double.trim_signedText negative _
    | _ => cases finite
  cases read : int64? x.display.toList with
  | some n => simp only [ofNumberText, solid, read]
  | none => simp only [ofNumberText, solid, read, Double.read?_display x finite]

/-- What the text of a double is read as. -/
theorem ofNumberText_display_iff {x : Double} (finite : x.isFinite) :
    ∃ back, ofNumberText x.display = .ok back ∧ (same back (.float x) = true ↔ x.Kept) := by
  rw [ofNumberText_display finite]
  cases x with
  | nan => cases finite
  | infinite negative => cases finite
  | finite negative rank =>
    rw [Double.display, toList_signed]
    rcases Int.lt_or_le (Double.shortest .up rank).exponent 0 with part | whole
    · -- a point is no digit, so the text is read as a double at once
      have fails : int64? (signedText negative (Double.shortest .up rank).positional) = none := by
        rw [int64?, Double.integer?_display_fraction negative part, Option.bind_none]
      rw [fails]
      exact ⟨_, rfl, iff_of_true (same_ofDouble finite) (Double.kept_of_fraction negative part)⟩
    · have one := Decimal.denominator_whole whole
      have reads := Double.contains_shortest .up rank
      have read := Double.integer?_display_whole negative whole
      rw [one] at reads
      rcases Nat.lt_or_ge 1084 (Double.scale rank) with large | fine
      · -- an integer, but one of more than 64 bits
        rw [int64?_large read (Double.gt_of_large reads large)]
        exact ⟨_, rfl, iff_of_true (same_ofDouble finite) (Double.kept_of_large negative large)⟩
      · obtain ⟨n, found, value⟩ := int64?_small read (Double.lt_of_contains reads fine)
        rw [found]
        refine ⟨_, rfl, ?_⟩
        rw [same, beq_iff_eq, value, Double.toInt?_eq_iff, Double.kept_iff_denotes negative fine one,
          Decimal.Denotes, one, Nat.mul_one]

mutual

/-- The doubles at any depth. -/
def doubles : Value → List Double
  | .float x => [x]
  | .list items => doublesOf items
  | .map fields => doublesIn fields
  | .numberSet items => doublesOf items
  | _ => []

def doublesOf : List Value → List Double
  | [] => []
  | item :: rest => item.doubles ++ doublesOf rest

def doublesIn : List (String × Value) → List Double
  | [] => []
  | (_, value) :: rest => value.doubles ++ doublesIn rest

end

theorem numberText_back {x : Double} (done : x.numberText = .ok text) :
    ∃ back, ofNumberText text = .ok back ∧ (same back (.float x) = true ↔ x.Kept) := by
  unfold Double.numberText at done
  split at done
  · next finite =>
    cases done
    exact ofNumberText_display_iff finite
  · cases done

theorem same_int (n : Int64) : same (.int n) (.int n) = true := by simp [same]

theorem memberText_kept {v : Value} (done : v.memberText = .ok text) :
    ∃ back, ofNumberText text = .ok back ∧ (same back v = true ↔ ∀ x ∈ v.doubles, x.Kept) := by
  cases v with
  | int n =>
    cases done
    exact ⟨.int n, ofNumberText_toString n, by simp [same_int, doubles]⟩
  | float x => simpa [doubles] using numberText_back done
  | _ => cases done

theorem memberTexts_kept {items : List Value} (done : memberTexts items = .ok texts) :
    ∃ back, ofNumberTexts texts = .ok back ∧
      (sameItems back items = true ↔ ∀ x ∈ doublesOf items, x.Kept) := by
  induction items generalizing texts with
  | nil =>
    cases done
    exact ⟨[], rfl, by simp [sameItems, doublesOf]⟩
  | cons item rest ih =>
    simp only [memberTexts, bind_ok, pure_ok] at done
    obtain ⟨text, htext, others, hrest, rfl⟩ := done
    obtain ⟨first, read, kept⟩ := memberText_kept htext
    obtain ⟨more, reads, keeps⟩ := ih hrest
    refine ⟨first :: more, ?_, ?_⟩
    · simp only [ofNumberTexts, bind_ok, pure_ok]
      exact ⟨first, read, more, reads, rfl⟩
    · rw [sameItems, Bool.and_eq_true, kept, keeps, doublesOf, List.forall_mem_append]

mutual

theorem deserialize_kept : ∀ {v : Value} {w : WireValue}, v.serialize = .ok w →
    ∃ back, w.deserialize = .ok back ∧ (same back v = true ↔ ∀ x ∈ v.doubles, x.Kept)
  | .null, _, done => by cases done; exact ⟨.null, rfl, by simp [same, doubles]⟩
  | .bool b, _, done => by cases done; exact ⟨.bool b, rfl, by simp [same, doubles]⟩
  | .int n, _, done => by
    cases done
    exact ⟨.int n, ofNumberText_toString n, by simp [same_int, doubles]⟩
  | .float x, _, done => by
    obtain ⟨text, htext, rfl⟩ := map_ok.1 done
    obtain ⟨back, read, kept⟩ := numberText_back htext
    exact ⟨back, read, by simpa [doubles] using kept⟩
  | .string text, _, done => by cases done; exact ⟨.string text, rfl, by simp [same, doubles]⟩
  | .bytes data, _, done => by cases done; exact ⟨.bytes data, rfl, by simp [same, doubles]⟩
  | .stringSet texts, _, done => by
    cases done
    exact ⟨.stringSet texts, rfl, by simp [same, doubles]⟩
  | .binarySet items, _, done => by
    cases done
    exact ⟨.binarySet items, rfl, by simp [same, doubles]⟩
  | .list items, _, done => by
    obtain ⟨stored, hitems, rfl⟩ := map_ok.1 done
    obtain ⟨back, read, kept⟩ := deserializeList_kept hitems
    exact ⟨.list back, map_ok.2 ⟨back, read, rfl⟩, kept⟩
  | .map fields, _, done => by
    obtain ⟨stored, hfields, rfl⟩ := map_ok.1 done
    obtain ⟨back, read, kept⟩ := deserializeFields_kept hfields
    exact ⟨.map back, map_ok.2 ⟨back, read, rfl⟩, kept⟩
  | .numberSet items, _, done => by
    obtain ⟨texts, hitems, rfl⟩ := map_ok.1 done
    obtain ⟨back, read, kept⟩ := memberTexts_kept hitems
    exact ⟨.numberSet back, map_ok.2 ⟨back, read, rfl⟩, kept⟩

theorem deserializeList_kept : ∀ {items : List Value} {stored : List WireValue},
    serializeList items = .ok stored → ∃ back, WireValue.deserializeList stored = .ok back ∧
      (sameItems back items = true ↔ ∀ x ∈ doublesOf items, x.Kept)
  | [], _, done => by cases done; exact ⟨[], rfl, by simp [sameItems, doublesOf]⟩
  | item :: rest, _, done => by
    simp only [serializeList, bind_ok, pure_ok] at done
    obtain ⟨stored, hitem, others, hrest, rfl⟩ := done
    obtain ⟨first, read, kept⟩ := deserialize_kept hitem
    obtain ⟨more, reads, keeps⟩ := deserializeList_kept hrest
    refine ⟨first :: more, ?_, ?_⟩
    · simp only [WireValue.deserializeList, bind_ok, pure_ok]
      exact ⟨first, read, more, reads, rfl⟩
    · rw [sameItems, Bool.and_eq_true, kept, keeps, doublesOf, List.forall_mem_append]

theorem deserializeFields_kept : ∀ {fields : List (String × Value)}
    {stored : List (String × WireValue)}, serializeFields fields = .ok stored →
    ∃ back, WireValue.deserializeFields stored = .ok back ∧
      (sameFields back fields = true ↔ ∀ x ∈ doublesIn fields, x.Kept)
  | [], _, done => by cases done; exact ⟨[], rfl, by simp [sameFields, doublesIn]⟩
  | (name, value) :: rest, _, done => by
    simp only [serializeFields, bind_ok, pure_ok] at done
    obtain ⟨stored, hvalue, others, hrest, rfl⟩ := done
    obtain ⟨first, read, kept⟩ := deserialize_kept hvalue
    obtain ⟨more, reads, keeps⟩ := deserializeFields_kept hrest
    refine ⟨(name, first) :: more, ?_, ?_⟩
    · simp only [WireValue.deserializeFields, bind_ok, pure_ok]
      exact ⟨first, read, more, reads, rfl⟩
    · rw [sameFields, beq_self_eq_true, Bool.true_and, Bool.and_eq_true, kept, keeps, doublesIn,
        List.forall_mem_append]

end

/-- Whatever can be stored is read back, and it is the same value exactly when each of its
doubles is kept. -/
theorem deserialize_same_iff {v : Value} {w : WireValue} (done : v.serialize = .ok w) :
    ∃ back, w.deserialize = .ok back ∧ ((back == v) = true ↔ ∀ x ∈ v.doubles, x.Kept) :=
  deserialize_kept done

end Value

namespace Double

def tenth : Double := .finite false ⟨0x3FB999999999999A, by decide⟩

def twoPow60 : Double := .finite false ⟨1083 * binade, by decide⟩

theorem numberText_tenth : tenth.numberText = .ok "0.1" :=
  congrArg Except.ok (show tenth.display = "0.1" by decide +kernel)

/-- The digits from the seventeenth on are not those of the number. -/
theorem numberText_twoPow60 : twoPow60.numberText = .ok "1152921504606847000" :=
  congrArg Except.ok (show twoPow60.display = "1152921504606847000" by decide +kernel)

end Double

namespace Value

/-- Doubles beside an integer, in a list and in a set inside a map. -/
def nested : Value :=
  .map [("measured", .list [.float .tenth, .int 7]), ("total", .numberSet [.float .twoPow60])]

theorem serialize_nested : nested.serialize =
    .ok (.map [("measured", .list [.number "0.1", .number "7"]),
      ("total", .numberSet ["1152921504606847000"])]) := by
  simp only [nested, serialize, serializeFields, serializeList, memberTexts, memberText,
    Double.numberText_tenth, Double.numberText_twoPow60]
  rfl

theorem deserialize_same_iff_nested : ∃ w, nested.serialize = .ok w ∧
    ∃ back, w.deserialize = .ok back ∧ ((back == nested) = true ↔ ∀ x ∈ nested.doubles, x.Kept) :=
  ⟨_, serialize_nested, deserialize_same_iff serialize_nested⟩

/-- Between `2 ^ 53` and `2 ^ 63` a stored double may come back as another number. -/
theorem not_deserialize_same : ¬∀ (v : Value) (w : WireValue), v.serialize = .ok w →
    ∃ back, w.deserialize = .ok back ∧ (back == v) = true := by
  intro always
  obtain ⟨back, read, equal⟩ := always (.float .twoPow60) (.number "1152921504606847000")
    (map_ok.2 ⟨_, Double.numberText_twoPow60, rfl⟩)
  have integer : ofNumberText "1152921504606847000" = .ok (.int 1152921504606847000) :=
    ofNumberText_toString 1152921504606847000
  cases integer.symm.trans read
  have other : same (.int 1152921504606847000) (.float .twoPow60) = false := by decide +kernel
  rw [show (Value.int 1152921504606847000 == .float .twoPow60) = false from other] at equal
  cases equal

end Value

end WideColumn
