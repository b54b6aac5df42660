import WideColumn.Proofs.Codec.Reread

/-! A stored value that is read and written again. Its number texts may change on the way, but
only once: every double of a value that was read is one that a number text is read as, and no text
is read as the negative zero, the only number that is written in another way after it was read
back. -/
namespace WideColumn

open Outcome

/-- Each of the doubles is one that some of the texts are read as. -/
def ReadFrom (texts : List String) (doubles : List Double) : Prop :=
  ∀ x ∈ doubles, ∃ text ∈ texts, Value.ofNumberText text = .ok (.float x)

namespace ReadFrom

theorem nothing (texts : List String) : ReadFrom texts [] := fun _ member => nomatch member

theorem append (first : ReadFrom texts front) (later : ReadFrom more behind) :
    ReadFrom (texts ++ more) (front ++ behind) := by
  intro x member
  rcases List.mem_append.1 member with member | member
  · obtain ⟨text, given, read⟩ := first x member
    exact ⟨text, List.mem_append_left _ given, read⟩
  · obtain ⟨text, given, read⟩ := later x member
    exact ⟨text, List.mem_append_right _ given, read⟩

end ReadFrom

namespace Value

theorem ofDouble_ne_negativeZero (x : Double) : ofDouble x ≠ .float .negativeZero := by
  intro same
  unfold ofDouble at same
  split at same
  · next n whole =>
    split at same
    · cases same
    · next large =>
      obtain rfl : x = .negativeZero := Value.float.inj same
      obtain rfl : 0 = n := Option.some.inj (Double.toInt?_negativeZero.symm.trans whole)
      exact large (by decide)
  · next none =>
    obtain rfl : x = .negativeZero := Value.float.inj same
    cases Double.toInt?_negativeZero.symm.trans none

/-- A zero is read as an integer, whatever its sign and spelling. -/
theorem ofNumberText_ne_negativeZero (text : String) :
    ofNumberText text ≠ .ok (.float .negativeZero) := by
  intro read
  simp only [ofNumberText] at read
  split at read
  · cases read
  · split at read
    · exact ofDouble_ne_negativeZero _ (Except.ok.inj read)
    · cases read

/-- A text that is not that of a 64-bit integer. -/
theorem ofNumberText_marked (marked : int64? (Text.trim text.toList) = none)
    (read : Double.read? (Text.trim text.toList) = some x) :
    ofNumberText text = .ok (.ofDouble x) := by
  simp only [ofNumberText, marked, read]

theorem ofNumberText_readFrom (read : ofNumberText text = .ok v) : ReadFrom [text] v.doubles := by
  intro x member
  rcases ofNumberText_cases read with ⟨n, rfl⟩ | ⟨y, rfl⟩
  · cases member
  · obtain rfl := List.mem_singleton.1 member
    exact ⟨text, List.mem_cons_self, read⟩

theorem ofNumberTexts_readFrom {texts : List String} {items : List Value}
    (read : ofNumberTexts texts = .ok items) : ReadFrom texts (doublesOf items) := by
  induction texts generalizing items with
  | nil => cases read; exact .nothing _
  | cons text rest ih =>
    simp only [ofNumberTexts, bind_ok, pure_ok] at read
    obtain ⟨first, here, others, there, rfl⟩ := read
    exact (ofNumberText_readFrom here).append (ih there)

end Value

namespace WireValue

mutual

/-- The doubles of a value that was read come from the number texts it was read from. -/
theorem deserialize_readFrom : ∀ {w : WireValue} {v : Value}, w.deserialize = .ok v →
    ReadFrom w.numberTexts v.doubles
  | .null _, _, read => by cases read; exact .nothing _
  | .bool _, _, read => by cases read; exact .nothing _
  | .string _, _, read => by cases read; exact .nothing _
  | .binary _, _, read => by cases read; exact .nothing _
  | .stringSet _, _, read => by cases read; exact .nothing _
  | .binarySet _, _, read => by cases read; exact .nothing _
  | .number _, _, read => Value.ofNumberText_readFrom read
  | .list items, _, read => by
    obtain ⟨values, hitems, rfl⟩ := map_ok.1 read
    exact deserializeList_readFrom hitems
  | .map fields, _, read => by
    obtain ⟨values, hfields, rfl⟩ := map_ok.1 read
    exact deserializeFields_readFrom hfields
  | .numberSet texts, _, read => by
    obtain ⟨values, htexts, rfl⟩ := map_ok.1 read
    exact Value.ofNumberTexts_readFrom htexts

theorem deserializeList_readFrom : ∀ {items : List WireValue} {values : List Value},
    deserializeList items = .ok values → ReadFrom (numberTextsOf items) (Value.doublesOf values)
  | [], _, read => by cases read; exact .nothing _
  | item :: rest, _, read => by
    simp only [deserializeList, bind_ok, pure_ok] at read
    obtain ⟨first, here, others, there, rfl⟩ := read
    exact (deserialize_readFrom here).append (deserializeList_readFrom there)

theorem deserializeFields_readFrom : ∀ {fields : List (String × WireValue)}
    {values : List (String × Value)}, deserializeFields fields = .ok values →
    ReadFrom (numberTextsIn fields) (Value.doublesIn values)
  | [], _, read => by cases read; exact .nothing _
  | (name, value) :: rest, _, read => by
    simp only [deserializeFields, bind_ok, pure_ok] at read
    obtain ⟨first, here, others, there, rfl⟩ := read
    exact (deserialize_readFrom here).append (deserializeFields_readFrom there)

end

theorem deserialize_ne_negativeZero {w : WireValue} (read : w.deserialize = .ok v) :
    ∀ x ∈ v.doubles, x ≠ .negativeZero := by
  rintro x member rfl
  obtain ⟨text, -, zero⟩ := deserialize_readFrom read _ member
  exact Value.ofNumberText_ne_negativeZero text zero

/-- What was read and written once is written the same when it is read again. -/
theorem rewrite_settles {w w' : WireValue} (read : w.deserialize = .ok v)
    (written : v.serialize = .ok w') :
    ∃ back, w'.deserialize = .ok back ∧ back.serialize = .ok w' := by
  obtain ⟨back, reread⟩ := Value.reread written
  obtain ⟨again, rewritten, same⟩ := reread.again
  obtain rfl : again = w' := same.2 (deserialize_ne_negativeZero read)
  exact ⟨back, reread.read, rewritten⟩

/-- A double that is read back as an integer, and zeros and integers in other spellings. -/
def spelled : WireValue :=
  .map [("measured", .list [.number " 1152921504606846976.0", .number "-0.0"]),
    ("shares", .numberSet ["-0", "+7"])]

def settled : WireValue :=
  .map [("measured", .list [.number "1152921504606847000", .number "0"]),
    ("shares", .numberSet ["0", "7"])]

def spelledValue : Value :=
  .map [("measured", .list [.float .twoPow60, .int 0]), ("shares", .numberSet [.int 0, .int 7])]

theorem deserialize_spelled : spelled.deserialize = .ok spelledValue := by
  have large : Value.ofNumberText " 1152921504606846976.0" = .ok (.float .twoPow60) := by
    rw [Value.ofNumberText_marked (x := .twoPow60) (by decide) (by decide +kernel), Value.ofDouble,
      show Double.toInt? .twoPow60 = some (2 ^ 60) by decide +kernel]
    rfl
  have zero : Value.ofNumberText "-0.0" = .ok (.int 0) := by
    rw [Value.ofNumberText_marked (x := .negativeZero) (by decide) (by decide +kernel),
      Value.ofDouble, Double.toInt?_negativeZero]
    rfl
  have plain : Value.ofNumberTexts ["-0", "+7"] = .ok [.int 0, .int 7] := rfl
  simp only [spelled, deserialize, deserializeFields, deserializeList, large, zero, plain]
  rfl

theorem serialize_spelled : spelledValue.serialize = .ok settled := by
  simp only [spelledValue, Value.serialize, Value.serializeFields, Value.serializeList,
    Value.memberTexts, Value.memberText, Double.numberText_twoPow60]
  rfl

theorem rewrite_settles_spelled : spelled.deserialize = .ok spelledValue ∧
    spelledValue.serialize = .ok settled ∧
    ∃ back, settled.deserialize = .ok back ∧ back.serialize = .ok settled :=
  ⟨deserialize_spelled, serialize_spelled, rewrite_settles deserialize_spelled serialize_spelled⟩

end WireValue

end WideColumn
