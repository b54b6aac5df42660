import WideColumn.Proofs.Json.Sorted
import WideColumn.Value.Json

/-! Values and JSON trees, read from one another. A tree has no bytes, no sets and no double that is
not finite, so writing a value can lose what kind of value it was. What the tree says is then read
back and written again unchanged: the first writing loses what there is to lose. A tree whose numbers
are integers of 64 bits or finite doubles comes back with the fields of its objects in order. -/
namespace WideColumn

namespace Json

mutual

/-- Every number of the tree is an integer of 64 bits or a finite double. -/
def Native : Json → Prop
  | .integer n => Int64.minValue.toInt ≤ n ∧ n ≤ Int64.maxValue.toInt
  | .float x => x.isFinite
  | .array items => NativeItems items
  | .object fields => NativeFields fields
  | _ => True

def NativeItems : List Json → Prop
  | [] => True
  | item :: rest => item.Native ∧ NativeItems rest

def NativeFields : List (String × Json) → Prop
  | [] => True
  | (_, value) :: rest => value.Native ∧ NativeFields rest

end

theorem native_strings (texts : List String) : (Json.array (texts.map .string)).Native := by
  rw [Native]
  induction texts with
  | nil => trivial
  | cons text rest ih => exact ⟨trivial, ih⟩

end Json

namespace Value

mutual

/-- The fields of every map stand in order of name, as they do in a map. -/
def Ordered : Value → Prop
  | .list items => OrderedItems items
  | .map fields => Entries.Ordered fields ∧ OrderedFields fields
  | .numberSet items => OrderedItems items
  | _ => True

def OrderedItems : List Value → Prop
  | [] => True
  | item :: rest => item.Ordered ∧ OrderedItems rest

def OrderedFields : List (String × Value) → Prop
  | [] => True
  | (_, value) :: rest => value.Ordered ∧ OrderedFields rest

end

mutual

/-- Nowhere in the value are bytes, a set or a double that is not finite. -/
def plain : Value → Bool
  | .float x => x.isFinite
  | .bytes _ | .stringSet _ | .numberSet _ | .binarySet _ => false
  | .list items => plainItems items
  | .map fields => plainFields fields
  | _ => true

def plainItems : List Value → Bool
  | [] => true
  | item :: rest => item.plain && plainItems rest

def plainFields : List (String × Value) → Bool
  | [] => true
  | (_, value) :: rest => value.plain && plainFields rest

end

theorem orderedFields_iff {fields : List (String × Value)} :
    OrderedFields fields ↔ ∀ field ∈ fields, field.2.Ordered := by
  induction fields with
  | nil => simp [OrderedFields]
  | cons field rest ih => simp [OrderedFields, ih]

theorem plainFields_iff {fields : List (String × Value)} :
    plainFields fields ↔ ∀ field ∈ fields, field.2.plain := by
  induction fields with
  | nil => simp [plainFields]
  | cons field rest ih => simp [plainFields, ih]

theorem fieldsToJson_eq_mapValues (fields : List (String × Value)) :
    fieldsToJson fields = Entries.mapValues toJson fields := by
  induction fields with
  | nil => rfl
  | cons field rest ih => rw [fieldsToJson, ih]; rfl

theorem base64_strings (items : List (List UInt8)) :
    (items.map fun data => Json.string (base64 data)) = (items.map base64).map .string := by
  rw [List.map_map]
  rfl

/-! ## From a tree to a value -/

theorem ofInt_toInt (n : Int64) : ofInt n.toInt = .int n := by
  rw [ofInt, if_pos ⟨n.minValue_le_toInt, n.toInt_le⟩, Int64.ofInt_toInt]

theorem ofInt_native {n : Int} (native : (Json.integer n).Native) : ofInt n = .int (.ofInt n) :=
  if_pos native

mutual

theorem ordered_ofJson : ∀ j : Json, (ofJson j).Ordered
  | .null | .bool _ | .float _ | .string _ => trivial
  | .integer n => by
    rw [ofJson, ofInt]
    split <;> trivial
  | .array items => ordered_listOfJson items
  | .object fields => by
    refine ⟨Entries.ordered_ofList _, orderedFields_iff.2 fun field member => ?_⟩
    exact orderedFields_iff.1 (ordered_fieldsOfJson fields) field (Entries.mem_of_mem_ofList member)

theorem ordered_listOfJson : ∀ items : List Json, OrderedItems (listOfJson items)
  | [] => trivial
  | item :: rest => ⟨ordered_ofJson item, ordered_listOfJson rest⟩

theorem ordered_fieldsOfJson : ∀ fields : List (String × Json), OrderedFields (fieldsOfJson fields)
  | [] => trivial
  | (_, value) :: rest => ⟨ordered_ofJson value, ordered_fieldsOfJson rest⟩

end

mutual

theorem plain_ofJson : ∀ {j : Json}, j.Native → (ofJson j).plain
  | .null, _ | .bool _, _ | .string _, _ => rfl
  | .integer _, native => by
    rw [ofJson, ofInt_native native]
    rfl
  | .float _, finite => finite
  | .array _, native => plain_listOfJson native
  | .object _, native => by
    refine plainFields_iff.2 fun field member => ?_
    exact plainFields_iff.1 (plain_fieldsOfJson native) field (Entries.mem_of_mem_ofList member)

theorem plain_listOfJson : ∀ {items : List Json}, Json.NativeItems items → plainItems (listOfJson items)
  | [], _ => rfl
  | _ :: _, ⟨here, there⟩ => by
    rw [listOfJson, plainItems, plain_ofJson here, plain_listOfJson there, Bool.and_self]

theorem plain_fieldsOfJson : ∀ {fields : List (String × Json)}, Json.NativeFields fields →
    plainFields (fieldsOfJson fields)
  | [], _ => rfl
  | (_, _) :: _, ⟨here, there⟩ => by
    rw [fieldsOfJson, plainFields, plain_ofJson here, plain_fieldsOfJson there, Bool.and_self]

end

mutual

/-- The fields of an object are sorted when they are read, so they are written back in order. -/
theorem toJson_ofJson : ∀ {j : Json}, j.Native → (ofJson j).toJson = j.sorted
  | .null, _ | .bool _, _ | .string _, _ => rfl
  | .integer _, native => by
    have below := Int.lt_add_one_of_le native.2
    rw [ofJson, ofInt_native native, toJson, Int64.toInt_ofInt_of_le native.1 below]
    rfl
  | .float _, finite => if_pos finite
  | .array items, native => by
    rw [ofJson, toJson, listToJson_ofJson native, Json.sorted]
  | .object fields, native => by
    rw [ofJson, toJson, fieldsToJson_eq_mapValues, Entries.mapValues_ofList,
      ← fieldsToJson_eq_mapValues, fieldsToJson_ofJson native, Json.sorted]

theorem listToJson_ofJson : ∀ {items : List Json}, Json.NativeItems items →
    listToJson (listOfJson items) = Json.sortedItems items
  | [], _ => rfl
  | _ :: _, ⟨here, there⟩ => by
    rw [listOfJson, listToJson, toJson_ofJson here, listToJson_ofJson there, Json.sortedItems]

theorem fieldsToJson_ofJson : ∀ {fields : List (String × Json)}, Json.NativeFields fields →
    fieldsToJson (fieldsOfJson fields) = Json.sortedFields fields
  | [], _ => rfl
  | (_, _) :: _, ⟨here, there⟩ => by
    rw [fieldsOfJson, fieldsToJson, toJson_ofJson here, fieldsToJson_ofJson there, Json.sortedFields]

end

/-! ## From a value to a tree -/

mutual

/-- What is no such number is not written as one: a double that is not finite is written as null. -/
theorem native_toJson : ∀ v : Value, v.toJson.Native
  | .null | .bool _ | .string _ | .bytes _ => trivial
  | .int n => ⟨n.minValue_le_toInt, n.toInt_le⟩
  | .float x => by
    rw [toJson]
    split
    · next finite => exact finite
    · trivial
  | .list items | .numberSet items => native_listToJson items
  | .map fields => native_fieldsToJson fields
  | .stringSet texts => Json.native_strings texts
  | .binarySet items => by
    rw [toJson, base64_strings]
    exact Json.native_strings _

theorem native_listToJson : ∀ items : List Value, Json.NativeItems (listToJson items)
  | [] => trivial
  | item :: rest => ⟨native_toJson item, native_listToJson rest⟩

theorem native_fieldsToJson : ∀ fields : List (String × Value), Json.NativeFields (fieldsToJson fields)
  | [] => trivial
  | (_, value) :: rest => ⟨native_toJson value, native_fieldsToJson rest⟩

end

mutual

theorem sorted_toJson : ∀ {v : Value}, v.Ordered → v.toJson.sorted = v.toJson
  | .null, _ | .bool _, _ | .int _, _ | .string _, _ | .bytes _, _ => rfl
  | .float x, _ => by
    rw [toJson]
    split <;> rfl
  | .list _, ordered | .numberSet _, ordered => by
    rw [toJson, Json.sorted, sorted_listToJson ordered]
  | .map fields, ⟨ordered, each⟩ => by
    have sortedAlready : Entries.Ordered (fieldsToJson fields) := by
      rw [fieldsToJson_eq_mapValues]
      exact Entries.ordered_of_names (Entries.names_mapValues _ _) ordered
    rw [toJson, Json.sorted, sorted_fieldsToJson each, Entries.ofList_of_ordered sortedAlready]
  | .stringSet _, _ => Json.sorted_eq_strings.2 rfl
  | .binarySet _, _ => by
    rw [toJson, base64_strings]
    exact Json.sorted_eq_strings.2 rfl

theorem sorted_listToJson : ∀ {items : List Value}, OrderedItems items →
    Json.sortedItems (listToJson items) = listToJson items
  | [], _ => rfl
  | _ :: _, ⟨here, there⟩ => by
    rw [listToJson, Json.sortedItems, sorted_toJson here, sorted_listToJson there]

theorem sorted_fieldsToJson : ∀ {fields : List (String × Value)}, OrderedFields fields →
    Json.sortedFields (fieldsToJson fields) = fieldsToJson fields
  | [], _ => rfl
  | (_, _) :: _, ⟨here, there⟩ => by
    rw [fieldsToJson, Json.sortedFields, sorted_toJson here, sorted_fieldsToJson there]

end

mutual

theorem ofJson_toJson : ∀ {v : Value}, v.Ordered → v.plain → ofJson v.toJson = v
  | .null, _, _ | .bool _, _, _ | .string _, _, _ => rfl
  | .int n, _, _ => ofInt_toInt n
  | .float _, _, finite => congrArg ofJson (if_pos finite)
  | .list _, ordered, here => by rw [toJson, ofJson, listOfJson_toJson ordered here]
  | .map _, ⟨ordered, each⟩, here => by
    rw [toJson, ofJson, fieldsOfJson_toJson each here, Entries.ofList_of_ordered ordered]
  | .bytes _, _, lost | .stringSet _, _, lost | .numberSet _, _, lost | .binarySet _, _, lost => by
    cases lost

theorem listOfJson_toJson : ∀ {items : List Value}, OrderedItems items → plainItems items →
    listOfJson (listToJson items) = items
  | [], _, _ => rfl
  | _ :: _, ⟨here, there⟩, each => by
    obtain ⟨first, others⟩ := Bool.and_eq_true_iff.1 each
    rw [listToJson, listOfJson, ofJson_toJson here first, listOfJson_toJson there others]

theorem fieldsOfJson_toJson : ∀ {fields : List (String × Value)}, OrderedFields fields →
    plainFields fields → fieldsOfJson (fieldsToJson fields) = fields
  | [], _, _ => rfl
  | (_, _) :: _, ⟨here, there⟩, each => by
    obtain ⟨first, others⟩ := Bool.and_eq_true_iff.1 each
    rw [fieldsToJson, fieldsOfJson, ofJson_toJson here first, fieldsOfJson_toJson there others]

end

/-- A value that was written as a tree, read back and written again gives the same tree. It is read
back as it was, each number as the kind of number it was, just when nothing in it lacks a form of its
own in a tree; what is read back is always such a value. -/
theorem json_reread {v : Value} (ordered : v.Ordered) :
    (ofJson v.toJson).toJson = v.toJson ∧ (ofJson v.toJson = v ↔ v.plain) ∧
    (ofJson v.toJson).Ordered ∧ (ofJson v.toJson).plain := by
  have native := native_toJson v
  have plain := plain_ofJson native
  refine ⟨(toJson_ofJson native).trans (sorted_toJson ordered), ⟨?_, ofJson_toJson ordered⟩,
    ordered_ofJson _, plain⟩
  intro same
  rwa [same] at plain

/-- Numbers that could be mistaken for one another: both ends of the integers, and whole doubles. -/
def numbers : Value :=
  .map [("ends", .list [.int Int64.minValue, .int Int64.maxValue]),
    ("whole", .map [("five", .float (.ofInt 5)), ("past", .float (.ofInt 9223372036854775808))])]

/-- Nothing here has a form of its own in a tree. -/
def formless : Value :=
  .list [.bytes [1, 2], .stringSet ["a"], .numberSet [.int 1, .float .nan], .binarySet [[3]],
    .float (.infinite true)]

theorem json_reread_numbers :
    ofJson numbers.toJson = numbers ∧ (ofJson formless.toJson).toJson = formless.toJson ∧
    ofJson formless.toJson ≠ formless := by
  have sorted : numbers.Ordered := by
    refine ⟨?outer, ⟨trivial, trivial, trivial⟩, ⟨?inner, trivial, trivial, trivial⟩, trivial⟩
    all_goals
      unfold Entries.Ordered
      decide
  have free : formless.Ordered := ⟨trivial, trivial, ⟨trivial, trivial, trivial⟩, trivial, trivial, trivial⟩
  obtain ⟨-, back, -, -⟩ := json_reread sorted
  obtain ⟨again, lost, -, -⟩ := json_reread free
  exact ⟨back.2 (by decide +kernel), again, fun same => absurd (lost.1 same) (by decide +kernel)⟩

end Value

end WideColumn
