import WideColumn.Json
import WideColumn.Proofs.NameMap

/-! JSON trees whose objects are maps. In such a tree no object has two fields of one name, and
the order of its fields means nothing: two trees are the same when they are equal once the
fields of every object stand in order of name. -/
namespace WideColumn

namespace Entries

theorem mapValues_insert (f : α → β) (name : String) (value : α) (entries : List (String × α)) :
    mapValues f (insert name value entries) = insert name (f value) (mapValues f entries) := by
  induction entries with
  | nil => rfl
  | cons entry rest ih =>
    obtain ⟨other, old⟩ := entry
    simp only [mapValues, List.map_cons, insert] at ih ⊢
    split
    · rfl
    · split
      · rfl
      · rw [List.map_cons, ih]

theorem mapValues_ofList (f : α → β) (entries : List (String × α)) :
    mapValues f (ofList entries) = ofList (mapValues f entries) := by
  have step : ∀ sorted : List (String × α),
      mapValues f (entries.foldl (fun sorted entry => insert entry.1 entry.2 sorted) sorted) =
        (mapValues f entries).foldl (fun sorted entry => insert entry.1 entry.2 sorted)
          (mapValues f sorted) := by
    induction entries with
    | nil => exact fun _ => rfl
    | cons entry rest ih =>
      intro sorted
      rw [List.foldl_cons, ih, mapValues_insert]
      rfl
  exact step []

theorem mem_of_mem_ofList {entry : String × α} {entries : List (String × α)}
    (member : entry ∈ ofList entries) : entry ∈ entries := by
  have step : ∀ sorted : List (String × α),
      entry ∈ entries.foldl (fun sorted entry => insert entry.1 entry.2 sorted) sorted →
        entry ∈ sorted ∨ entry ∈ entries := by
    clear member
    induction entries with
    | nil => exact fun _ member => .inl member
    | cons first rest ih =>
      intro sorted member
      rcases ih _ member with early | late
      · rcases mem_insert early with same | old
        · exact .inr (same ▸ List.mem_cons_self)
        · exact .inl old
      · exact .inr (List.mem_cons_of_mem _ late)
  exact (step [] member).resolve_left List.not_mem_nil

theorem nodup_of_ordered {α : Type} {entries : List (String × α)} (ordered : Ordered entries) :
    (entries.map Prod.fst).Nodup :=
  NameMap.nodup_names ⟨entries, ordered⟩

theorem ofList_of_ordered {α : Type} {entries : List (String × α)} (ordered : Ordered entries) :
    ofList entries = entries :=
  eq_of_get?_eq (ordered_ofList entries) ordered (NameMap.get?_ofList (nodup_of_ordered ordered))

end Entries

namespace Json

mutual

/-- The tree with the fields of its objects in order of name. -/
def sorted : Json → Json
  | .array items => .array (sortedItems items)
  | .object fields => .object (Entries.ofList (sortedFields fields))
  | j => j

def sortedItems : List Json → List Json
  | [] => []
  | item :: rest => item.sorted :: sortedItems rest

def sortedFields : List (String × Json) → List (String × Json)
  | [] => []
  | (name, value) :: rest => (name, value.sorted) :: sortedFields rest

end

mutual

/-- No object of the tree has two fields of one name. -/
def namesDistinct : Json → Bool
  | .array items => namesDistinctItems items
  | .object fields => decide (fields.map Prod.fst).Nodup && namesDistinctFields fields
  | _ => true

def namesDistinctItems : List Json → Bool
  | [] => true
  | item :: rest => item.namesDistinct && namesDistinctItems rest

def namesDistinctFields : List (String × Json) → Bool
  | [] => true
  | (_, value) :: rest => value.namesDistinct && namesDistinctFields rest

end

theorem sortedItems_eq_map (items : List Json) : sortedItems items = items.map sorted := by
  induction items with
  | nil => rfl
  | cons item rest ih => rw [sortedItems, ih, List.map_cons]

theorem sortedFields_eq_mapValues (fields : List (String × Json)) :
    sortedFields fields = Entries.mapValues sorted fields := by
  induction fields with
  | nil => rfl
  | cons field rest ih => rw [sortedFields, ih]; rfl

theorem namesDistinctItems_iff {items : List Json} :
    namesDistinctItems items ↔ ∀ j ∈ items, j.namesDistinct := by
  induction items with
  | nil => simp [namesDistinctItems]
  | cons item rest ih => simp [namesDistinctItems, ih]

theorem namesDistinctFields_iff {fields : List (String × Json)} :
    namesDistinctFields fields ↔ ∀ field ∈ fields, field.2.namesDistinct := by
  induction fields with
  | nil => simp [namesDistinctFields]
  | cons field rest ih => simp [namesDistinctFields, ih]

theorem namesDistinct_object {fields : List (String × Json)} :
    (Json.object fields).namesDistinct ↔
      (fields.map Prod.fst).Nodup ∧ ∀ field ∈ fields, field.2.namesDistinct := by
  rw [namesDistinct, Bool.and_eq_true, decide_eq_true_iff, namesDistinctFields_iff]

theorem sorted_eq_string {j : Json} : j.sorted = .string text ↔ j = .string text := by
  cases j <;> simp [sorted]

theorem sorted_eq_bool {j : Json} : j.sorted = .bool b ↔ j = .bool b := by
  cases j <;> simp [sorted]

theorem sorted_eq_array {j : Json} {items : List Json} :
    j.sorted = .array items ↔ ∃ parts, j = .array parts ∧ parts.map sorted = items := by
  cases j <;> simp [sorted, sortedItems_eq_map]

theorem sorted_eq_object {j : Json} {fields : List (String × Json)} :
    j.sorted = .object fields ↔
      ∃ parts, j = .object parts ∧ Entries.ofList (Entries.mapValues sorted parts) = fields := by
  cases j <;> simp [sorted, sortedFields_eq_mapValues]

theorem map_sorted_eq_strings {parts : List Json} {texts : List String} :
    parts.map sorted = texts.map .string ↔ parts = texts.map .string := by
  induction parts generalizing texts with
  | nil => simp
  | cons part rest ih => cases texts <;> simp [sorted_eq_string, ih]

/-- The fields of an object with distinct names, sorted themselves but not among each other. -/
theorem sorted_fields_perm {parts : List (String × Json)}
    (distinct : (Json.object parts).namesDistinct) :
    (Entries.ofList (Entries.mapValues sorted parts)).Perm (Entries.mapValues sorted parts) := by
  apply Entries.ofList_perm
  rw [Entries.names_mapValues]
  exact (namesDistinct_object.1 distinct).1

/-- A tree that is sorted into an object with one field is such an object already. -/
theorem sorted_eq_single {j value : Json} (distinct : j.namesDistinct)
    (same : j.sorted = .object [(name, value)]) :
    ∃ part, j = .object [(name, part)] ∧ part.sorted = value ∧ part.namesDistinct := by
  obtain ⟨parts, rfl, single⟩ := sorted_eq_object.1 same
  have perm := sorted_fields_perm distinct
  rw [single] at perm
  obtain ⟨⟨other, part⟩, rfl, field⟩ := List.map_eq_singleton_iff.1 (List.perm_singleton.1 perm.symm)
  obtain ⟨rfl, rfl⟩ := Prod.mk.inj field
  exact ⟨part, rfl, rfl, (namesDistinct_object.1 distinct).2 _ List.mem_cons_self⟩

theorem sorted_eq_strings {j : Json} {texts : List String} :
    j.sorted = .array (texts.map .string) ↔ j = .array (texts.map .string) := by
  rw [sorted_eq_array]
  constructor
  · rintro ⟨parts, rfl, same⟩
    rw [map_sorted_eq_strings.1 same]
  · rintro rfl
    exact ⟨_, rfl, map_sorted_eq_strings.2 rfl⟩

end Json

end WideColumn
