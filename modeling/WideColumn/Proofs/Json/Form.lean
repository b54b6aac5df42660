import WideColumn.Json.Form
import WideColumn.Proofs.Json.Sorted

/-! Forms that lose nothing. A value is read back from its own document, and from every tree that
differs from it only in the order in which objects have their fields. The order of a map of attribute
values is part of how it is held and not of what it is, so such maps are taken to be in order. -/
namespace WideColumn

open Outcome

namespace Json

/-- The tree is the other one with the fields of its objects arranged in some order. -/
structure Arranges (j k : Json) : Prop where
  distinct : j.namesDistinct
  same : j.sorted = k.sorted

variable {j k : Json}

theorem sorted_eq_integer {n : Int} : j.sorted = .integer n ↔ j = .integer n := by
  cases j <;> simp [sorted]

theorem sorted_eq_null : j.sorted = .null ↔ j = .null := by
  cases j <;> simp [sorted]

namespace Arranges

theorem refl (distinct : j.namesDistinct) : j.Arranges j := ⟨distinct, rfl⟩

theorem eq_string (arranges : j.Arranges (.string text)) : j = .string text :=
  sorted_eq_string.1 arranges.same

theorem eq_bool (arranges : j.Arranges (.bool b)) : j = .bool b :=
  sorted_eq_bool.1 arranges.same

theorem eq_integer {n : Int} (arranges : j.Arranges (.integer n)) : j = .integer n :=
  sorted_eq_integer.1 arranges.same

theorem eq_array {items : List Json} (arranges : j.Arranges (.array items)) :
    ∃ parts, j = .array parts ∧ List.Forall₂ Arranges parts items := by
  obtain ⟨parts, rfl, same⟩ := sorted_eq_array.1
    (arranges.same.trans (congrArg Json.array (sortedItems_eq_map items)))
  have distinct := namesDistinctItems_iff.1 arranges.distinct
  refine ⟨parts, rfl, ?_⟩
  apply List.forall₂_iff_get.2
  have length : parts.length = items.length := by simpa using congrArg List.length same
  refine ⟨length, fun i here there => ⟨distinct _ (List.get_mem ..), ?_⟩⟩
  have at_i : (parts.map sorted)[i]? = (items.map sorted)[i]? := by rw [same]
  simpa [here, there] using at_i

/-- The two trees have the same names, and behind each of them what the one has arranges what the
other one has. -/
theorem eq_object {fields : List (String × Json)} (arranges : j.Arranges (.object fields))
    (distinct : (Json.object fields).namesDistinct) :
    ∃ parts, j = .object parts ∧ (parts.map Prod.fst).Perm (fields.map Prod.fst) ∧
      ∀ part ∈ parts, ∃ k, (part.1, k) ∈ fields ∧ part.2.Arranges k := by
  obtain ⟨parts, rfl, same⟩ := sorted_eq_object.1
    (arranges.same.trans (congrArg (fun fs => Json.object (Entries.ofList fs))
      (sortedFields_eq_mapValues fields)))
  have perm : (Entries.mapValues sorted parts).Perm (Entries.mapValues sorted fields) := by
    refine (sorted_fields_perm arranges.distinct).symm.trans ?_
    rw [same]
    exact sorted_fields_perm distinct
  refine ⟨parts, rfl, ?_, ?_⟩
  · simpa only [Entries.names_mapValues] using perm.map Prod.fst
  · intro part member
    have moved := perm.mem_iff.1 (List.mem_map_of_mem member)
    obtain ⟨⟨name, k⟩, field, same⟩ := List.mem_map.1 moved
    obtain ⟨rfl, same⟩ := Prod.mk.inj same
    exact ⟨k, field, (namesDistinct_object.1 arranges.distinct).2 part member, same.symm⟩

end Arranges

end Json

namespace JsonForm

/-- What is read back from its document however that is arranged. -/
class Lawful (α : Type) [JsonForm α] where
  /-- The maps of attribute values in it are in order of name. -/
  Ordered : α → Prop
  distinct : ∀ a : α, Ordered a → (encode a).namesDistinct
  reads : ∀ (a : α) (j : Json), Ordered a → j.Arranges (encode a) → decode j.document = .ok a
  injective : Function.Injective (encode : α → Json)
  /-- `null` is left for what is not there. -/
  ne_null : ∀ a : α, encode a ≠ .null

open Lawful (Ordered)

theorem encode_injective [JsonForm α] (reads : ∀ a : α, decode (encode a).document = .ok a) :
    Function.Injective (encode : α → Json) := by
  intro a b same
  have read := reads a
  rw [same, reads b] at read
  exact (Except.ok.inj read).symm

instance : Lawful String where
  Ordered _ := True
  distinct _ _ := rfl
  reads text j _ arranges := by
    rw [arranges.eq_string]
    rfl
  injective _ _ := Json.string.inj
  ne_null _ := nofun

@[simp] theorem ordered_string (text : String) : Ordered text := trivial

instance : Lawful Bool where
  Ordered _ := True
  distinct _ _ := rfl
  reads b j _ arranges := by
    rw [arranges.eq_bool]
    rfl
  injective _ _ := Json.bool.inj
  ne_null _ := nofun

@[simp] theorem ordered_bool (b : Bool) : Ordered b := trivial

instance : Lawful Int32 where
  Ordered _ := True
  distinct _ _ := rfl
  reads n j _ arranges := by
    rw [arranges.eq_integer]
    have bounds := And.intro n.minValue_le_toInt n.toInt_le
    simp only [decode, decodeInteger, Json.document, if_pos bounds, Int32.ofInt_toInt]
  injective _ _ same := Int32.toInt_inj.1 (Json.integer.inj same)
  ne_null _ := nofun

@[simp] theorem ordered_int32 (n : Int32) : Ordered n := trivial

instance : Lawful Int64 where
  Ordered _ := True
  distinct _ _ := rfl
  reads n j _ arranges := by
    rw [arranges.eq_integer]
    have bounds := And.intro n.minValue_le_toInt n.toInt_le
    simp only [decode, decodeInteger, Json.document, if_pos bounds, Int64.ofInt_toInt]
  injective _ _ same := Int64.toInt_inj.1 (Json.integer.inj same)
  ne_null _ := nofun

@[simp] theorem ordered_int64 (n : Int64) : Ordered n := trivial

/-- Entries are read one by one, each as an entry of the map that the tree was written for. -/
theorem decodeEntries_all [JsonForm α] {m : NameMap α} {parts : List (String × Json)}
    (all : ∀ part ∈ parts, ∃ a, (part.1, a) ∈ m.entries ∧ decode part.2.document = .ok a) :
    ∃ entries : List (String × α), decodeEntries (Json.documentFields parts) = .ok entries ∧
      entries.map Prod.fst = parts.map Prod.fst ∧ ∀ entry ∈ entries, entry ∈ m.entries := by
  induction parts with
  | nil => exact ⟨[], rfl, rfl, by simp⟩
  | cons part rest ih =>
    obtain ⟨⟨a, member, reads⟩, others⟩ := List.forall_mem_cons.1 all
    obtain ⟨entries, done, names, members⟩ := ih others
    refine ⟨(part.1, a) :: entries, ?_, by rw [List.map_cons, List.map_cons, names],
      List.forall_mem_cons.2 ⟨member, members⟩⟩
    simp only [Json.documentFields, decodeEntries, bind_ok, pure_ok]
    exact ⟨a, reads, entries, done, rfl⟩

section

variable [JsonForm α] [Lawful α]

theorem decodeList_arranged {items : List α} {parts : List Json}
    (ordered : ∀ a ∈ items, Ordered a) (arranged : List.Forall₂ Json.Arranges parts (items.map encode)) :
    decodeList (Json.documentItems parts) = .ok items := by
  induction items generalizing parts with
  | nil =>
    obtain rfl := List.forall₂_nil_right_iff.1 arranged
    rfl
  | cons a rest ih =>
    obtain ⟨part, others, arranges, later, rfl⟩ := List.forall₂_cons_right_iff.1 arranged
    obtain ⟨here, there⟩ := List.forall_mem_cons.1 ordered
    simp only [Json.documentItems, decodeList, bind_ok, pure_ok]
    exact ⟨a, Lawful.reads a part here arranges, rest, ih there later, rfl⟩

instance : Lawful (List α) where
  Ordered items := ∀ a ∈ items, Ordered a
  distinct items ordered := by
    apply Json.namesDistinctItems_iff.2
    simpa using fun a member => Lawful.distinct a (ordered a member)
  reads items j ordered arranges := by
    obtain ⟨parts, rfl, arranged⟩ := arranges.eq_array
    exact decodeList_arranged ordered arranged
  injective _ _ same := (List.map_inj_right fun _ _ => (Lawful.injective ·)).1 (Json.array.inj same)
  ne_null _ := nofun

@[simp] theorem ordered_list (all : ∀ a : α, Ordered a) (items : List α) : Ordered items :=
  fun a _ => all a

theorem distinct_entries {m : NameMap α} (ordered : ∀ entry ∈ m.entries, Ordered entry.2) :
    (encode m).namesDistinct := by
  apply Json.namesDistinct_object.2
  rw [Entries.names_mapValues]
  refine ⟨m.nodup_names, fun field member => ?_⟩
  obtain ⟨entry, here, rfl⟩ := List.mem_map.1 member
  exact Lawful.distinct entry.2 (ordered entry here)

theorem decodeEntries_arranged {m : NameMap α} (ordered : ∀ entry ∈ m.entries, Ordered entry.2)
    {j : Json} (arranges : j.Arranges (encode m)) : decode j.document = .ok m := by
  obtain ⟨parts, rfl, names, all⟩ := arranges.eq_object (distinct_entries ordered)
  rw [Entries.names_mapValues] at names
  have read : ∀ part ∈ parts, ∃ a, (part.1, a) ∈ m.entries ∧ decode part.2.document = .ok a := by
    intro part member
    obtain ⟨k, field, arranges⟩ := all part member
    obtain ⟨⟨name, a⟩, entry, same⟩ := List.mem_map.1 field
    obtain ⟨rfl, rfl⟩ := Prod.mk.inj same
    exact ⟨a, entry, Lawful.reads a part.2 (ordered _ entry) arranges⟩
  obtain ⟨entries, done, found, members⟩ := decodeEntries_all read
  have back : NameMap.ofList entries = m := by
    apply NameMap.ext_get?
    intro name
    rw [NameMap.get?_ofList_of_all fun entry member => NameMap.get?_eq_some_iff.2 (members entry member),
      found]
    split
    · rfl
    · next absent =>
      have unnamed := fun present => absent (names.mem_iff.2 (NameMap.mem_names.2 present))
      exact (NameMap.get?_eq_none_iff.2 (Bool.eq_false_iff.2 unnamed)).symm
  exact map_ok.2 ⟨entries, done, back⟩

instance : Lawful (NameMap α) where
  Ordered m := ∀ entry ∈ m.entries, Ordered entry.2
  distinct _ ordered := distinct_entries ordered
  reads _ _ ordered arranges := decodeEntries_arranged ordered arranges
  injective m n same := by
    have pair : Function.Injective fun entry : String × α => (entry.1, (encode entry.2 : Json)) := by
      intro first second same
      obtain ⟨name, value⟩ := Prod.mk.inj same
      exact Prod.ext name (Lawful.injective value)
    have entries := (List.map_inj_right fun _ _ => (pair ·)).1 (Json.object.inj same)
    cases m
    cases n
    simpa using entries
  ne_null _ := nofun

@[simp] theorem ordered_map (all : ∀ a : α, Ordered a) (m : NameMap α) : Ordered m :=
  fun entry _ => all entry.2

end

end JsonForm

end WideColumn
