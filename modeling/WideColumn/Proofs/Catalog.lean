import WideColumn.Catalog
import WideColumn.Proofs.NameMap

/-! What a checked catalog can be relied on for. The names of its indexes are distinct, so an
index is found by its name; exactly one index is primary, and it is the one the catalog points
to. `Catalog.Completed` says once what the check has established, and the rest follows from it. -/
namespace WideColumn

open Outcome

namespace Index

/-- With the partition attribute that is given, if it is a local index. -/
def under (partition : String) (i : Index) : Index :=
  { i with partition := if i.kind = .localSecondary then partition else i.partition }

@[simp] theorem under_name (partition : String) (i : Index) : (i.under partition).name = i.name := rfl

@[simp] theorem under_kind (partition : String) (i : Index) : (i.under partition).kind = i.kind := rfl

@[simp] theorem under_sort (partition : String) (i : Index) : (i.under partition).sort = i.sort := rfl

theorem under_other (partition : String) {i : Index} (other : i.kind ≠ .localSecondary) :
    i.under partition = i := by
  rw [under, if_neg other]

theorem under_local (partition : String) {i : Index} (isLocal : i.kind = .localSecondary) :
    i.under partition = { i with partition } := by
  rw [under, if_pos isLocal]

theorem isPrimary_iff {i : Index} : i.isPrimary ↔ i.kind = .primary := by simp [isPrimary]

theorem under_primary (partition : String) {i : Index} (primary : i.isPrimary) :
    i.under partition = i :=
  under_other partition (by simp [isPrimary_iff.1 primary])

/-- What is asked of one index beside the partition attribute of the primary index. -/
structure Fits (partition : String) (i : Index) : Prop where
  own : i.kind ≠ .localSecondary → i.partition ≠ ""
  sort : i.kind = .localSecondary → i.sort ≠ none
  shared : i.kind = .localSecondary → i.partition = "" ∨ i.partition = partition

end Index

namespace Catalog

theorem repeated?_eq_none_iff {names seen : List String} :
    repeated? seen names = none ↔ (∀ name ∈ names, name ∉ seen) ∧ names.Nodup := by
  induction names generalizing seen with
  | nil => simp [repeated?]
  | cons name rest ih =>
    unfold repeated?
    by_cases stands : name ∈ seen
    · simp [stands]
    · simp only [List.contains_eq_mem, stands, decide_false, Bool.false_eq_true, if_false, ih,
        List.nodup_cons, List.mem_cons, not_or]
      grind

/-- An index that fits is taken over, a local one under the given partition attribute. -/
theorem complete_ok : complete partition i = .ok i' ↔ i.Fits partition ∧ i' = i.under partition := by
  unfold complete
  by_cases isLocal : i.kind = .localSecondary
  · have fits : i.Fits partition ↔ i.sort ≠ none ∧ (i.partition = "" ∨ i.partition = partition) :=
      ⟨fun fits => ⟨fits.sort isLocal, fits.shared isLocal⟩,
        fun ⟨sort, shared⟩ => ⟨absurd isLocal, fun _ => sort, fun _ => shared⟩⟩
    rw [fits, Index.under_local partition isLocal, if_neg (not_not.2 isLocal)]
    by_cases sort : i.sort = none
    · simp [sort]
    · by_cases shared : i.partition = "" ∨ i.partition = partition
      · simpa [sort, shared] using eq_comm
      · simp [sort, shared]
  · have fits : i.Fits partition ↔ i.partition ≠ "" :=
      ⟨fun fits => fits.own isLocal,
        fun own => ⟨fun _ => own, fun same => absurd same isLocal, fun same => absurd same isLocal⟩⟩
    rw [fits, Index.under_other partition isLocal, if_pos isLocal]
    by_cases own : i.partition = ""
    · simp [own]
    · simpa [own] using eq_comm

theorem completeAll_ok {all completed : List Index} :
    completeAll partition all = .ok completed ↔
      (∀ i ∈ all, i.Fits partition) ∧ completed = all.map (Index.under partition) := by
  induction all generalizing completed with
  | nil => simp [completeAll, eq_comm]
  | cons first rest ih =>
    simp only [completeAll, bind_ok, pure_ok, complete_ok, ih, List.forall_mem_cons, List.map_cons]
    constructor
    · rintro ⟨_, ⟨fits, rfl⟩, _, ⟨others, rfl⟩, rfl⟩
      exact ⟨⟨fits, others⟩, rfl⟩
    · rintro ⟨⟨fits, others⟩, rfl⟩
      exact ⟨_, ⟨fits, rfl⟩, _, ⟨others, rfl⟩, rfl⟩

/-- What the check of a list of indexes has established about the catalog. -/
structure Completed (all : List Index) (c : Catalog) : Prop where
  distinct : (all.map (·.name)).Nodup
  only : all.filter (·.isPrimary) = [c.primary]
  named : c.primary.name = Index.primaryName
  each : completeAll c.primary.partition all = .ok c.indexes

theorem ofIndexes_ok {all : List Index} : ofIndexes all = .ok c ↔ Completed all c := by
  rw [ofIndexes, mapError_ok, check]
  constructor
  · intro done
    split at done
    · simp [bind_ok, throw_ok] at done
    next fresh =>
      have distinct := (repeated?_eq_none_iff.1 (Option.eq_none_iff_forall_ne_some.2 fresh)).2
      split at done
      · simp [throw_ok] at done
      · next primary only =>
        simp only [check_ok, bind_ok, pure_ok] at done
        obtain ⟨named, completed, hall, rfl⟩ := done
        exact ⟨distinct, only, by simpa using named, hall⟩
      · simp [throw_ok] at done
  · rintro ⟨distinct, only, named, each⟩
    have fresh : repeated? [] (all.map (·.name)) = none := repeated?_eq_none_iff.2 ⟨by simp, distinct⟩
    simp only [fresh, only, named, each]
    rfl

section Checked

variable {all : List Index} {c : Catalog} (checked : ofIndexes all = .ok c)
include checked

/-- The indexes stay, in their order, and the local ones share the primary partition. -/
theorem indexes_eq : c.indexes = all.map (Index.under c.primary.partition) :=
  (completeAll_ok.1 (ofIndexes_ok.1 checked).each).2

theorem nodup_names : (c.indexes.map (·.name)).Nodup := by
  rw [indexes_eq checked, List.map_map]
  exact (ofIndexes_ok.1 checked).distinct

theorem mem_filter_primary : i ∈ all.filter (·.isPrimary) ↔ i = c.primary := by
  rw [(ofIndexes_ok.1 checked).only, List.mem_singleton]

theorem primary_isPrimary : c.primary.isPrimary :=
  (List.mem_filter.1 ((mem_filter_primary checked).2 rfl)).2

/-- A completed index that is primary is the primary index. -/
theorem primary_unique (member : i ∈ c.indexes) (primary : i.isPrimary) : i = c.primary := by
  rw [indexes_eq checked] at member
  obtain ⟨given, hgiven, rfl⟩ := List.mem_map.1 member
  have givenPrimary : given.isPrimary := primary
  rw [Index.under_primary _ givenPrimary]
  exact (mem_filter_primary checked).1 (List.mem_filter.2 ⟨hgiven, givenPrimary⟩)

/-- The primary index of a checked catalog is one of its indexes. -/
theorem primary_mem : c.primary ∈ c.indexes := by
  obtain ⟨given, primary⟩ := List.mem_filter.1 ((mem_filter_primary checked).2 rfl)
  rw [indexes_eq checked]
  exact List.mem_map.2 ⟨_, given, Index.under_primary _ primary⟩

end Checked

theorem get_ok {c : Catalog} (done : c.get name = .ok i) : i ∈ c.indexes ∧ i.name = name := by
  unfold get find? at done
  split at done <;> cases done
  next found => exact ⟨List.mem_of_find?_eq_some found, by simpa using List.find?_some found⟩

/-- In a catalog with distinct names every index is found by its name. -/
theorem get_iff {c : Catalog} (distinct : (c.indexes.map (·.name)).Nodup) :
    c.get name = .ok i ↔ i ∈ c.indexes ∧ i.name = name := by
  refine ⟨get_ok, fun stands => ?_⟩
  simp [get, find?, (find?_name_iff distinct).2 stands]

theorem isKeyAttribute_iff {c : Catalog} :
    c.isKeyAttribute name ↔ ∃ i ∈ c.indexes, name ∈ i.keyAttributes := by
  simp [isKeyAttribute]

end Catalog

end WideColumn
