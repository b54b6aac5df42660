import WideColumn.Proofs.Catalog

/-! Which lists of indexes make a catalog, and which table descriptions. `Catalog.Admitted` says
it of the list alone: what the loop asks of an index hangs on the list and its primary index only,
so their order does not matter. A description gives its indexes by a relation. -/
namespace WideColumn

open Outcome

/-- In a list without repetitions the one entry with a property is all that a filter leaves. -/
theorem filter_eq_singleton_iff {xs : List α} (distinct : xs.Nodup) {p : α → Bool} :
    xs.filter p = [a] ↔ ∀ x, x ∈ xs ∧ p x ↔ x = a := by
  constructor
  · intro only x
    rw [← List.mem_filter, only, List.mem_singleton]
  · intro only
    have same : (xs.filter p).Perm [a] := by
      rw [List.perm_ext_iff_of_nodup (distinct.filter p) (List.nodup_singleton a)]
      intro x
      rw [List.mem_filter, only x, List.mem_singleton]
    exact List.perm_singleton.1 same

namespace Index

theorem under_under (partition : String) (i : Index) :
    (i.under partition).under partition = i.under partition := by
  by_cases isLocal : i.kind = .localSecondary
  · rw [under_local partition isLocal]
    exact under_local partition isLocal
  · rw [under_other partition isLocal, under_other partition isLocal]

/-- A completed index fits as it is. -/
theorem Fits.under {partition : String} {i : Index} (fits : i.Fits partition) :
    (i.under partition).Fits partition where
  own other := by
    have same : i.kind ≠ .localSecondary := other
    rw [under_other partition same]
    exact fits.own same
  sort := fits.sort
  shared isLocal := by
    have same : i.kind = .localSecondary := isLocal
    rw [under_local partition same]
    exact .inr rfl

end Index

namespace Catalog

/-- A list of indexes with distinct names, of which one is primary and the others fit to it. -/
structure Admitted (all : List Index) (primary : Index) : Prop where
  distinct : (all.map (·.name)).Nodup
  only : ∀ i, i ∈ all ∧ i.kind = .primary ↔ i = primary
  named : primary.name = "table"
  own : ∀ i ∈ all, i.kind ≠ .localSecondary → i.partition ≠ ""
  sort : ∀ i ∈ all, i.kind = .localSecondary → i.sort ≠ none
  shared : ∀ i ∈ all, i.kind = .localSecondary →
    i.partition = "" ∨ i.partition = primary.partition

variable {all : List Index} {primary : Index} {c : Catalog}

theorem admitted_iff : Admitted all primary ↔
    (all.map (·.name)).Nodup ∧ all.filter (·.isPrimary) = [primary] ∧
      primary.name = Index.primaryName ∧ ∀ i ∈ all, i.Fits primary.partition := by
  have filter (distinct : (all.map (·.name)).Nodup) := filter_eq_singleton_iff (a := primary)
    (distinct.of_map _) (p := (·.isPrimary))
  simp only [Index.isPrimary_iff] at filter
  constructor
  · rintro ⟨distinct, only, named, own, sort, shared⟩
    exact ⟨distinct, (filter distinct).2 only, named,
      fun i member => ⟨own i member, sort i member, shared i member⟩⟩
  · rintro ⟨distinct, only, named, fits⟩
    exact ⟨distinct, (filter distinct).1 only, named, fun i member => (fits i member).own,
      fun i member => (fits i member).sort, fun i member => (fits i member).shared⟩

/-- The catalog of an admitted list: the same indexes, the local ones under the primary partition. -/
theorem ofIndexes_iff : ofIndexes all = .ok c ↔
    Admitted all c.primary ∧ c.indexes = all.map (Index.under c.primary.partition) := by
  rw [ofIndexes_ok, admitted_iff]
  constructor
  · rintro ⟨distinct, only, named, each⟩
    obtain ⟨fits, indexes⟩ := completeAll_ok.1 each
    exact ⟨⟨distinct, only, named, fits⟩, indexes⟩
  · rintro ⟨⟨distinct, only, named, fits⟩, indexes⟩
    exact ⟨distinct, only, named, completeAll_ok.2 ⟨fits, indexes⟩⟩

/-- What completing makes of an admitted list is admitted again. -/
theorem Admitted.under (admitted : Admitted all primary) :
    Admitted (all.map (Index.under primary.partition)) primary := by
  obtain ⟨distinct, only, named, fits⟩ := admitted_iff.1 admitted
  have stays : primary.under primary.partition = primary := by
    have given : primary ∈ all.filter (·.isPrimary) := by simp [only]
    exact Index.under_primary _ (List.mem_filter.1 given).2
  refine admitted_iff.2 ⟨?_, ?_, named, ?_⟩
  · rw [List.map_map]
    exact distinct
  · rw [List.filter_map, show (·.isPrimary) ∘ Index.under primary.partition = (·.isPrimary) from rfl,
      only, List.map_singleton, stays]
  · intro i member
    obtain ⟨given, hgiven, rfl⟩ := List.mem_map.1 member
    exact (fits given hgiven).under

theorem ofIndexes_indexes (checked : ofIndexes all = .ok c) :
    ofIndexes c.indexes = .ok c := by
  obtain ⟨admitted, indexes⟩ := ofIndexes_iff.1 checked
  rw [ofIndexes_iff, indexes]
  refine ⟨admitted.under, ?_⟩
  rw [List.map_map]
  exact List.map_congr_left fun i _ => (Index.under_under _ i).symm

theorem exists_ofIndexes_iff :
    (∃ c, ofIndexes all = .ok c) ↔ ∃ primary, Admitted all primary := by
  constructor
  · rintro ⟨c, checked⟩
    exact ⟨c.primary, (ofIndexes_iff.1 checked).1⟩
  · rintro ⟨primary, admitted⟩
    exact ⟨⟨all.map (Index.under primary.partition), primary⟩, ofIndexes_iff.2 ⟨admitted, rfl⟩⟩

end Catalog

/-! Descriptions. -/

/-- The attributes of a role, in the order of the key. -/
def KeyRole.names (role : KeyRole) (keys : List KeyElement) : List String :=
  (keys.filter fun key => key.role == role).map (·.name)

theorem KeyRole.mem_names {role : KeyRole} {keys : List KeyElement} :
    name ∈ role.names keys ↔ ∃ key ∈ keys, key.role = role ∧ key.name = name := by
  simp [names, and_assoc]

/-- Of each role the first attribute counts. -/
structure Index.DescribedBy (i : Index) (name : String) (kind : IndexKind) (keys : List KeyElement) :
    Prop where
  name : i.name = name
  kind : i.kind = kind
  partition : (KeyRole.partition.names keys).head? = some i.partition
  sort : (KeyRole.sort.names keys).head? = i.sort

namespace Index

variable {name : String} {kind : IndexKind} {keys : List KeyElement}

theorem ofKeys_ok {i : Index} : ofKeys name keys kind = .ok i ↔ i.DescribedBy name kind keys := by
  have first (role : KeyRole) :
      (keys.find? fun key => key.role == role).map (·.name) = (role.names keys).head? := by
    rw [KeyRole.names, List.head?_map, List.head?_filter]
  obtain ⟨iname, ipartition, isort, ikind⟩ := i
  simp only [ofKeys, first]
  constructor
  · intro done
    split at done <;> cases done
    next found => exact ⟨rfl, rfl, found, rfl⟩
  · rintro ⟨rfl, rfl, partition, rfl⟩
    simp only [partition]

theorem exists_describedBy : (∃ i : Index, i.DescribedBy name kind keys) ↔
    ∃ key ∈ keys, key.role = .partition := by
  constructor
  · rintro ⟨i, described⟩
    obtain ⟨key, given, role, -⟩ := KeyRole.mem_names.1 (List.mem_of_mem_head? described.partition)
    exact ⟨key, given, role⟩
  · rintro ⟨key, given, role⟩
    have member := KeyRole.mem_names.2 ⟨key, given, role, rfl⟩
    obtain ⟨partition, rest, whole⟩ := List.exists_cons_of_ne_nil (List.ne_nil_of_mem member)
    exact ⟨⟨name, partition, _, kind⟩, rfl, rfl, by simp [whole], rfl⟩

theorem DescribedBy.unique {i j : Index} (first : i.DescribedBy name kind keys)
    (second : j.DescribedBy name kind keys) : i = j :=
  Except.ok.inj ((ofKeys_ok.2 first).symm.trans (ofKeys_ok.2 second))

end Index

/-- A secondary index has to have a name. -/
def IndexDescription.Gives (kind : IndexKind) (d : IndexDescription) (i : Index) : Prop :=
  d.name = some i.name ∧ i.DescribedBy i.name kind d.keys

/-- The indexes of a table: the primary one, then the global and then the local ones. -/
inductive TableDescription.Lists (table : TableDescription) : List Index → Prop where
  | mk (primary : Index.DescribedBy p Index.primaryName .primary table.keys)
      (globals : List.Forall₂ (IndexDescription.Gives .globalSecondary) table.globalIndexes gs)
      (locals : List.Forall₂ (IndexDescription.Gives .localSecondary) table.localIndexes ls) :
      Lists table (p :: gs ++ ls)

/-- Every key has a partition attribute, and every secondary index a name. -/
structure TableDescription.Keyed (table : TableDescription) : Prop where
  primary : ∃ key ∈ table.keys, key.role = .partition
  named : ∀ d ∈ table.globalIndexes ++ table.localIndexes, d.name ≠ none
  secondary : ∀ d ∈ table.globalIndexes ++ table.localIndexes, ∃ key ∈ d.keys, key.role = .partition

namespace Catalog

theorem ofDescriptions_ok {descriptions : List IndexDescription} {indexes : List Index} :
    ofDescriptions kind descriptions = .ok indexes ↔
      List.Forall₂ (IndexDescription.Gives kind) descriptions indexes := by
  induction descriptions generalizing indexes with
  | nil => simp [ofDescriptions, eq_comm]
  | cons d rest ih =>
    rw [List.forall₂_cons_left_iff, ofDescriptions]
    constructor
    · intro done
      split at done
      · next name named =>
        simp only [bind_ok, pure_ok, Index.ofKeys_ok, ih] at done
        obtain ⟨i, described, others, gives, rfl⟩ := done
        exact ⟨i, others, ⟨described.name ▸ named, described.name ▸ described⟩, gives, rfl⟩
      · simp [throw_ok] at done
    · rintro ⟨i, others, ⟨named, described⟩, gives, rfl⟩
      simp only [named, bind_ok, pure_ok, Index.ofKeys_ok, ih]
      exact ⟨i, described, others, gives, rfl⟩

/-- A description makes the catalog of the indexes that it lists. -/
theorem ofDescription_eq {table : TableDescription} {listed : List Index} (lists : table.Lists listed) :
    ofDescription table = ofIndexes listed := by
  obtain ⟨primary, globals, locals⟩ := lists
  simp only [ofDescription, Index.ofKeys_ok.2 primary, ofDescriptions_ok.2 globals,
    ofDescriptions_ok.2 locals, ok_bind]

theorem lists_of_ofDescription {table : TableDescription} {c : Catalog}
    (done : ofDescription table = .ok c) : ∃ listed, table.Lists listed := by
  simp only [ofDescription, bind_ok, Index.ofKeys_ok, ofDescriptions_ok] at done
  obtain ⟨p, primary, gs, globals, ls, locals, -⟩ := done
  exact ⟨_, primary, globals, locals⟩

end Catalog

/-- A relation leads a whole list on where it leads each entry on. -/
theorem exists_forall₂_iff {R : α → β → Prop} {xs : List α} :
    (∃ ys, List.Forall₂ R xs ys) ↔ ∀ x ∈ xs, ∃ y, R x y := by
  induction xs with
  | nil => simp
  | cons x rest ih =>
    rw [List.forall_mem_cons, ← ih]
    simp only [List.forall₂_cons_left_iff]
    constructor
    · rintro ⟨_, y, ys, here, there, rfl⟩
      exact ⟨⟨y, here⟩, ys, there⟩
    · rintro ⟨⟨y, here⟩, ys, there⟩
      exact ⟨_, y, ys, here, there, rfl⟩

theorem IndexDescription.exists_gives {d : IndexDescription} :
    (∃ i, d.Gives kind i) ↔ d.name ≠ none ∧ ∃ key ∈ d.keys, key.role = .partition := by
  constructor
  · rintro ⟨i, named, described⟩
    exact ⟨by simp [named], Index.exists_describedBy.1 ⟨i, described⟩⟩
  · rintro ⟨named, keyed⟩
    obtain ⟨name, same⟩ := Option.ne_none_iff_exists'.1 named
    obtain ⟨i, described⟩ := Index.exists_describedBy.2 keyed
    exact ⟨i, described.name ▸ same, described.name ▸ described⟩

namespace TableDescription

variable {table : TableDescription}

theorem Lists.unique (first : table.Lists listed) (second : table.Lists again) : listed = again := by
  have gives (kind : IndexKind) : Relator.RightUnique (IndexDescription.Gives kind) := by
    rintro d i j ⟨named, described⟩ ⟨named', described'⟩
    have same : i.name = j.name := Option.some.inj (named.symm.trans named')
    exact Index.DescribedBy.unique described (same ▸ described')
  obtain ⟨primary, globals, locals⟩ := first
  obtain ⟨primary', globals', locals'⟩ := second
  rw [primary.unique primary', (gives _).forall₂ globals globals', (gives _).forall₂ locals locals']

theorem exists_lists : (∃ listed, table.Lists listed) ↔ table.Keyed := by
  constructor
  · rintro ⟨_, primary, globals, locals⟩
    have each : ∀ d ∈ table.globalIndexes ++ table.localIndexes,
        d.name ≠ none ∧ ∃ key ∈ d.keys, key.role = .partition :=
      List.forall_mem_append.2
        ⟨fun d member => IndexDescription.exists_gives.1 (exists_forall₂_iff.1 ⟨_, globals⟩ d member),
          fun d member => IndexDescription.exists_gives.1 (exists_forall₂_iff.1 ⟨_, locals⟩ d member)⟩
    exact ⟨Index.exists_describedBy.1 ⟨_, primary⟩, fun d member => (each d member).1,
      fun d member => (each d member).2⟩
  · rintro ⟨keyed, named, secondary⟩
    have each (d) (member : d ∈ table.globalIndexes ++ table.localIndexes) (kind : IndexKind) :
        ∃ i, d.Gives kind i :=
      IndexDescription.exists_gives.2 ⟨named d member, secondary d member⟩
    obtain ⟨p, primary⟩ := Index.exists_describedBy.2 keyed
    obtain ⟨gs, globals⟩ := exists_forall₂_iff.2 fun d member => each d (List.mem_append_left _ member) _
    obtain ⟨ls, locals⟩ := exists_forall₂_iff.2 fun d member => each d (List.mem_append_right _ member) _
    exact ⟨_, primary, globals, locals⟩

end TableDescription

/-- A catalog is made of exactly the admitted lists. It holds their indexes in their order, changed in
the partition attributes of the local ones only, with the one primary index among them, and it is
made again of what it holds. A description is taken exactly when it is keyed and its list is
admitted, and makes the catalog of that list. -/
theorem Catalog.made_iff_admitted (all : List Index) (table : TableDescription) :
    ((∃ c, ofIndexes all = .ok c) ↔ ∃ primary, Admitted all primary) ∧
    (∀ c, ofIndexes all = .ok c →
      (c.indexes = all.map fun i =>
        { i with
          partition := if i.kind = .localSecondary then c.primary.partition else i.partition }) ∧
      (∀ i, i ∈ c.indexes ∧ i.kind = .primary ↔ i = c.primary) ∧
      ofIndexes c.indexes = .ok c) ∧
    (table.Keyed ↔ ∃! listed, table.Lists listed) ∧
    ((∃ c, ofDescription table = .ok c) ↔
      table.Keyed ∧ ∀ listed, table.Lists listed → ∃ primary, Admitted listed primary) ∧
    ∀ listed, table.Lists listed → ofDescription table = ofIndexes listed := by
  refine ⟨exists_ofIndexes_iff, ?_, ?_, ?_, fun listed => ofDescription_eq⟩
  · intro c checked
    obtain ⟨admitted, indexes⟩ := ofIndexes_iff.1 checked
    exact ⟨indexes, indexes ▸ admitted.under.only, ofIndexes_indexes checked⟩
  · rw [← TableDescription.exists_lists]
    exact ⟨fun ⟨listed, lists⟩ => ⟨listed, lists, fun _ again => again.unique lists⟩,
      fun ⟨listed, lists, _⟩ => ⟨listed, lists⟩⟩
  · constructor
    · rintro ⟨c, done⟩
      refine ⟨TableDescription.exists_lists.1 (lists_of_ofDescription done), fun listed lists => ?_⟩
      exact exists_ofIndexes_iff.1 ⟨c, ofDescription_eq lists ▸ done⟩
    · rintro ⟨keyed, admitted⟩
      obtain ⟨listed, lists⟩ := TableDescription.exists_lists.2 keyed
      rw [ofDescription_eq lists]
      exact exists_ofIndexes_iff.2 (admitted listed lists)

/-! A local index in front of the primary one, and a description with a sort attribute in front of
the partition attribute. -/
namespace Parcels

def indexes : List Index :=
  [.localSecondary "byWeight" "weight", .primary "id" (some "at"), .globalSecondary "byTown" "town" none]

def description : TableDescription where
  keys := [⟨"at", .sort⟩, ⟨"id", .partition⟩]
  localIndexes := [{ name := some "byWeight", keys := [⟨"id", .partition⟩, ⟨"weight", .sort⟩] }]
  globalIndexes := [{ name := some "byTown", keys := [⟨"town", .partition⟩] }]

def listed : List Index :=
  [.primary "id" (some "at"), .globalSecondary "byTown" "town" none,
    ⟨"byWeight", "id", some "weight", .localSecondary⟩]

theorem lists : description.Lists listed := by
  have primary : Index.DescribedBy (.primary "id" (some "at")) Index.primaryName .primary
      description.keys := ⟨rfl, rfl, rfl, rfl⟩
  have globals : List.Forall₂ (IndexDescription.Gives .globalSecondary) description.globalIndexes
      [.globalSecondary "byTown" "town" none] := .cons ⟨rfl, rfl, rfl, rfl, rfl⟩ .nil
  have locals : List.Forall₂ (IndexDescription.Gives .localSecondary) description.localIndexes
      [⟨"byWeight", "id", some "weight", .localSecondary⟩] := .cons ⟨rfl, rfl, rfl, rfl, rfl⟩ .nil
  exact .mk primary globals locals

end Parcels

theorem Catalog.made_iff_admitted_parcels :
    (∃ primary, Admitted Parcels.indexes primary) ∧
      ofIndexes [⟨"byWeight", "id", some "weight", .localSecondary⟩, .primary "id" (some "at"),
        .globalSecondary "byTown" "town" none] = ofIndexes Parcels.indexes ∧
      ofDescription Parcels.description = ofIndexes Parcels.listed := by
  obtain ⟨accepted, holds, -, -, described⟩ :=
    Catalog.made_iff_admitted Parcels.indexes Parcels.description
  have checked : ofIndexes Parcels.indexes = .ok ⟨[⟨"byWeight", "id", some "weight", .localSecondary⟩,
    .primary "id" (some "at"), .globalSecondary "byTown" "town" none], .primary "id" (some "at")⟩ := rfl
  obtain ⟨-, -, again⟩ := holds _ checked
  exact ⟨accepted.1 ⟨_, checked⟩, again.trans checked.symm, described _ Parcels.lists⟩

end WideColumn
