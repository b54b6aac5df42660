import WideColumn.Proofs.Schema.Resolution

/-! How a built schema is laid out: the order of its bound indexes, and the table of its keys.
Pairs are only ever added to the end of the table, and the pairs of the primary index are the
first ones to come; so of the keys that one source feeds, those of the primary index stand in
front. -/
namespace WideColumn

open Outcome

namespace BindingTable

variable {t : BindingTable}

theorem mem_keysOf_iff (distinct : (t.pairs.map Prod.fst).Nodup) :
    key ∈ t.keysOf source ↔ t.source? key = some source := by
  rw [mem_keysOf]
  exact ⟨source?_of_mem distinct, mem_of_source?⟩

theorem nodup_keysOf (distinct : (t.pairs.map Prod.fst).Nodup) (source : String) :
    (t.keysOf source).Nodup :=
  distinct.sublist (List.filter_sublist.map Prod.fst)

theorem insertAll_append {first second : List (String × String)}
    (done : t.insertAll (first ++ second) = .ok t') :
    ∃ between, t.insertAll first = .ok between ∧ between.insertAll second = .ok t' := by
  induction first generalizing t with
  | nil => exact ⟨t, rfl, done⟩
  | cons pair rest ih =>
    obtain ⟨key, source⟩ := pair
    simp only [List.cons_append, insertAll, bind_ok] at done
    obtain ⟨next, hnext, done⟩ := done
    obtain ⟨between, hrest, behind⟩ := ih done
    exact ⟨between, by simp [insertAll, hnext, hrest], behind⟩

theorem prefix_insertAll {more : List (String × String)} (done : t.insertAll more = .ok t') :
    t.pairs <+: t'.pairs := by
  induction more generalizing t with
  | nil => cases done; exact List.prefix_refl _
  | cons pair rest ih =>
    obtain ⟨key, source⟩ := pair
    simp only [insertAll, bind_ok] at done
    obtain ⟨next, hnext, done⟩ := done
    have step : t.pairs <+: next.pairs := by
      rcases insert_ok hnext with ⟨rfl, -⟩ | ⟨-, whole⟩
      · exact List.prefix_refl _
      · exact whole ▸ List.prefix_append _ _
    exact step.trans (ih done)

/-- The pairs of the first binding stand in front of all others. -/
theorem ofBindings_cons {rest : List BoundIndex} (done : ofBindings (first :: rest) = .ok t) :
    ∃ front behind, t.pairs = front ++ behind ∧ ∀ pair, pair ∈ front ↔ pair ∈ first.keySources := by
  obtain ⟨between, hfirst, hrest⟩ := insertAll_append done
  obtain ⟨behind, whole⟩ := prefix_insertAll hrest
  obtain ⟨-, mem⟩ := insertAll_ok hfirst (by simp)
  exact ⟨between.pairs, behind, whole.symm, fun pair => by simpa using mem pair⟩

/-- If the front of a table has a key for the source, the first key of the source is there. -/
theorem keysOf_front {front behind : List (String × String)} (whole : t.pairs = front ++ behind)
    (member : (key, source) ∈ front) :
    ∃ first rest, t.keysOf source = first :: rest ∧ (first, source) ∈ front := by
  have listed : (key, source) ∈ front.filter fun pair => pair.2 == source := by simpa using member
  obtain ⟨pair, rest, hfront⟩ := List.exists_cons_of_ne_nil (List.ne_nil_of_mem listed)
  have stands : pair ∈ front.filter fun pair => pair.2 == source := hfront ▸ List.mem_cons_self
  obtain ⟨inFront, own⟩ := List.mem_filter.1 stands
  obtain ⟨first, other⟩ := pair
  obtain rfl : other = source := by simpa using own
  refine ⟨first, (rest ++ behind.filter fun pair => pair.2 == other).map Prod.fst, ?_, inFront⟩
  rw [keysOf, whole, List.filter_append, hfront]
  rfl

end BindingTable

namespace Draft

variable {catalog : Catalog} {bindings : List Binding}

theorem sublist_bind? (bindings : List Binding) (source : String) (indexes : List Index) :
    ((indexes.filterMap (bind? bindings source)).map (·.index)).Sublist indexes := by
  induction indexes with
  | nil => exact .slnil
  | cons i rest ih =>
    cases found : bind? bindings source i with
    | none => simpa [found] using ih.cons i
    | some bound =>
      obtain ⟨b, -, rfl⟩ := Option.map_eq_some_iff.1 found
      simpa [found] using ih.cons_cons i

theorem nodup_bindAll (checked : Catalog.ofIndexes indexes = .ok catalog)
    (done : bindAll catalog bindings = .ok (primary, others)) :
    ((primary :: others).map (·.index.name)).Nodup := by
  obtain ⟨b, source, -, -, rfl, rfl⟩ := bindAll_ok.1 done
  have names := Catalog.nodup_names checked
  have order := sublist_bind? bindings source
    (catalog.indexes.filter fun i => !i.isPrimary)
  refine List.nodup_cons.2 ⟨fun again => ?_, ?_⟩
  · obtain ⟨bound, member, same⟩ := List.mem_map.1 again
    obtain ⟨known, secondary⟩ := List.mem_filter.1 (order.subset (List.mem_map_of_mem member))
    have first := List.inj_on_of_nodup_map names known (Catalog.primary_mem checked) same
    simp [first, Catalog.primary_isPrimary checked] at secondary
  · have inCatalog := (order.trans List.filter_sublist).map (·.name)
    rw [List.map_map] at inCatalog
    exact names.sublist inCatalog

end Draft

structure Schema.LaidOut (s : Schema) (d : Draft) : Prop where
  first : s.bindings.head?.map (·.index) = some s.catalog.primary
  inOrder : (s.bindings.tail.map (·.index)).Sublist s.catalog.indexes
  once : (s.bindings.map (·.index.name)).Nodup
  bound : ∀ i, (∃ b ∈ s.bindings, b.index = i) ↔
    i ∈ s.catalog.indexes ∧ ∃ b ∈ d.bindings, b.index = i.name
  inverse : ∀ key source, key ∈ s.keys.keysOf source ↔ s.keys.source? key = some source
  listedOnce : ∀ source, (s.keys.keysOf source).Nodup
  fed : ∀ key source, s.keys.source? key = some source ↔ d.Feeds key source
  ofBindings : ∀ key source, s.keys.source? key = some source ↔
    ∃ b ∈ s.bindings, (key, source) ∈ b.keySources
  joinedUndeclared : ∀ name, s.isJoined name → ¬s.isDeclared name
  joinedNoKey : ∀ name, s.isJoined name → ¬s.keys.isKey name
  ownSource : ∀ key source, s.isDeclared key → s.keys.source? key = some source → source = key
  /-- A key of the primary index that feeds keys itself feeds one of the primary index first. -/
  primaryFirst : ∀ key ∈ s.primary.index.keyAttributes, s.keys.isSource key →
    ∃ first rest, s.keys.keysOf key = first :: rest ∧ first ∈ s.primary.index.keyAttributes

namespace Schema

/-- Behind the primary index, the indexes stand in the order of the catalog. -/
theorem Built.inOrder (built : Built s) :
    (s.secondary.map (·.index)).Sublist s.catalog.indexes := by
  obtain ⟨indexes, d, -, built⟩ := built
  have passed := Draft.build_ok.1 built
  obtain ⟨b, source, -, -, -, others⟩ := Draft.bindAll_ok.1 passed.bound
  rw [passed.made, others]
  exact (Draft.sublist_bind? _ source _).trans List.filter_sublist

theorem Built.primary_fed (built : Built s) (member : key ∈ s.primary.index.keyAttributes) :
    ∃ source, (key, source) ∈ s.primary.keySources := by
  rcases List.mem_cons.1 member with rfl | sort
  · exact ⟨_, BoundIndex.mem_keySources.2 (.inl ⟨rfl, rfl⟩)⟩
  · have physical : s.primary.index.sort = some key := by simpa using sort
    have same := built.sortSource (b := s.primary) List.mem_cons_self
    obtain ⟨source, own⟩ := Option.isSome_iff_exists.1 (same.symm.trans (by rw [physical]; rfl))
    exact ⟨source, BoundIndex.mem_keySources.2 (.inr ⟨physical, own⟩)⟩

theorem Built.primary_pair (built : Built s) (pair : (key, source) ∈ s.primary.keySources) :
    (key, source) ∈ s.keys.pairs :=
  (built.valid.bound _).2 (List.mem_flatMap.2 ⟨s.primary, List.mem_cons_self, pair⟩)

/-- A primary key attribute that is a source is its own source, and so is among the first keys of
the table that it feeds. -/
theorem Built.primaryFirst (built : Built s) (member : key ∈ s.primary.index.keyAttributes)
    (isSource : s.keys.isSource key)
    (table : BindingTable.ofBindings s.bindings = .ok s.keys) :
    ∃ first rest, s.keys.keysOf key = first :: rest ∧ first ∈ s.primary.index.keyAttributes := by
  obtain ⟨front, behind, whole, inFront⟩ := BindingTable.ofBindings_cons table
  obtain ⟨source, feeds⟩ := built.primary_fed member
  obtain ⟨fed, pair⟩ := BindingTable.isSource_iff.1 isSource
  obtain rfl := built.valid.source_own pair (built.primary_pair feeds)
  obtain ⟨first, rest, keys, ofPrimary⟩ := BindingTable.keysOf_front whole ((inFront _).2 feeds)
  exact ⟨first, rest, keys, BoundIndex.mem_keyAttributes ((inFront _).1 ofPrimary)⟩

end Schema

theorem Draft.build_laidOut (checked : Catalog.ofIndexes indexes = .ok d.catalog)
    (built : Draft.build d = .ok s) : s.LaidOut d := by
  have passed := build_ok.1 built
  have isBuilt : s.Built := ⟨indexes, d, checked, built⟩
  have valid := isBuilt.valid
  have once := (passed.consistent checked).boundOnce
  have catalog : s.catalog = d.catalog := by rw [passed.made]
  have lookup (key source : String) : s.keys.source? key = some source ↔ (key, source) ∈ s.keys.pairs :=
    (BindingTable.mem_keysOf_iff valid.keysDistinct).symm.trans BindingTable.mem_keysOf
  obtain ⟨-, -, primarySource, -, -, bound⟩ := mem_bindAll checked once passed.bound
  obtain ⟨b, source, -, -, primary, -⟩ := bindAll_ok.1 passed.bound
  constructor
  case first => rw [catalog]; simp [Schema.bindings, primary]
  case inOrder => exact isBuilt.inOrder
  case once => exact nodup_bindAll checked passed.bound
  case bound =>
    intro i
    rw [catalog]
    constructor
    · rintro ⟨b, member, rfl⟩
      obtain ⟨binding, given, i, known, named, rfl⟩ := (bound b).1 member
      exact ⟨known, binding, given, named.symm⟩
    · rintro ⟨known, binding, given, named⟩
      exact ⟨_, (bound _).2 ⟨binding, given, i, known, named.symm, rfl⟩, rfl⟩
  case inverse => exact fun key source => BindingTable.mem_keysOf_iff valid.keysDistinct
  case listedOnce => exact BindingTable.nodup_keysOf valid.keysDistinct
  case fed => exact fun key source => (lookup key source).trans (passed.mem_keys checked)
  case ofBindings =>
    exact fun key source => ((lookup key source).trans (valid.bound _)).trans List.mem_flatMap
  case joinedUndeclared => exact fun name => valid.joined_undeclared
  case joinedNoKey =>
    intro name joined isKey
    obtain ⟨source, pair⟩ := BindingTable.isKey_iff.1 isKey
    exact valid.joined_noKey joined pair
  case ownSource =>
    exact fun key source declared found => valid.ownSource key source ((lookup _ _).1 found) declared
  case primaryFirst => exact fun key member isSource => isBuilt.primaryFirst member isSource passed.table

theorem Draft.build_laidOut_shipments :
    Catalog.ofIndexes Shipments.indexes = .ok Shipments.draft.catalog ∧
      ∃ s, Shipments.draft.build = .ok s ∧ s.LaidOut Shipments.draft ∧
        s.bindings.map (·.index.name) = ["table", "byLeg", "byTime"] ∧
        "id" ∈ s.primary.index.keyAttributes ∧ s.keys.keysOf "id" = ["id", "idKey"] ∧
        s.keys.source? "legKey" = some "leg" :=
  have checked : Catalog.ofIndexes Shipments.indexes = .ok Shipments.draft.catalog := rfl
  ⟨checked, _, rfl, Draft.build_laidOut checked rfl, rfl, by decide, rfl, rfl⟩

namespace Schema

variable {s : Schema}

theorem Built.nodup_bindings (built : s.Built) : (s.bindings.map (·.index.name)).Nodup := by
  obtain ⟨indexes, d, checked, built⟩ := built
  exact Draft.nodup_bindAll checked (Draft.build_ok.1 built).bound

theorem Built.index_mem (built : s.Built) (member : b ∈ s.bindings) :
    b.index ∈ s.catalog.indexes := by
  obtain ⟨indexes, d, checked, built⟩ := built
  have passed := Draft.build_ok.1 built
  have once := (passed.consistent checked).boundOnce
  obtain ⟨-, -, source, -, -, bound⟩ := Draft.mem_bindAll checked once passed.bound
  obtain ⟨binding, -, i, known, -, rfl⟩ := (bound b).1 member
  rw [passed.made]
  exact known

theorem Built.nodup_indexes (built : s.Built) : (s.catalog.indexes.map (·.name)).Nodup := by
  obtain ⟨indexes, d, checked, built⟩ := built
  rw [(Draft.build_ok.1 built).made]
  exact Catalog.nodup_names checked

theorem Built.named_iff (built : s.Built) :
    s.named index = .ok b ↔ b ∈ s.bindings ∧ b.index.name = index := by
  refine ⟨named_ok, ?_⟩
  rintro ⟨member, rfl⟩
  have inCatalog : s.catalog.get b.index.name = .ok b.index :=
    (Catalog.get_iff built.nodup_indexes).2 ⟨built.index_mem member, rfl⟩
  have found : s.binding? b.index.name = some b :=
    (find?_name_iff built.nodup_bindings).2 ⟨member, rfl⟩
  simp only [named, inCatalog, ok_bind, found]
  rfl

end Schema

end WideColumn
