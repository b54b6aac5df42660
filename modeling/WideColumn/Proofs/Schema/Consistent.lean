import WideColumn.Proofs.Schema.Checks

/-! Which drafts build. `Draft.Consistent` says it of the declarations alone, whatever order they
are checked in: no two names collide, every name that is mentioned was declared, the bindings fit
the indexes they are for, and together they feed no key attribute from two sources. The table of
a built schema holds exactly what its draft feeds. -/
namespace WideColumn

open Outcome

namespace Draft

/-- The source of a key attribute of a bound index. A local index takes no partition source and
is fed from the one of the primary index. -/
inductive Feeds (d : Draft) : (key source : String) → Prop where
  | partition (given : b ∈ d.bindings) (known : i ∈ d.catalog.indexes) (bound : i.name = b.index)
      (own : b.partition = some source) : Feeds d i.partition source
  | shared (given : b ∈ d.bindings) (known : i ∈ d.catalog.indexes) (bound : i.name = b.index)
      (none : b.partition = none) (primary : p ∈ d.bindings)
      (first : p.index = d.catalog.primary.name) (own : p.partition = some source) :
      Feeds d i.partition source
  | sort (given : b ∈ d.bindings) (known : i ∈ d.catalog.indexes) (bound : i.name = b.index)
      (physical : i.sort = some key) (own : b.sort = some source) : Feeds d key source

structure Consistent (d : Draft) : Prop where
  targetUndeclared : ∀ j ∈ d.joined, j.target ∉ d.attributes
  targetNoKey : ∀ j ∈ d.joined, ∀ i ∈ d.catalog.indexes, j.target ∉ i.keyAttributes
  targetsDistinct : (d.joined.map (·.target)).Nodup
  reads : ∀ j ∈ d.joined, j.sources ≠ []
  readsDeclared : ∀ j ∈ d.joined, ∀ source ∈ j.sources, source ∈ d.attributes
  requiredDeclared : ∀ name ∈ d.required, name ∈ d.attributes
  immutableDeclared : ∀ name ∈ d.immutable, name ∈ d.attributes
  mutatedDeclared : ∀ m ∈ d.mutators, m.target ∈ d.attributes
  indexKnown : ∀ b ∈ d.bindings, ∃ i ∈ d.catalog.indexes, i.name = b.index
  boundOnce : (d.bindings.map (·.index)).Nodup
  /-- Local indexes take no partition source, all others take one. -/
  partitionSource : ∀ b ∈ d.bindings, ∀ i ∈ d.catalog.indexes, i.name = b.index →
    (b.partition = none ↔ i.kind = .localSecondary)
  sortSource : ∀ b ∈ d.bindings, ∀ i ∈ d.catalog.indexes, i.name = b.index →
    (b.sort = none ↔ i.sort = none)
  sourceKnown : ∀ b ∈ d.bindings, ∀ source, b.partition = some source ∨ b.sort = some source →
    source ∈ d.attributes ∨ ∃ j ∈ d.joined, j.target = source
  primaryBound : ∃ b ∈ d.bindings, b.index = d.catalog.primary.name
  oneSource : ∀ key first second, d.Feeds key first → d.Feeds key second → first = second
  ownSource : ∀ name ∈ d.attributes, ∀ source, d.Feeds name source → source = name

section Bound

variable {d : Draft} {indexes : List Index} {primary : BoundIndex} {others : List BoundIndex}
  (checked : Catalog.ofIndexes indexes = .ok d.catalog)
  (once : (d.bindings.map (·.index)).Nodup)
  (done : bindAll d.catalog d.bindings = .ok (primary, others))
include checked once done

/-- The bound indexes are those that a binding names, and a binding without a partition source
takes the one of the primary index. -/
theorem mem_bindAll : ∃ p ∈ d.bindings, ∃ source, p.index = d.catalog.primary.name ∧
    p.partition = some source ∧ ∀ bound, bound ∈ primary :: others ↔
      ∃ b ∈ d.bindings, ∃ i ∈ d.catalog.indexes, i.name = b.index ∧
        bound = ⟨i, b.partition.getD source, b.sort⟩ := by
  obtain ⟨p, source, found, own, rfl, rfl⟩ := bindAll_ok.1 done
  obtain ⟨given, first⟩ := (find?_name_iff once).1 found
  refine ⟨p, given, source, first, own, fun bound => ?_⟩
  simp only [List.mem_cons, List.mem_filterMap, List.mem_filter, bind?, Option.map_eq_some_iff,
    find?_name_iff once]
  constructor
  · rintro (rfl | ⟨i, ⟨known, -⟩, b, ⟨given, named⟩, rfl⟩)
    · exact ⟨p, given, _, Catalog.primary_mem checked, first.symm, by simp [own]⟩
    · exact ⟨b, given, i, known, named.symm, rfl⟩
  · rintro ⟨b, given', i, known, named, rfl⟩
    cases isPrimary : i.isPrimary with
    | true =>
      obtain rfl := Catalog.primary_unique checked known isPrimary
      obtain rfl := List.inj_on_of_nodup_map once given' given (named.symm.trans first.symm)
      exact .inl (by simp [own])
    | false => exact .inr ⟨i, ⟨known, by simp [isPrimary]⟩, b, ⟨given', named.symm⟩, rfl⟩

theorem feeds_iff : d.Feeds key name ↔
    (key, name) ∈ (primary :: others).flatMap BoundIndex.keySources := by
  obtain ⟨p, given, source, first, own, bound⟩ := mem_bindAll checked once done
  simp only [List.mem_flatMap, bound, BoundIndex.mem_keySources]
  constructor
  · rintro (⟨hb, hi, named, hown⟩ | ⟨hb, hi, named, none, hp, again, hown⟩ | ⟨hb, hi, named, physical, hown⟩)
    · exact ⟨_, ⟨_, hb, _, hi, named, rfl⟩, .inl ⟨rfl, by simp [hown]⟩⟩
    · obtain rfl := List.inj_on_of_nodup_map once hp given (again.trans first.symm)
      exact ⟨_, ⟨_, hb, _, hi, named, rfl⟩, .inl ⟨rfl, by simpa [none, own] using hown.symm⟩⟩
    · exact ⟨_, ⟨_, hb, _, hi, named, rfl⟩, .inr ⟨physical, hown⟩⟩
  · rintro ⟨_, ⟨b, hb, i, hi, named, rfl⟩, ⟨rfl, rfl⟩ | ⟨physical, hown⟩⟩
    · cases none : b.partition with
      | none => exact .shared hb hi named none given first own
      | some own => exact .partition hb hi named none
    · exact .sort hb hi named physical hown

/-- The table of the bound indexes holds what the draft feeds. -/
theorem mem_ofBindings (table : BindingTable.ofBindings (primary :: others) = .ok keys) :
    (key, name) ∈ keys.pairs ↔ d.Feeds key name := by
  rw [feeds_iff checked once done]
  simpa using (BindingTable.insertAll_ok table (by simp)).2 (key, name)

end Bound

section Checks

variable {d : Draft} {s : Schema} {indexes : List Index}
  (checked : Catalog.ofIndexes indexes = .ok d.catalog)
include checked

/-- The index that a binding is checked against is the one it names. -/
theorem bindingAdmitted_iff {known : String → Bool} : BindingAdmitted d.catalog known b ↔
    (∃ i ∈ d.catalog.indexes, i.name = b.index) ∧
    (∀ i ∈ d.catalog.indexes, i.name = b.index →
      (b.partition = none ↔ i.kind = .localSecondary) ∧ (b.sort = none ↔ i.sort = none)) ∧
    ∀ source, b.partition = some source ∨ b.sort = some source → known source := by
  have get (i : Index) : d.catalog.get b.index = .ok i ↔ i ∈ d.catalog.indexes ∧ i.name = b.index :=
    Catalog.get_iff (Catalog.nodup_names checked)
  constructor
  · rintro ⟨⟨i, named, fits⟩, sources⟩
    obtain ⟨member, name⟩ := (get i).1 named
    refine ⟨⟨i, member, name⟩, fun other hother again => ?_, sources⟩
    obtain rfl : other = i := Except.ok.inj (((get other).2 ⟨hother, again⟩).symm.trans named)
    exact checkSources_ok.1 fits
  · rintro ⟨⟨i, member, name⟩, fits, sources⟩
    exact ⟨⟨i, (get i).2 ⟨member, name⟩, checkSources_ok.2 (fits i member name)⟩, sources⟩

theorem Checked.mem_keys (passed : Checked d s) :
    (key, name) ∈ s.keys.pairs ↔ d.Feeds key name :=
  mem_ofBindings checked (checkBindings_ok.1 passed.bindings).2 passed.bound passed.table

theorem Checked.consistent (passed : Checked d s) : d.Consistent := by
  have attributes (name : String) : name ∈ s.attributes ↔ name ∈ d.attributes := by
    rw [passed.made]
    exact mem_distinct
  have feeds {key name : String} : (key, name) ∈ s.keys.pairs ↔ d.Feeds key name :=
    passed.mem_keys checked
  have keysDistinct := (BindingTable.insertAll_ok passed.table (by simp)).1
  obtain ⟨joined, targets⟩ := checkJoined_ok.1 passed.joined
  have declared := checkDeclared_ok.1 passed.names
  simp only [List.mem_append, List.mem_map, attributes] at declared
  obtain ⟨admitted, once⟩ := checkBindings_ok.1 passed.bindings
  have admitted (b) (given : b ∈ d.bindings) := (bindingAdmitted_iff checked).1 (admitted b given).1
  constructor
  case targetUndeclared => exact fun j member => (attributes _).not.1 (joined j member).1.undeclared
  case targetNoKey =>
    intro j member i known stands
    exact (joined j member).1.noKey (Catalog.isKeyAttribute_iff.2 ⟨i, known, stands⟩)
  case targetsDistinct => exact targets
  case reads => exact fun j member => (joined j member).1.reads
  case readsDeclared =>
    exact fun j member source named => (attributes _).1 ((joined j member).1.sources source named)
  case requiredDeclared => exact fun name member => declared name (.inl (.inl member))
  case immutableDeclared => exact fun name member => declared name (.inl (.inr member))
  case mutatedDeclared => exact fun m member => declared m.target (.inr ⟨m, member, rfl⟩)
  case indexKnown => exact fun b given => (admitted b given).1
  case boundOnce => exact once
  case partitionSource => exact fun b given i known named => ((admitted b given).2.1 i known named).1
  case sortSource => exact fun b given i known named => ((admitted b given).2.1 i known named).2
  case sourceKnown =>
    intro b given source stands
    simpa [attributes] using (admitted b given).2.2 source stands
  case primaryBound =>
    obtain ⟨p, given, source, first, -, -⟩ := mem_bindAll checked once passed.bound
    exact ⟨p, given, first⟩
  case oneSource =>
    intro key first second hfirst hsecond
    exact BindingTable.oneSource_of_nodup keysDistinct key first second (feeds.2 hfirst)
      (feeds.2 hsecond)
  case ownSource =>
    intro name member source fed
    have found := BindingTable.source?_of_mem keysDistinct (feeds.2 fed)
    exact checkKeys_ok.1 passed.ownKeys name ((attributes _).2 member) source found

/-- The primary index takes a partition source, so it is bound and lends it to the local ones. -/
theorem Consistent.bindAll_ok (consistent : d.Consistent) :
    ∃ primary others, bindAll d.catalog d.bindings = .ok (primary, others) := by
  obtain ⟨p, given, first⟩ := consistent.primaryBound
  have kind : d.catalog.primary.kind = .primary := by
    simpa [Index.isPrimary] using Catalog.primary_isPrimary checked
  have fits := consistent.partitionSource p given _ (Catalog.primary_mem checked) first.symm
  obtain ⟨source, own⟩ : ∃ source, p.partition = some source :=
    Option.ne_none_iff_exists'.1 fun none => by simp [kind, none] at fits
  have found := (find?_name_iff consistent.boundOnce).2 ⟨given, first⟩
  exact ⟨_, _, Draft.bindAll_ok.2 ⟨p, source, found, own, rfl, rfl⟩⟩

theorem Consistent.builds (consistent : d.Consistent) : ∃ s, d.build = .ok s := by
  obtain ⟨primary, others, bound⟩ := consistent.bindAll_ok checked
  have once := consistent.boundOnce
  obtain ⟨keys, table⟩ := BindingTable.exists_ofBindings_iff.2 fun key a b ha hb =>
    consistent.oneSource key a b ((feeds_iff checked once bound).2 ha)
      ((feeds_iff checked once bound).2 hb)
  refine ⟨{
    table := d.table, catalog := d.catalog, attributes := distinct d.attributes,
    required := d.required, primary, secondary := others, joined := d.joined,
    mutators := d.mutators, immutable := d.immutable, storeAliases := d.storeAliases, keys },
    build_ok.2 ?_⟩
  constructor
  case joined =>
    refine checkJoined_ok.2 ⟨fun j member => ⟨⟨?_, ?_, consistent.reads j member, ?_⟩, by simp⟩,
      consistent.targetsDistinct⟩
    · exact mem_distinct.not.2 (consistent.targetUndeclared j member)
    · intro isKey
      obtain ⟨i, known, stands⟩ := Catalog.isKeyAttribute_iff.1 isKey
      exact consistent.targetNoKey j member i known stands
    · exact fun source named => mem_distinct.2 (consistent.readsDeclared j member source named)
  case names =>
    refine checkDeclared_ok.2 fun name member => mem_distinct.2 ?_
    simp only [List.mem_append, List.mem_map] at member
    rcases member with (required | immutable) | ⟨m, mutated, rfl⟩
    · exact consistent.requiredDeclared name required
    · exact consistent.immutableDeclared name immutable
    · exact consistent.mutatedDeclared m mutated
  case bindings =>
    refine checkBindings_ok.2 ⟨fun b hb => ⟨(bindingAdmitted_iff checked).2 ⟨?_, ?_, ?_⟩, by simp⟩,
      consistent.boundOnce⟩
    · exact consistent.indexKnown b hb
    · exact fun i known named =>
        ⟨consistent.partitionSource b hb i known named, consistent.sortSource b hb i known named⟩
    · intro source stands
      simpa [mem_distinct] using consistent.sourceKnown b hb source stands
  case bound => exact bound
  case table => exact table
  case ownKeys =>
    refine checkKeys_ok.2 fun name member source found => ?_
    have fed := (mem_ofBindings checked once bound table).1 (BindingTable.mem_of_source? found)
    exact consistent.ownSource name (mem_distinct.1 member) source fed
  case made => rfl

theorem builds_iff_consistent : (∃ s, d.build = .ok s) ↔ d.Consistent := by
  constructor
  · rintro ⟨s, built⟩
    exact (build_ok.1 built).consistent checked
  · exact fun consistent => consistent.builds checked

end Checks

end Draft

/-! A catalog that lists a local index before the primary one, whose sort attribute a global index
shares. The first draft feeds the shared attribute from one source, the second one from two. -/
namespace Shipments

def indexes : List Index :=
  [.localSecondary "byLeg" "legKey", .primary "id" (some "sk"),
    .globalSecondary "byTime" "sk" (some "idKey")]

def catalog : Catalog :=
  ⟨[⟨"byLeg", "id", some "legKey", .localSecondary⟩, .primary "id" (some "sk"),
    .globalSecondary "byTime" "sk" (some "idKey")], .primary "id" (some "sk")⟩

def draft : Draft where
  table := "shipments"
  catalog := catalog
  attributes := ["id", "at", "route", "id"]
  required := ["id"]
  immutable := ["at"]
  joined := [⟨"leg", ["route", "at"], "~"⟩]
  bindings := [⟨"byTime", some "at", some "id"⟩, ⟨"table", some "id", some "at"⟩,
    ⟨"byLeg", none, some "leg"⟩]

def clashing : Draft :=
  { draft with
    bindings := [⟨"byTime", some "route", some "id"⟩, ⟨"table", some "id", some "at"⟩,
      ⟨"byLeg", none, some "leg"⟩] }

end Shipments

theorem Draft.builds_iff_consistent_shipments :
    Catalog.ofIndexes Shipments.indexes = .ok Shipments.catalog ∧ Shipments.draft.Consistent ∧
      Shipments.clashing.build = .error (.binding (.twoSources "sk" "at" "route")) ∧
      ¬Shipments.clashing.Consistent := by
  have checked : Catalog.ofIndexes Shipments.indexes = .ok Shipments.catalog := rfl
  have refused : Shipments.clashing.build =
      .error (.binding (.twoSources "sk" "at" "route")) := rfl
  have consistent := (Draft.builds_iff_consistent (d := Shipments.draft) checked).1 ⟨_, rfl⟩
  refine ⟨checked, consistent, refused, fun clashes => ?_⟩
  obtain ⟨s, built⟩ := (Draft.builds_iff_consistent (d := Shipments.clashing) checked).2 clashes
  cases refused.symm.trans built

end WideColumn
