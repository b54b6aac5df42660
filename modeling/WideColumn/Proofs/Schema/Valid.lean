import WideColumn.Proofs.Schema.Consistent

/-! What a built schema can be relied on for. `Schema.Valid` states how declared, joined and
key names stand apart, and `Draft.build_valid` derives it from what is consistent about the
draft. Records, loading and storing rest on these facts without looking at the draft again. -/
namespace WideColumn

open Outcome

/-- A schema that was built over a catalog that was checked. -/
def Schema.Built (s : Schema) : Prop :=
  ∃ (indexes : List Index) (d : Draft), Catalog.ofIndexes indexes = .ok d.catalog ∧ d.build = .ok s

structure Schema.Valid (s : Schema) : Prop where
  sourcesDeclared : ∀ j ∈ s.joined, ∀ source ∈ j.sources, s.isDeclared source
  targetUndeclared : ∀ j ∈ s.joined, ¬s.isDeclared j.target
  targetNoKey : ∀ j ∈ s.joined, ¬s.keys.isKey j.target
  targetsDistinct : (s.joined.map (·.target)).Nodup
  /-- A key has one source. -/
  keysDistinct : (s.keys.pairs.map Prod.fst).Nodup
  keySource : ∀ key source, (key, source) ∈ s.keys.pairs → s.isDeclared source ∨ s.isJoined source
  /-- A declared key is its own source. -/
  ownSource : ∀ key source, (key, source) ∈ s.keys.pairs → s.isDeclared key → source = key
  bound : ∀ pair, pair ∈ s.keys.pairs ↔ pair ∈ s.bindings.flatMap BoundIndex.keySources

namespace Draft

variable {d : Draft}

theorem Feeds.keyAttribute (fed : d.Feeds key source) :
    ∃ i ∈ d.catalog.indexes, key ∈ i.keyAttributes := by
  cases fed with
  | partition _ known => exact ⟨_, known, List.mem_cons_self⟩
  | shared _ known => exact ⟨_, known, List.mem_cons_self⟩
  | sort _ known _ physical => exact ⟨_, known, by simp [Index.keyAttributes, physical]⟩

theorem Feeds.named (fed : d.Feeds key source) :
    ∃ b ∈ d.bindings, b.partition = some source ∨ b.sort = some source := by
  cases fed with
  | partition given _ _ own => exact ⟨_, given, .inl own⟩
  | shared _ _ _ _ primary _ own => exact ⟨_, primary, .inl own⟩
  | sort given _ _ _ own => exact ⟨_, given, .inr own⟩

theorem build_valid (checked : Catalog.ofIndexes indexes = .ok d.catalog) (built : build d = .ok s) :
    s.Valid := by
  have passed := build_ok.1 built
  have consistent := passed.consistent checked
  have feeds (key name : String) : (key, name) ∈ s.keys.pairs ↔ d.Feeds key name :=
    passed.mem_keys checked
  obtain ⟨keysDistinct, mem⟩ := BindingTable.insertAll_ok passed.table (by simp)
  have joined : s.joined = d.joined := by rw [passed.made]
  have declared (name : String) : s.isDeclared name ↔ name ∈ d.attributes := by
    rw [passed.made]
    simp [Schema.isDeclared, mem_distinct]
  constructor
  case sourcesDeclared =>
    exact fun j member source named =>
      (declared _).2 (consistent.readsDeclared j (joined ▸ member) source named)
  case targetUndeclared =>
    exact fun j member => (declared _).not.2 (consistent.targetUndeclared j (joined ▸ member))
  case targetNoKey =>
    intro j member isKey
    obtain ⟨source, pair⟩ := BindingTable.isKey_iff.1 isKey
    obtain ⟨i, known, stands⟩ := ((feeds _ _).1 pair).keyAttribute
    exact consistent.targetNoKey j (joined ▸ member) i known stands
  case targetsDistinct => exact joined ▸ consistent.targetsDistinct
  case keysDistinct => exact keysDistinct
  case keySource =>
    intro key source pair
    obtain ⟨b, given, named⟩ := ((feeds _ _).1 pair).named
    have known := consistent.sourceKnown b given source named
    simpa [declared, Schema.isJoined, Schema.joined?, joined] using known
  case ownSource =>
    exact fun key source pair own =>
      consistent.ownSource key ((declared _).1 own) source ((feeds _ _).1 pair)
  case bound => exact fun pair => by simpa using mem pair

end Draft

theorem Schema.Built.valid (built : Built s) : s.Valid := by
  obtain ⟨indexes, d, checked, built⟩ := built
  exact Draft.build_valid checked built

namespace Schema

theorem isJoined_iff {s : Schema} : s.isJoined name ↔ ∃ j ∈ s.joined, j.target = name := by
  simp [isJoined, joined?]

namespace Valid

variable {s : Schema} (valid : s.Valid)
include valid

theorem source_unique (first : (key, a) ∈ s.keys.pairs) (second : (key, b) ∈ s.keys.pairs) :
    a = b :=
  (Prod.mk.inj (List.inj_on_of_nodup_map valid.keysDistinct first second rfl)).2

theorem joined_unique (first : j ∈ s.joined) (second : k ∈ s.joined) (same : j.target = k.target) :
    j = k :=
  List.inj_on_of_nodup_map valid.targetsDistinct first second same

theorem joined_undeclared (joined : s.isJoined name) : ¬s.isDeclared name := by
  obtain ⟨j, member, rfl⟩ := isJoined_iff.1 joined
  exact valid.targetUndeclared j member

theorem joined_noKey (joined : s.isJoined name) : (name, source) ∉ s.keys.pairs := by
  obtain ⟨j, member, rfl⟩ := isJoined_iff.1 joined
  exact fun pair => valid.targetNoKey j member (BindingTable.isKey_iff.2 ⟨source, pair⟩)

/-- A source that is itself a key feeds that key. -/
theorem source_own (pair : (key, source) ∈ s.keys.pairs) (again : (source, other) ∈ s.keys.pairs) :
    other = source := by
  rcases valid.keySource _ _ pair with declared | joined
  · exact valid.ownSource _ _ again declared
  · exact absurd again (valid.joined_noKey joined)

end Valid

end Schema

/-! A schema to try statements on: a primary key whose sort attribute is declared and its own
source, a second index fed by a declared and a joined attribute, and sources that are not stored. -/
namespace Orders

def catalog : Catalog :=
  ⟨[.primary "pk" (some "at"), .globalSecondary "byKind" "kindKey" (some "kindAtKey")],
    .primary "pk" (some "at")⟩

def draft : Draft where
  table := "orders"
  catalog := catalog
  attributes := ["account", "at", "kind", "note"]
  immutable := ["account"]
  storeAliases := false
  joined := [⟨"kindAt", ["kind", "at"], "~"⟩]
  bindings := [⟨"table", some "account", some "at"⟩, ⟨"byKind", some "kind", some "kindAt"⟩]
  mutators := [⟨"note", fun _ value _ => .list [value]⟩]

def schema : Schema where
  table := "orders"
  catalog := catalog
  attributes := ["account", "at", "kind", "note"]
  required := []
  primary := ⟨.primary "pk" (some "at"), "account", some "at"⟩
  secondary := [⟨.globalSecondary "byKind" "kindKey" (some "kindAtKey"), "kind", some "kindAt"⟩]
  joined := [⟨"kindAt", ["kind", "at"], "~"⟩]
  mutators := [⟨"note", fun _ value _ => .list [value]⟩]
  immutable := ["account"]
  storeAliases := false
  keys := ⟨[("pk", "account"), ("at", "at"), ("kindKey", "kind"), ("kindAtKey", "kindAt")]⟩

theorem built : schema.Built := ⟨catalog.indexes, draft, rfl, rfl⟩

end Orders

end WideColumn
