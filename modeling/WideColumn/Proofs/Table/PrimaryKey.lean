import WideColumn.Proofs.Schema.Layout
import WideColumn.Proofs.Table.Loading
import WideColumn.Proofs.Update.Effect

/-! All operations address one object by one key. The key of a record, the item it is saved as,
the key of its update and the key that a read makes from the values of the sources agree on every
attribute of the primary key: keys are stored whatever becomes of their sources, they hold what
the sources hold, and an update is refused when one of them has changed. -/
namespace WideColumn

open Outcome

namespace Schema

theorem keyEntries_ok {values : NameMap Value} {names : List String}
    (done : keyEntries values names = .ok entries) : entries.map Prod.fst = names ∧
      ∀ entry ∈ entries, ∃ value, values.get? entry.1 = some value ∧ value.serialize = .ok entry.2 := by
  induction names generalizing entries with
  | nil => cases done; simp
  | cons name rest ih =>
    unfold keyEntries at done
    split at done
    · next value found =>
      simp only [bind_ok, pure_ok] at done
      obtain ⟨wire, serialized, others, hrest, rfl⟩ := done
      obtain ⟨names, each⟩ := ih hrest
      simp only [List.map_cons, names, List.mem_cons, forall_eq_or_imp]
      exact ⟨trivial, ⟨value, found, serialized⟩, each⟩
    · simp [throw_ok] at done

theorem keyEntries_total {values : NameMap Value} {names : List String}
    (each : ∀ name ∈ names, ∃ value wire, values.get? name = some value ∧ value.serialize = .ok wire) :
    ∃ entries, keyEntries values names = .ok entries := by
  induction names with
  | nil => exact ⟨[], rfl⟩
  | cons name rest ih =>
    obtain ⟨value, wire, found, serialized⟩ := each name List.mem_cons_self
    obtain ⟨others, hrest⟩ := ih fun name h => each name (List.mem_cons_of_mem _ h)
    exact ⟨(name, wire) :: others, by simp [keyEntries, found, serialized, hrest, pure, Except.pure]⟩

theorem keyOf_total {s : Schema} {values : NameMap Value}
    (each : ∀ name ∈ s.primary.index.keyAttributes, ∃ value wire, values.get? name = some value ∧
      value.serialize = .ok wire) : ∃ key, s.keyOf values = .ok key := by
  obtain ⟨entries, made⟩ := keyEntries_total each
  exact ⟨_, map_ok.2 ⟨entries, made, rfl⟩⟩

theorem keyOf_ok {s : Schema} {values : NameMap Value} (done : s.keyOf values = .ok key) :
    (∀ name, key.contains name ↔ name ∈ s.primary.index.keyAttributes) ∧
    ∀ name ∈ s.primary.index.keyAttributes, ∃ value wire, values.get? name = some value ∧
      value.serialize = .ok wire ∧ key.get? name = some wire := by
  obtain ⟨entries, made, rfl⟩ := map_ok.1 done
  obtain ⟨names, each⟩ := keyEntries_ok made
  have get? (name : String) := NameMap.get?_ofList_of_all
    (f := fun name => (values.get? name).bind fun value => value.serialize.toOption)
    (fun entry member => by
      obtain ⟨value, found, serialized⟩ := each entry member
      simp [found, serialized, Except.toOption]) name
  rw [names] at get?
  have stands (name) (member : name ∈ s.primary.index.keyAttributes) : ∃ value wire,
      values.get? name = some value ∧ value.serialize = .ok wire ∧
        (NameMap.ofList entries).get? name = some wire := by
    obtain ⟨entry, listed, rfl⟩ := List.mem_map.1 (names.symm ▸ member)
    obtain ⟨value, found, serialized⟩ := each entry listed
    refine ⟨value, entry.2, found, serialized, ?_⟩
    rw [get?, if_pos member, found]
    simp [serialized, Except.toOption]
  refine ⟨fun name => ⟨fun present => ?_, fun member => ?_⟩, stands⟩
  · by_contra absent
    rw [NameMap.contains, get?, if_neg absent] at present
    cases present
  · obtain ⟨-, wire, -, -, found⟩ := stands name member
    exact NameMap.contains_iff.2 ⟨wire, found⟩

theorem keyOf_eq_iff {s : Schema} {values others : NameMap Value} (first : s.keyOf values = .ok key)
    (second : s.keyOf others = .ok other) :
    other = key ↔ ∀ name ∈ s.primary.index.keyAttributes, other.get? name = key.get? name := by
  refine ⟨fun same name _ => by rw [same], fun agree => NameMap.ext_get? fun name => ?_⟩
  by_cases member : name ∈ s.primary.index.keyAttributes
  · exact agree name member
  · have absent {values : NameMap Value} {key : Key} (made : s.keyOf values = .ok key) :
        key.get? name = none :=
      NameMap.get?_eq_none_iff.2 (by simpa using mt ((keyOf_ok made).1 name).1 member)
    rw [absent first, absent second]

theorem Built.get?_persisted {s : Schema} (built : s.Built) (member : name ∈ s.primary.index.keyAttributes)
    (values : NameMap Value) : (s.persisted values).get? name = values.get? name := by
  obtain ⟨source, fed⟩ := built.primary_fed member
  exact get?_persisted_key values (built.primary_pair fed)

end Schema

namespace Record

variable {s : Schema} {r : Record}

/-- An item holds behind every attribute of the primary key what the key of the record holds. -/
theorem toItem_primaryKey (built : s.Built) (key : r.primaryKey s = .ok k)
    (stored : r.toItem s = .ok item) (member : name ∈ s.primary.index.keyAttributes) :
    ∃ wire, k.get? name = some wire ∧ item.get? name = some wire := by
  obtain ⟨value, wire, found, serialized, inKey⟩ := (Schema.keyOf_ok key).2 name member
  have held := get?_toItem stored name
  rw [built.get?_persisted member, found, Option.map_some, serialized] at held
  refine ⟨wire, inKey, ?_⟩
  simpa using held

theorem changesUnder_key {condition : Option (Condition Value)}
    (done : r.changesUnder s condition = .ok request) : r.snapshotKey s = .ok request.key := by
  simp only [changesUnder, changesRequest, bind_ok, pure_ok] at done
  obtain ⟨base, ⟨key, made, values, -, rfl⟩, done⟩ := done
  cases condition with
  | none =>
    obtain rfl := pure_ok.1 done
    exact made
  | some c =>
    simp only [bind_ok, pure_ok] at done
    obtain ⟨e, -, rfl⟩ := done
    exact made

/-- The values that an update does not touch are those that its key was made from. -/
theorem snapshot_of_untouched (built : s.Built) (member : name ∈ s.primary.index.keyAttributes)
    (untouched : (r.diff s).touches name = false) (found : r.snapshot.get? name = some old) :
    ∃ new, r.get? name = some new ∧ old == new := by
  rw [diff, Diff.touches_eq, built.get?_persisted member, built.get?_persisted member, found,
    Bool.not_eq_false'] at untouched
  rcases Diff.agree_cases untouched with ⟨none, -⟩ | ⟨v, new, same, current, equal⟩
  · cases none
  · cases same
    exact ⟨new, current, equal⟩

theorem updateRequest_key (built : s.Built) {condition : Option (Condition Value)}
    (done : r.updateRequest s condition = .ok (some request)) :
    (∀ name, request.key.contains name ↔ name ∈ s.primary.index.keyAttributes) ∧
    ∀ name ∈ s.primary.index.keyAttributes, ∃ old new wire, r.snapshot.get? name = some old ∧
      r.get? name = some new ∧ old == new ∧ old.serialize = .ok wire ∧
      request.key.get? name = some wire := by
  obtain ⟨-, untouched, made⟩ := updateRequest_some done
  obtain ⟨names, each⟩ := Schema.keyOf_ok (changesUnder_key made)
  refine ⟨names, fun name member => ?_⟩
  obtain ⟨old, wire, found, serialized, inKey⟩ := each name member
  have still : (r.diff s).touches name = false := by
    simpa using List.find?_eq_none.1 untouched name member
  obtain ⟨new, current, equal⟩ := snapshot_of_untouched built member still found
  exact ⟨old, new, wire, found, current, equal, serialized, inKey⟩

end Record

namespace Table

variable {t : Table} {r : Record}

theorem key_eq_keyOf {values : NameMap Value}
    (atPartition : values.get? t.schema.primary.index.partition = some partition)
    (atSort : ∀ name, t.schema.primary.index.sort = some name → ∃ value, values.get? name = some value) :
    t.key partition (t.schema.primary.index.sort.bind values.get?) = t.schema.keyOf values := by
  unfold key Schema.keyOf Index.keyAttributes
  cases hsort : t.schema.primary.index.sort with
  | none =>
    simp only [Schema.keyEntries, hsort, Option.toList_none, atPartition]
    cases partition.serialize with
    | error e => rfl
    | ok w => rfl
  | some name =>
    obtain ⟨value, found⟩ := atSort name hsort
    simp only [Schema.keyEntries, hsort, Option.toList_some, atPartition, Option.bind_some, found]
    cases partition.serialize with
    | error e => rfl
    | ok w =>
      cases value.serialize with
      | error e => rfl
      | ok w' => rfl

/-- From the values of the sources the table makes the key of the record. -/
theorem key_of_sources (built : t.schema.Built) (inStep : t.schema.InStep r.values)
    (atPartition : r.get? t.schema.primary.partitionSource = some partition)
    (atSort : ∀ source, t.schema.primary.sortSource = some source → ∃ value, r.get? source = some value) :
    t.key partition (t.schema.primary.sortSource.bind r.get?) = r.primaryKey t.schema := by
  have holds {key source value} (fed : (key, source) ∈ t.schema.primary.keySources)
      (found : r.get? source = some value) : r.values.get? key = some value :=
    inStep.keys key source value (built.primary_pair fed) found
  have partitionHeld := holds (BoundIndex.mem_keySources.2 (.inl ⟨rfl, rfl⟩)) atPartition
  have same := built.sortSource (b := t.schema.primary) List.mem_cons_self
  cases sort : t.schema.primary.index.sort with
  | none =>
    have source : t.schema.primary.sortSource = none := by simpa [sort] using same
    have made := key_eq_keyOf (t := t) partitionHeld (by simp [sort])
    simpa [sort, source, Record.primaryKey] using made
  | some key =>
    obtain ⟨source, own⟩ := Option.isSome_iff_exists.1 (same.symm.trans (by rw [sort]; rfl))
    obtain ⟨value, found⟩ := atSort source own
    have held := holds (BoundIndex.mem_keySources.2 (.inr ⟨sort, own⟩)) found
    have made := key_eq_keyOf (t := t) partitionHeld fun name named => by
      obtain rfl : key = name := Option.some.inj (sort.symm.trans named)
      exact ⟨value, held⟩
    simpa [sort, own, held, found, Record.primaryKey] using made

end Table

/-- The item of a record holds the key that it is deleted by, its update is addressed by the key
it was loaded with, which is the key it has, and it is read by the key made from the values of the
sources. -/
theorem Table.primaryKeys_agree {t : Table} (built : t.schema.Built)
    (reached : Reached t.schema origin r) :
    (∀ key item, r.primaryKey t.schema = .ok key → r.toItem t.schema = .ok item →
      ∀ name ∈ t.schema.primary.index.keyAttributes,
        ∃ wire, key.get? name = some wire ∧ item.get? name = some wire) ∧
    (∀ condition request, r.updateRequest t.schema condition = .ok (some request) →
      (∀ name, request.key.contains name ↔ name ∈ t.schema.primary.index.keyAttributes) ∧
      ∀ name ∈ t.schema.primary.index.keyAttributes, ∃ old new wire,
        r.snapshot.get? name = some old ∧ r.get? name = some new ∧ old == new ∧
        old.serialize = .ok wire ∧ request.key.get? name = some wire) ∧
    ∀ partition, r.get? t.schema.primary.partitionSource = some partition →
      (∀ source, t.schema.primary.sortSource = some source → ∃ value, r.get? source = some value) →
      t.key partition (t.schema.primary.sortSource.bind r.get?) = r.primaryKey t.schema := by
  refine ⟨?_, ?_, ?_⟩
  · exact fun key item hkey stored name member => Record.toItem_primaryKey built hkey stored member
  · exact fun condition request done => Record.updateRequest_key built done
  · exact fun partition => key_of_sources built (reached.inStep built.valid)

namespace Orders

def keyCreated : Key := NameMap.ofList [("at", .number "7"), ("pk", .string "a1")]

end Orders

/-- The source of the partition key is not stored, and the kind was removed before. -/
theorem Table.primaryKeys_agree_withoutKind :
    Orders.schema.Built ∧ Reached Orders.schema (.created Orders.inputs) Orders.withoutKind ∧
      Orders.withoutKind.primaryKey Orders.schema = .ok Orders.keyCreated ∧
      Orders.itemWithoutKind.get? "account" = none ∧
      (∃ wire, Orders.keyCreated.get? "pk" = some wire ∧ Orders.itemWithoutKind.get? "pk" = some wire) ∧
      (∃ request, Orders.withoutKind.updateRequest Orders.schema none = .ok (some request) ∧
        request.key.contains "pk") ∧
      Orders.table.key (.string "a1") (some (.int 7)) = .ok Orders.keyCreated := by
  have key : Orders.withoutKind.primaryKey Orders.schema = .ok Orders.keyCreated := rfl
  have sent : ∃ request, Orders.withoutKind.updateRequest Orders.schema none = .ok (some request) :=
    ⟨_, rfl⟩
  obtain ⟨request, sent⟩ := sent
  obtain ⟨items, updates, reads⟩ :=
    Table.primaryKeys_agree (t := Orders.table) Orders.built Orders.reached_withoutKind
  refine ⟨Orders.built, Orders.reached_withoutKind, key, rfl, ?_, ⟨request, sent, ?_⟩, ?_⟩
  · exact items Orders.keyCreated Orders.itemWithoutKind key rfl "pk" (by decide)
  · exact ((updates none request sent).1 "pk").2 (by decide)
  · refine (reads (.string "a1") rfl fun source named => ?_).trans key
    obtain rfl : "at" = source := Option.some.inj named
    exact ⟨.int 7, rfl⟩

end WideColumn
