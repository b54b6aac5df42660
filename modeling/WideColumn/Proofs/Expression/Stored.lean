import WideColumn.Proofs.Expression.Faithful
import WideColumn.Proofs.Record.Reload
import WideColumn.Proofs.Schema.Resolution

/-! Conditions and stored items speak of the same attributes. The item of a record holds behind
the stored name of an attribute what the record has for it. The keys that a key condition
addresses hold what the sources of its index have, which need not be its attributes when the index
was named. -/
namespace WideColumn

open Outcome

namespace Schema

variable {s : Schema} {values : NameMap Value}

theorem get?_storedName (inStep : s.InStep values)
    (noOrphans : s.storeAliases = false → s.NoOrphans values) (name : String) :
    (s.persisted values).get? (s.storedName name) = values.get? name := by
  unfold storedName
  cases aliases : s.storeAliases with
  | true => simp [get?_persisted, isOmitted, aliases]
  | false =>
    cases keys : s.keys.keysOf name with
    | nil =>
      have noSource : s.keys.isSource name = false := by
        rw [← Bool.not_eq_true, BindingTable.isSource_iff]
        rintro ⟨key, pair⟩
        have member := BindingTable.mem_keysOf.2 pair
        rw [keys] at member
        cases member
      simp [get?_persisted, isOmitted, noSource]
    | cons key rest =>
      have pair : (key, name) ∈ s.keys.pairs :=
        BindingTable.mem_keysOf.1 (keys ▸ List.mem_cons_self)
      exact (get?_persisted_key values pair).trans (inStep.get?_key (noOrphans aliases) pair)

end Schema

namespace Record

variable {s : Schema} {r : Record}

theorem get?_toItem_storedName (valid : s.Valid) (reached : Reached s origin r)
    (stored : r.toItem s = .ok item) (name : String) :
    (item.get? (s.storedName name)).map .ok = (r.get? name).map Value.serialize := by
  rw [get?_toItem stored, Schema.get?_storedName (reached.inStep valid) fun unstored =>
    reached.noOrphans valid (origin.complete_of_unstored unstored)]
  rfl

theorem get?_toItem_key (valid : s.Valid) (reached : Reached s (.created inputs) r)
    (stored : r.toItem s = .ok item) (pair : (key, source) ∈ s.keys.pairs) :
    (item.get? key).map .ok = (r.get? source).map Value.serialize := by
  rw [get?_toItem stored, Schema.get?_persisted_key r.values pair,
    (reached.inStep valid).get?_key (reached.noOrphans valid trivial) pair]
  rfl

end Record

namespace Expression

variable {s : Schema} {c : Condition Value} {kind : ExpressionKind} {explicit : Option String}
  {e : Expression}

theorem address_index (done : s.address key explicit = .ok addressing)
    (resolved : s.resolve key.toList explicit = .ok b) :
    addressing.index = if b.index.isPrimary then none else some b.index.name := by
  simp only [Schema.address, resolved, ok_bind] at done
  split at done
  · obtain rfl := pure_ok.1 done; rfl
  · obtain rfl := pure_ok.1 done; rfl
  · simp [throw_ok] at done

theorem ofCondition_index (done : ofCondition kind addressing c = .ok e) :
    e.index = addressing.index := by
  simp only [ofCondition, bind_ok, pure_ok] at done
  obtain ⟨operands, -, rfl⟩ := done
  rfl

/-- A filter or a write condition asks for every attribute where the item of a record holds the
value that the record has for it, whatever kind of name the attribute has. -/
theorem compile_toItem (built : s.Built) (reached : Reached s origin r)
    (stored : r.toItem s = .ok item) (kind_ne : kind ≠ .keyCondition)
    (compiled : compile s c kind explicit = .ok e) :
    ∃ (rename : String → String) (asked : Condition WireValue),
      c.traverse (fun name => .ok (rename name)) Value.serialize = .ok asked ∧
      e.read = some asked ∧
      ∀ name ∈ c.names, (item.get? (rename name)).map .ok = (r.get? name).map Value.serialize := by
  have done : ofCondition kind ⟨s.storedName, none⟩ c = .ok e := by
    cases kind with
    | keyCondition => exact absurd rfl kind_ne
    | filter => exact compiled
    | writeCondition => exact compiled
  obtain ⟨asked, hasked, reads⟩ := read_ofCondition done
  exact ⟨s.storedName, asked, hasked, reads,
    fun name _ => Record.get?_toItem_storedName built.valid reached stored name⟩

end Expression

namespace Orders

def mixed : Condition Value :=
  .or (.and (.leaf "kind" .absent) (.leaf "kindAt" (.beginsWith (.string "~"))))
    (.not (.or (.leaf "pk" .present) (.leaf "color" (.compare .eq .null))))

end Orders

theorem Expression.compile_toItem_mixed :
    Orders.withoutKind.toItem Orders.schema = .ok Orders.itemWithoutKind ∧
      ∃ e, Expression.compile Orders.schema Orders.mixed .filter none = .ok e ∧
        e.names = NameMap.ofList [("#attribute_name0", "kindKey"), ("#attribute_name1", "kindAtKey"),
          ("#attribute_name2", "pk"), ("#attribute_name3", "color")] ∧
        ∃ (rename : String → String) (asked : Condition WireValue),
          Orders.mixed.traverse (fun name => .ok (rename name)) Value.serialize = .ok asked ∧
          e.read = some asked ∧
          ∀ name ∈ Orders.mixed.names, (Orders.itemWithoutKind.get? (rename name)).map .ok =
            (Orders.withoutKind.get? name).map Value.serialize := by
  have stored : Orders.withoutKind.toItem Orders.schema = .ok Orders.itemWithoutKind := rfl
  have compiles : ∃ e, Expression.compile Orders.schema Orders.mixed .filter none = .ok e ∧
      e.names = NameMap.ofList [("#attribute_name0", "kindKey"), ("#attribute_name1", "kindAtKey"),
        ("#attribute_name2", "pk"), ("#attribute_name3", "color")] := ⟨_, rfl, rfl⟩
  obtain ⟨e, compiled, names⟩ := compiles
  exact ⟨stored, e, compiled, names,
    Expression.compile_toItem Orders.built Orders.reached_withoutKind stored (by decide) compiled⟩

namespace Expression

variable {s : Schema} {c : Condition Value} {explicit : Option String} {e : Expression}

/-- The key that an attribute of a key condition is renamed to, and its source in the index. -/
theorem address_source {rename : String → String} (built : s.Built) (member : b ∈ s.bindings)
    (covers : c.Addresses key) (atPartition : rename key.partition = b.index.partition)
    (atSort : ∀ name, key.sort = some name → b.index.sort = some (rename name))
    (inCondition : name ∈ c.names) :
    ∃ source, (rename name, source) ∈ b.keySources ∧
      (if name = key.partition then rename name = b.index.partition ∧ source = b.partitionSource
        else b.index.sort = some (rename name) ∧ b.sortSource = some source) ∧
      (b.serves key.partition key.sort → source = name) := by
  rcases covers.only name inCondition with rfl | isSort
  · refine ⟨b.partitionSource, by simp [BoundIndex.keySources, atPartition], ?_, fun serves => ?_⟩
    · rw [if_pos rfl]
      exact ⟨atPartition, rfl⟩
    · exact (BoundIndex.serves_iff.1 serves).1
  · have physical := atSort name isSort
    obtain ⟨source, hsource⟩ : ∃ source, b.sortSource = some source := by
      rw [← Option.isSome_iff_exists, ← built.sortSource member, physical]
      rfl
    refine ⟨source, by simp [BoundIndex.keySources, physical, hsource], ?_, fun serves => ?_⟩
    · rw [if_neg (covers.sort name isSort).2]
      exact ⟨physical, hsource⟩
    · have own := (BoundIndex.serves_iff.1 serves).2 name isSort
      exact Option.some.inj (hsource.symm.trans own)

/-- A key condition renames its first attribute to the partition key of an index and the other
one to its sort key. The item of a created record holds behind that key the value of its source,
which is the attribute itself unless the index was asked for by name and has other sources. -/
theorem compile_keyCondition (built : s.Built)
    (compiled : compile s c .keyCondition explicit = .ok e) :
    ∃ (key : KeyNames) (b : BoundIndex) (rename : String → String) (asked : Condition WireValue),
      c.keyNames = .ok key ∧ b ∈ s.bindings ∧
      e.index = (if b.index.isPrimary then none else some b.index.name) ∧
      (∀ index, explicit = some index → b.index.name = index) ∧
      c.traverse (fun name => .ok (rename name)) Value.serialize = .ok asked ∧
      e.read = some asked ∧
      ∀ name ∈ c.names, ∃ source, (rename name, source) ∈ b.keySources ∧
        (if name = key.partition then rename name = b.index.partition ∧ source = b.partitionSource
          else b.index.sort = some (rename name) ∧ b.sortSource = some source) ∧
        (explicit = none ∨ b.serves key.partition key.sort → source = name) ∧
        ∀ inputs r item, Reached s (.created inputs) r → r.toItem s = .ok item →
          (item.get? (rename name)).map .ok = (r.get? source).map Value.serialize := by
  have valid := built.valid
  simp only [compile, bind_ok, mapError_ok] at compiled
  obtain ⟨key, hkey, addressing, haddressing, done⟩ := compiled
  have covers := Condition.keyNames_ok hkey
  obtain ⟨b, resolved, atPartition, atSort⟩ := address_ok covers haddressing
  obtain ⟨member, implicit, named⟩ := Schema.resolve_ok resolved
  obtain ⟨asked, hasked, reads⟩ := read_ofCondition done
  have index : e.index = if b.index.isPrimary then none else some b.index.name :=
    (ofCondition_index done).trans (address_index haddressing resolved)
  refine ⟨key, b, addressing.rename, asked, hkey, member, index, named, hasked, reads, ?_⟩
  intro name inCondition
  obtain ⟨source, pair, place, own⟩ :=
    address_source built member covers atPartition atSort inCondition
  have bound := (valid.bound _).2 (List.mem_flatMap.2 ⟨b, member, pair⟩)
  exact ⟨source, pair, place, fun known => own (known.elim implicit id),
    fun _ _ _ reached stored => Record.get?_toItem_key valid reached stored bound⟩

end Expression

namespace Orders

def ofKind : Condition Value :=
  .and (.leaf "kindAt" (.beginsWith (.string "new~"))) (.leaf "kind" (.compare .eq (.string "new")))

def ofKindExpression : Expression where
  kind := .keyCondition
  text := "(begins_with(#key_name0, :key_value0) AND #key_name1 = :key_value1)"
  names := NameMap.ofList [("#key_name0", "kindAtKey"), ("#key_name1", "kindKey")]
  values := NameMap.ofList [(":key_value0", .string "new~"), (":key_value1", .string "new")]
  index := some "byKind"

end Orders

theorem Expression.compile_keyCondition_ofKind :
    Expression.compile Orders.schema Orders.ofKind .keyCondition none = .ok Orders.ofKindExpression ∧
      ∃ (rename : String → String) (asked : Condition WireValue),
        Orders.ofKind.traverse (fun name => .ok (rename name)) Value.serialize = .ok asked ∧
        Orders.ofKindExpression.read = some asked ∧
        ∀ name ∈ Orders.ofKind.names, (rename name, name) ∈ Orders.schema.keys.pairs ∧
          (Orders.itemWithoutKind.get? (rename name)).map .ok =
            (Orders.withoutKind.get? name).map Value.serialize := by
  have compiled : Expression.compile Orders.schema Orders.ofKind .keyCondition none =
      .ok Orders.ofKindExpression := rfl
  have stored : Orders.withoutKind.toItem Orders.schema = .ok Orders.itemWithoutKind := rfl
  obtain ⟨key, b, rename, asked, -, member, -, -, renamed, reads, keys⟩ :=
    Expression.compile_keyCondition Orders.built compiled
  refine ⟨compiled, rename, asked, renamed, reads, fun name inCondition => ?_⟩
  obtain ⟨source, pair, -, own, holds⟩ := keys name inCondition
  obtain rfl := own (.inl rfl)
  exact ⟨(Orders.built.valid.bound _).2 (List.mem_flatMap.2 ⟨b, member, pair⟩),
    holds _ _ _ Orders.reached_withoutKind stored⟩

namespace Orders

def reversed : Condition Value :=
  .and (.leaf "kindAt" (.compare .eq (.string "new~7"))) (.leaf "kind" (.compare .eq (.string "new")))

def reversedExpression : Expression where
  kind := .keyCondition
  text := "(#key_name0 = :key_value0 AND #key_name1 = :key_value1)"
  names := NameMap.ofList [("#key_name0", "kindKey"), ("#key_name1", "kindAtKey")]
  values := NameMap.ofList [(":key_value0", .string "new~7"), (":key_value1", .string "new")]
  index := some "byKind"

end Orders

/-- Of two equalities the first one is for the partition, and an index that is asked for by name
takes them as they come: here each is asked of the key that the other attribute feeds, and the
key does not hold its value. -/
theorem Expression.compile_keyCondition_reversed :
    Orders.schema.Built ∧ Reached Orders.schema (.created Orders.inputs) Orders.created ∧
      Expression.compile Orders.schema Orders.reversed .keyCondition (some "byKind") =
        .ok Orders.reversedExpression ∧
      (¬∃ (rename : String → String) (asked : Condition WireValue),
        Orders.reversed.traverse (fun name => .ok (rename name)) Value.serialize = .ok asked ∧
        Orders.reversedExpression.read = some asked ∧
        ∀ name ∈ Orders.reversed.names, (rename name, name) ∈ Orders.schema.keys.pairs) ∧
      ∃ item, Orders.created.toItem Orders.schema = .ok item ∧
        item.get? "kindKey" = some (.string "new") ∧
        Orders.created.get? "kindAt" = some (.string "new~7") := by
  refine ⟨Orders.built, .start rfl, rfl, ?_, _, rfl, rfl, rfl⟩
  rintro ⟨rename, asked, renamed, reads, own⟩
  have same : Condition.and (.leaf (rename "kindAt") (.compare .eq (WireValue.string "new~7")))
      (.leaf (rename "kind") (.compare .eq (.string "new"))) =
      .and (.leaf "kindKey" (.compare .eq (.string "new~7")))
        (.leaf "kindAtKey" (.compare .eq (.string "new"))) :=
    (Except.ok.inj renamed).trans (Option.some.inj reads).symm
  have atKey : rename "kindAt" = "kindKey" := by
    injection same with left right
    injection left
  have pair := own "kindAt" (by decide)
  rw [atKey] at pair
  exact absurd pair (by decide)

end WideColumn
