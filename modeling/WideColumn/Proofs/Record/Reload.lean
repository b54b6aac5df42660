import WideColumn.Proofs.Codec.Exact
import WideColumn.Proofs.Diff
import WideColumn.Proofs.Record.InStep

/-! A record that is stored and loaded again. The item leaves the omitted sources out, and
loading takes only the declared attributes and the leftover keys from it; the rest of the
values follows from these, because both records keep their derived values in step. -/
namespace WideColumn

open Outcome

namespace Schema

variable {s : Schema} (valid : s.Valid)
include valid

/-- Values in step are determined by the declared attributes and by the keys whose source is
missing. -/
theorem InStep.ext {m n : NameMap Value} (inStep : s.InStep m) (inStep' : s.InStep n)
    (declared : ∀ name, s.isDeclared name → m.get? name = n.get? name)
    (leftover : ∀ key source, (key, source) ∈ s.keys.pairs → m.get? source = none →
      m.get? key = n.get? key) : m = n := by
  have joined : ∀ name, s.isJoined name → m.get? name = n.get? name := by
    intro name isJoined
    obtain ⟨j, member, rfl⟩ := isJoined_iff.1 isJoined
    rw [inStep.joined j member, inStep'.joined j member]
    apply congrArg some
    exact Joined.compute_congr fun source named =>
      declared source (valid.sourcesDeclared j member source named)
  have keys : ∀ name, s.keys.isKey name → m.get? name = n.get? name := by
    intro name isKey
    obtain ⟨source, pair⟩ := BindingTable.isKey_iff.1 isKey
    have same : m.get? source = n.get? source :=
      (valid.keySource _ _ pair).elim (declared source) (joined source)
    cases present : m.get? source with
    | none => exact leftover name source pair present
    | some value =>
      rw [inStep.keys _ _ _ pair present, inStep'.keys _ _ _ pair (same.symm.trans present)]
  have known : ∀ name, s.isDeclared name ∨ s.isJoined name ∨ s.keys.isKey name →
      m.get? name = n.get? name := by
    rintro name (h | h | h)
    · exact declared name h
    · exact joined name h
    · exact keys name h
  apply NameMap.ext_get?
  intro name
  cases here : m.get? name with
  | some value => rw [← here, known name (inStep.names name value here)]
  | none =>
    cases there : n.get? name with
    | none => rfl
    | some value => rw [← here, known name (inStep'.names name value there), there]

omit valid in
theorem isSource_of_isOmitted (omitted : s.isOmitted name) : s.keys.isSource name := by
  simp only [isOmitted, Bool.and_eq_true] at omitted
  exact omitted.1.2

omit valid in
theorem get?_persisted (s : Schema) (values : NameMap Value) (name : String) :
    (s.persisted values).get? name = if s.isOmitted name then none else values.get? name := by
  rw [persisted, NameMap.get?_filter]
  cases s.isOmitted name <;> rfl

omit valid in
theorem get?_persisted_key (values : NameMap Value) (pair : (key, source) ∈ s.keys.pairs) :
    (s.persisted values).get? key = values.get? key := by
  have isKey := BindingTable.isKey_iff.2 ⟨source, pair⟩
  simp [get?_persisted, isOmitted, isKey]

omit valid in
/-- The keys of a source give its value back, if it has one and feeds a key. -/
theorem findSome?_keysOf {values : NameMap Value} (inStep : s.InStep values)
    (noOrphans : s.NoOrphans values) (source : String) :
    (s.keys.keysOf source).findSome? (s.persisted values).get? =
      if s.keys.isSource source then values.get? source else none := by
  have held : ∀ key ∈ s.keys.keysOf source,
      (s.persisted values).get? key = values.get? source := by
    intro key member
    have pair := BindingTable.mem_keysOf.1 member
    rw [get?_persisted_key values pair, inStep.get?_key noOrphans pair]
  cases keys : s.keys.keysOf source with
  | nil =>
    rw [if_neg, List.findSome?_nil]
    intro isSource
    obtain ⟨key, pair⟩ := BindingTable.isSource_iff.1 isSource
    have member := BindingTable.mem_keysOf.2 pair
    rw [keys] at member
    cases member
  | cons key rest =>
    rw [keys] at held
    have pair : (key, source) ∈ s.keys.pairs :=
      BindingTable.mem_keysOf.1 (keys ▸ List.mem_cons_self)
    rw [if_pos (BindingTable.isSource_iff.2 ⟨key, pair⟩), List.findSome?_cons,
      held key List.mem_cons_self]
    cases present : values.get? source with
    | some value => rfl
    | none =>
      apply List.findSome?_eq_none_iff.2
      intro other member
      rw [held other (List.mem_cons_of_mem _ member), present]

/-- What is stored of values in step is enough to restore them. -/
theorem restore_persisted {values : NameMap Value} (inStep : s.InStep values)
    (noOrphans : s.storeAliases = false → s.NoOrphans values) :
    s.restore (s.persisted values) = values := by
  apply InStep.ext valid (restore_inStep valid _) inStep
  · intro name declared
    rw [restore_declared valid _ declared, get?_recovered, if_pos declared, get?_persisted]
    cases aliases : s.storeAliases with
    | true => simp [isOmitted, aliases]
    | false =>
      simp only [Bool.false_eq_true, if_false, findSome?_keysOf inStep (noOrphans aliases)]
      by_cases omitted : s.isOmitted name
      · simp [omitted, isSource_of_isOmitted omitted]
      · cases present : values.get? name <;> simp [omitted]
  · intro key source pair missing
    rw [restore_key valid _ pair, missing, Option.none_or, get?_persisted_key values pair]

end Schema

namespace Record

variable {s : Schema}

theorem get?_toItem {r : Record} (stored : r.toItem s = .ok item) (name : String) :
    (item.get? name).map .ok = ((s.persisted r.values).get? name).map Value.serialize :=
  NameMap.get?_traverse stored name

theorem diff_of_same (r : Record)
    (same : ∀ name, r.snapshot.get? name == r.values.get? name) : r.diff s = {} := by
  apply Diff.eq_empty_of_not_hasChanged
  rw [diff, Diff.not_hasChanged_iff]
  intro name
  rw [Schema.get?_persisted, Schema.get?_persisted]
  cases s.isOmitted name
  · exact same name
  · rfl

/-- A stored record without doubles is loaded as it was, and as unchanged. -/
theorem load_toItem (built : s.Built) (reached : Reached s origin r)
    (exact : ∀ name value, r.get? name = some value → value.floatFree)
    (stored : r.toItem s = .ok item) :
    ∃ loaded, Record.load s item = .ok loaded ∧ loaded.values = r.values ∧ loaded.diff s = {} := by
  have valid := built.valid
  have exactStored : ∀ name value, (s.persisted r.values).get? name = some value →
      value.floatFree := by
    intro name value found
    rw [Schema.get?_persisted] at found
    split at found
    · cases found
    · exact exact name value found
  have decoded := deserializeItem_serializeItem exactStored stored
  have restored : s.restore (s.persisted r.values) = r.values := by
    apply Schema.restore_persisted valid (reached.inStep valid)
    intro aliases
    apply reached.noOrphans valid
    cases origin with
    | created inputs => trivial
    | loaded item => exact aliases
  refine ⟨⟨r.values, r.values⟩, ?_, rfl, ?_⟩
  · simp only [load, bind_ok, pure_ok]
    exact ⟨_, decoded, by rw [restored]⟩
  · apply diff_of_same
    intro name
    cases found : r.values.get? name with
    | none => rfl
    | some value => exact Value.same_self (exact name value found)

end Record

namespace Orders

def itemWithoutKind : Item :=
  NameMap.ofList [("at", .number "7"), ("kindAtKey", .string "~7"), ("pk", .string "a1")]

end Orders

theorem Record.load_toItem_withoutKind :
    (∀ name value, Orders.withoutKind.get? name = some value → value.floatFree) ∧
      Orders.withoutKind.toItem Orders.schema = .ok Orders.itemWithoutKind ∧
      Orders.itemWithoutKind.get? "account" = none ∧
      ∃ loaded, Record.load Orders.schema Orders.itemWithoutKind = .ok loaded ∧
        loaded.values = Orders.withoutKind.values ∧ loaded.diff Orders.schema = {} := by
  have exact : ∀ name value, Orders.withoutKind.get? name = some value → value.floatFree := by
    intro name value found
    have all : ∀ entry ∈ Orders.withoutKind.values.entries, entry.2.floatFree := by decide
    exact all (name, value) (NameMap.get?_eq_some_iff.1 found)
  have stored : Orders.withoutKind.toItem Orders.schema = .ok Orders.itemWithoutKind := rfl
  exact ⟨exact, stored, rfl, Record.load_toItem Orders.built Orders.reached_withoutKind exact stored⟩

end WideColumn
