import WideColumn.Proofs.Record.Baseline

/-! The two views of what has changed: over what is stored, without sources whose keys are stored
in their place, and over the declared and joined attributes, without the keys. A key holds what
its source holds, so the two change together, and either view has one of such a pair. -/
namespace WideColumn

theorem Diff.hasChanged_iff {d : Diff} : d.hasChanged ↔ ∃ name, d.touches name := by
  rw [← not_iff_not, Bool.not_eq_true, Diff.not_hasChanged_iff_untouched]
  simp

namespace Record

variable {s : Schema}

/-- Holds another value than at the start. -/
def moved (r : Record) (name : String) : Bool := !(r.snapshot.get? name == r.values.get? name)

theorem diff_touches (r : Record) (name : String) :
    (r.diff s).touches name = (!s.isOmitted name && r.moved name) := by
  rw [diff, Diff.touches_eq, Schema.get?_persisted, Schema.get?_persisted, moved]
  cases s.isOmitted name <;> rfl

theorem logicalDiff_touches (r : Record) (name : String) :
    (r.logicalDiff s).touches name = ((s.isDeclared name || s.isJoined name) && r.moved name) := by
  rw [logicalDiff, Diff.touches_eq, Schema.logical, Schema.logical, NameMap.get?_filter,
    NameMap.get?_filter, moved]
  cases s.isDeclared name || s.isJoined name <;> rfl

end Record

namespace Reached

variable {s : Schema} {origin : Origin}

variable (valid : s.Valid) (reached : Reached s origin r)
include valid reached

theorem known_of_moved (moved : r.moved name) :
    s.isDeclared name ∨ s.isJoined name ∨ s.keys.isKey name := by
  have before := reached.snapshot_of_start fun _ done => start_inStep valid done
  cases old : r.snapshot.get? name with
  | some value => exact before.names name value old
  | none =>
    cases new : r.values.get? name with
    | some value => exact (reached.inStep valid).names name value new
    | none =>
      rw [Record.moved, old, new] at moved
      cases moved

theorem moved_key (complete : origin.Complete s) (pair : (key, source) ∈ s.keys.pairs) :
    r.moved key = r.moved source := by
  have before := reached.snapshot_of_start fun _ done => start_inStep valid done
  have noneBefore := reached.snapshot_of_start fun _ done => start_noOrphans valid complete done
  rw [Record.moved, Record.moved, before.get?_key noneBefore pair,
    (reached.inStep valid).get?_key (reached.noOrphans valid complete) pair]

theorem logicalDiff_touches_of_diff (complete : origin.Complete s)
    (touched : (r.diff s).touches name) :
    ∃ seen, (seen = name ∨ (name, seen) ∈ s.keys.pairs) ∧ (r.logicalDiff s).touches seen := by
  rw [Record.diff_touches, Bool.and_eq_true] at touched
  obtain ⟨-, moved⟩ := touched
  have logical (seen : String) (kind : s.isDeclared seen ∨ s.isJoined seen) (moved : r.moved seen) :
      (r.logicalDiff s).touches seen := by
    rw [Record.logicalDiff_touches, moved, Bool.and_true, Bool.or_eq_true]
    exact kind
  rcases reached.known_of_moved valid moved with declared | joined | isKey
  · exact ⟨name, .inl rfl, logical name (.inl declared) moved⟩
  · exact ⟨name, .inl rfl, logical name (.inr joined) moved⟩
  · obtain ⟨source, pair⟩ := BindingTable.isKey_iff.1 isKey
    have sourceMoved := reached.moved_key valid complete pair ▸ moved
    exact ⟨source, .inr pair, logical source (valid.keySource _ _ pair) sourceMoved⟩

theorem diff_touches_of_logicalDiff (complete : origin.Complete s)
    (touched : (r.logicalDiff s).touches name) :
    ∃ stored, (stored = name ∨ (stored, name) ∈ s.keys.pairs) ∧ (r.diff s).touches stored := by
  rw [Record.logicalDiff_touches, Bool.and_eq_true] at touched
  obtain ⟨-, moved⟩ := touched
  have kept (stored : String) (known : ¬s.isOmitted stored) (moved : r.moved stored) :
      (r.diff s).touches stored := by
    rw [Record.diff_touches, moved]
    simpa using known
  by_cases omitted : s.isOmitted name
  · obtain ⟨key, pair⟩ := BindingTable.isSource_iff.1 (Schema.isSource_of_isOmitted omitted)
    have stays := Schema.not_isOmitted_of_isKey (BindingTable.isKey_iff.2 ⟨name, pair⟩)
    exact ⟨key, .inr pair, kept key stays (reached.moved_key valid complete pair ▸ moved)⟩
  · exact ⟨name, .inl rfl, kept name omitted moved⟩

end Reached

/-- The two views agree on whether anything has changed. -/
theorem Record.hasChanged_iff_logical (built : s.Built) (complete : origin.Complete s)
    (reached : Reached s origin r) : r.hasChanged s ↔ (r.logicalDiff s).hasChanged := by
  have valid := built.valid
  rw [hasChanged, Diff.hasChanged_iff, Diff.hasChanged_iff]
  constructor
  · rintro ⟨name, touched⟩
    obtain ⟨seen, -, partner⟩ := reached.logicalDiff_touches_of_diff valid complete touched
    exact ⟨seen, partner⟩
  · rintro ⟨name, touched⟩
    obtain ⟨stored, -, partner⟩ := reached.diff_touches_of_logicalDiff valid complete touched
    exact ⟨stored, partner⟩

/-- The kind is gone from the logical view, and from the stored one its key. -/
theorem Record.hasChanged_iff_logical_withoutKind :
    Orders.schema.Built ∧ (Origin.created Orders.inputs).Complete Orders.schema ∧
      Reached Orders.schema (.created Orders.inputs) Orders.withoutKind ∧
      (Orders.withoutKind.diff Orders.schema).touches "kind" = false ∧
      (Orders.withoutKind.logicalDiff Orders.schema).touches "kindKey" = false ∧
      Orders.withoutKind.hasChanged Orders.schema ∧
      (Orders.withoutKind.logicalDiff Orders.schema).hasChanged := by
  have complete : (Origin.created Orders.inputs).Complete Orders.schema := trivial
  have changed : Orders.withoutKind.hasChanged Orders.schema := rfl
  refine ⟨Orders.built, complete, Orders.reached_withoutKind, rfl, rfl, changed, ?_⟩
  exact (Record.hasChanged_iff_logical Orders.built complete Orders.reached_withoutKind).1 changed

end WideColumn
