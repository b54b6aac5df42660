import WideColumn.Proofs.Record.Reload

/-! The baseline of a loaded record, which later changes are counted from, beside the item. It is
taken after joined attributes and the keys of present sources are computed, so it is what the
store holds throughout exactly for an item whose derived attributes are those of its sources. -/
namespace WideColumn

open Outcome

namespace Schema

def persists (s : Schema) (name : String) : Bool :=
  (s.isDeclared name || s.isJoined name || s.keys.isKey name) && !s.isOmitted name

/-- Stored values whose derived attributes are those of the record with these values: a stored
joined attribute is the computed one, and the keys of a present source hold its value. -/
structure Settled (s : Schema) (raw values : NameMap Value) : Prop where
  joined : ∀ j ∈ s.joined, ¬s.isOmitted j.target → raw.get? j.target = some (j.compute values)
  keys : ∀ key source value, (key, source) ∈ s.keys.pairs → values.get? source = some value →
    raw.get? key = some value

def counted (s : Schema) (raw : NameMap Value) : NameMap Value := raw.filter s.persists

variable {s : Schema}

theorem persists_iff : s.persists name ↔
    (s.isDeclared name ∨ s.isJoined name ∨ s.keys.isKey name) ∧ ¬s.isOmitted name := by
  simp [persists, or_assoc]

theorem not_isOmitted_of_isKey (isKey : s.keys.isKey name) : ¬s.isOmitted name := by
  simp [isOmitted, isKey]

/-- What a key is loaded with is what is stored there, if a present source agrees with it. -/
theorem or_eq_right_iff {a b : Option Value} : a.or b = b ↔ ∀ value, a = some value → b = some value := by
  cases a with
  | none => simp
  | some value => simp [eq_comm]

variable (valid : s.Valid) (raw : NameMap Value)
include valid

theorem restore_stored (declared : s.isDeclared name) (stored : raw.get? name = some value) :
    (s.restore raw).get? name = some value := by
  rw [restore_declared valid raw declared, get?_recovered, if_pos declared, stored, Option.some_or]

/-- Only a declared attribute that feeds a key is ever recovered, and only one that is a key
itself is then stored. -/
theorem restore_plain (declared : s.isDeclared name) (kept : ¬s.isOmitted name)
    (plain : ¬s.keys.isKey name ∨ raw.contains name ∨ s.storeAliases) :
    (s.restore raw).get? name = raw.get? name := by
  by_cases present : raw.contains name
  · obtain ⟨value, stored⟩ := NameMap.contains_iff.1 present
    rw [stored]
    exact restore_stored valid raw declared stored
  have missing : raw.get? name = none := by simpa [NameMap.contains] using present
  rw [restore_declared valid raw declared, get?_recovered, if_pos declared, missing, Option.none_or]
  cases aliases : s.storeAliases with
  | true => rfl
  | false =>
    have noKey : ¬s.keys.isKey name := by simpa [present, aliases] using plain
    have noSource : ¬s.keys.isSource name := by simpa [isOmitted, aliases, noKey] using kept
    have noKeys : s.keys.keysOf name = [] := by
      apply List.eq_nil_iff_forall_not_mem.2
      intro key member
      exact noSource (BindingTable.isSource_iff.2 ⟨key, BindingTable.mem_keysOf.1 member⟩)
    simp [noKeys]

theorem restore_contains (known : s.persists name) (stored : raw.contains name) :
    (s.restore raw).contains name := by
  obtain ⟨value, stored⟩ := NameMap.contains_iff.1 stored
  apply NameMap.contains_iff.2
  rcases (persists_iff.1 known).1 with declared | joined | isKey
  · exact ⟨value, restore_stored valid raw declared stored⟩
  · obtain ⟨j, member, rfl⟩ := isJoined_iff.1 joined
    exact ⟨_, restore_joined valid raw member⟩
  · obtain ⟨source, pair⟩ := BindingTable.isKey_iff.1 isKey
    rw [restore_key valid raw pair, stored]
    cases (s.restore raw).get? source with
    | none => exact ⟨value, rfl⟩
    | some current => exact ⟨current, rfl⟩

/-- Loading changes nothing that counts exactly when the stored values are settled. -/
theorem restore_agrees_iff :
    (∀ name, s.persists name → (s.restore raw).get? name = raw.get? name) ↔
      s.Settled raw (s.restore raw) := by
  constructor
  · intro agree
    constructor
    case joined =>
      intro j member kept
      have known := persists_iff.2 ⟨.inr (.inl (isJoined_iff.2 ⟨j, member, rfl⟩)), kept⟩
      rw [← agree j.target known, restore_joined valid raw member]
    case keys =>
      intro key source value pair present
      have isKey := BindingTable.isKey_iff.2 ⟨source, pair⟩
      have known := persists_iff.2 ⟨.inr (.inr isKey), not_isOmitted_of_isKey isKey⟩
      rw [← agree key known, restore_key valid raw pair, present, Option.some_or]
  · intro settled name known
    obtain ⟨kind, kept⟩ := persists_iff.1 known
    by_cases isKey : s.keys.isKey name
    · obtain ⟨source, pair⟩ := BindingTable.isKey_iff.1 isKey
      rw [restore_key valid raw pair, or_eq_right_iff]
      exact fun value => settled.keys name source value pair
    · rcases kind with declared | joined | absurdKey
      · exact restore_plain valid raw declared kept (.inl isKey)
      · obtain ⟨j, member, rfl⟩ := isJoined_iff.1 joined
        rw [restore_joined valid raw member, settled.joined j member kept]
      · exact absurd absurdKey isKey

theorem persisted_restore (settled : s.Settled raw (s.restore raw)) :
    s.persisted (s.restore raw) = s.counted raw := by
  apply NameMap.ext_get?
  intro name
  rw [get?_persisted, counted, NameMap.get?_filter]
  by_cases known : s.persists name
  · have kept := (persists_iff.1 known).2
    rw [if_neg kept, if_pos known]
    exact (restore_agrees_iff valid raw).2 settled name known
  · rw [if_neg known]
    split
    · rfl
    · next kept =>
      cases found : (s.restore raw).get? name with
      | none => rfl
      | some value =>
        have names := (restore_inStep valid raw).names name value found
        exact absurd (persists_iff.2 ⟨names, kept⟩) known

end Schema

theorem Record.attempt_snapshot (s : Schema) (r : Record) (w : Write) :
    (r.attempt s w).snapshot = r.snapshot := by
  unfold Record.attempt
  split
  · next written done =>
    rcases Record.assign_ok (Record.write_ok done).2 with rfl | rfl <;> rfl
  · rfl

namespace Reached

variable {s : Schema} {origin : Origin}

theorem start_snapshot (done : origin.start s = .ok r) : r.snapshot = r.values := by
  cases origin with
  | created inputs =>
    obtain ⟨r', -, rfl⟩ := Record.create_ok done
    rfl
  | loaded item =>
    obtain ⟨raw, -, rfl⟩ := Record.load_ok done
    rfl

theorem snapshot_of_start {P : NameMap Value → Prop} (start : ∀ r, origin.start s = .ok r → P r.values)
    (reached : Reached s origin r) : P r.snapshot := by
  induction reached with
  | start done => exact start_snapshot done ▸ start _ done
  | attempt _ ih => exact (Record.attempt_snapshot s _ _).symm ▸ ih

theorem snapshot_loaded (loaded : Record.load s item = .ok r) (reached : Reached s (.loaded item) r') :
    r'.snapshot = r.snapshot := by
  refine reached.snapshot_of_start (P := fun values => values = r.snapshot) fun start done => ?_
  obtain rfl := Except.ok.inj (loaded.symm.trans done)
  exact (start_snapshot done).symm

end Reached

/-- The stored part of the baseline against the decoded item: every stored name stays, declared
attributes that are no keys are as stored, and keys and joined attributes have the values that
loading computes. The two agree on all names exactly for settled items, and from then on every
difference counts from what is stored. -/
theorem Record.load_baseline {s : Schema} (built : s.Built) (loaded : Record.load s item = .ok r) :
    ∃ raw, deserializeItem item = .ok raw ∧
      (∀ name, s.persists name → raw.contains name → (s.persisted r.snapshot).contains name) ∧
      (∀ name, s.persists name → s.isDeclared name →
        ¬s.keys.isKey name ∨ raw.contains name ∨ s.storeAliases →
        (s.persisted r.snapshot).get? name = raw.get? name) ∧
      (∀ key source, (key, source) ∈ s.bindings.flatMap BoundIndex.keySources →
        (s.persisted r.snapshot).get? key = (r.snapshot.get? source).or (raw.get? key)) ∧
      (∀ j ∈ s.joined, s.persists j.target →
        (s.persisted r.snapshot).get? j.target = some (j.compute r.snapshot)) ∧
      ((∀ name, s.persists name → (s.persisted r.snapshot).get? name = raw.get? name) ↔
        s.Settled raw r.snapshot) ∧
      (s.Settled raw r.snapshot → ∀ r', Reached s (.loaded item) r' →
        r'.diff s = .compute (s.counted raw) (s.persisted r'.values)) := by
  have valid := built.valid
  obtain ⟨raw, decoded, rfl⟩ := Record.load_ok loaded
  have stored : ∀ name, s.persists name →
      (s.persisted (s.restore raw)).get? name = (s.restore raw).get? name := by
    intro name known
    rw [Schema.get?_persisted, if_neg (Schema.persists_iff.1 known).2]
  refine ⟨raw, decoded, ?_, ?_, ?_, ?_, ?_, ?_⟩
  · intro name known present
    rw [NameMap.contains, stored name known]
    exact Schema.restore_contains valid raw known present
  · intro name known declared plain
    rw [stored name known]
    exact Schema.restore_plain valid raw declared (Schema.persists_iff.1 known).2 plain
  · intro key source bound
    have pair := (valid.bound _).2 bound
    rw [Schema.get?_persisted_key _ pair]
    exact Schema.restore_key valid raw pair
  · intro j member known
    rw [stored j.target known]
    exact Schema.restore_joined valid raw member
  · rw [← Schema.restore_agrees_iff valid raw]
    exact forall_congr' fun name => imp_congr_right fun known => by rw [stored name known]
  · intro settled r' reached
    rw [Record.diff, reached.snapshot_loaded loaded, Schema.persisted_restore valid raw settled]

/-! A schema with a key that is its own source and feeds a second key, a joined attribute that
feeds a key, another that feeds none, and sources that are not stored. -/
namespace Archive

def catalog : Catalog :=
  ⟨[.primary "pk" none, .globalSecondary "byDay" "day" none,
    .globalSecondary "byStamp" "stampKey" (some "dayCopy")], .primary "pk" none⟩

def draft : Draft where
  table := "archive"
  catalog := catalog
  attributes := ["account", "day", "note"]
  storeAliases := false
  joined := [⟨"stamp", ["account", "day"], "~"⟩, ⟨"label", ["day", "account"], "~"⟩]
  bindings := [⟨"table", some "account", none⟩, ⟨"byDay", some "day", none⟩,
    ⟨"byStamp", some "stamp", some "day"⟩]

def schema : Schema where
  table := "archive"
  catalog := catalog
  attributes := ["account", "day", "note"]
  required := []
  primary := ⟨.primary "pk" none, "account", none⟩
  secondary := [⟨.globalSecondary "byDay" "day" none, "day", none⟩,
    ⟨.globalSecondary "byStamp" "stampKey" (some "dayCopy"), "stamp", some "day"⟩]
  joined := [⟨"stamp", ["account", "day"], "~"⟩, ⟨"label", ["day", "account"], "~"⟩]
  mutators := []
  immutable := []
  storeAliases := false
  keys := ⟨[("pk", "account"), ("day", "day"), ("stampKey", "stamp"), ("dayCopy", "day")]⟩

theorem built : schema.Built := ⟨catalog.indexes, draft, rfl, rfl⟩

/-- Stored without the day and the key of the stamp, and with another label than today's. -/
def item : Item :=
  NameMap.ofList [("dayCopy", .string "d1"), ("label", .string "old"), ("note", .string "n"),
    ("pk", .string "a1")]

def values : NameMap Value :=
  NameMap.ofList [("account", .string "a1"), ("day", .string "d1"), ("dayCopy", .string "d1"),
    ("label", .string "d1~a1"), ("note", .string "n"), ("pk", .string "a1"),
    ("stamp", .string "a1~d1"), ("stampKey", .string "a1~d1")]

theorem loaded : Record.load schema item = .ok ⟨values, values⟩ := rfl

end Archive

theorem Record.load_baseline_archive :
    ∃ raw, deserializeItem Archive.item = .ok raw ∧
      raw.get? "note" = some (.string "n") ∧
      (Archive.schema.persisted Archive.values).get? "note" = raw.get? "note" ∧
      (Archive.schema.persisted Archive.values).contains "label" ∧
      (Archive.schema.persisted Archive.values).get? "stampKey" = some (.string "a1~d1") := by
  obtain ⟨raw, decoded, names, plain, keys, -⟩ := Record.load_baseline Archive.built Archive.loaded
  obtain rfl := Except.ok.inj (decoded.symm.trans
    (show deserializeItem Archive.item = .ok (NameMap.ofList [("dayCopy", .string "d1"),
      ("label", .string "old"), ("note", .string "n"), ("pk", .string "a1")]) from rfl))
  refine ⟨_, decoded, rfl, plain "note" rfl rfl (.inl (by decide)), names "label" rfl rfl, ?_⟩
  exact keys "stampKey" "stamp" (by decide)

/-- The baseline is not what the store holds: loading adds the declared key and the key of the
joined attribute, which the item lacks, and replaces the stored label. -/
theorem Record.load_baseline_derived :
    Archive.schema.Built ∧ ∃ r raw, Record.load Archive.schema Archive.item = .ok r ∧
      deserializeItem Archive.item = .ok raw ∧
      (Archive.schema.persists "day" ∧ raw.get? "day" = none ∧
        (Archive.schema.persisted r.snapshot).get? "day" = some (.string "d1")) ∧
      (Archive.schema.persists "stampKey" ∧ raw.get? "stampKey" = none ∧
        (Archive.schema.persisted r.snapshot).get? "stampKey" = some (.string "a1~d1")) ∧
      (Archive.schema.persists "label" ∧ raw.get? "label" = some (.string "old") ∧
        (Archive.schema.persisted r.snapshot).get? "label" = some (.string "d1~a1") ∧
        (Value.string "old" == .string "d1~a1") = false) :=
  ⟨Archive.built, _, _, Archive.loaded, rfl, ⟨rfl, rfl, rfl⟩, ⟨rfl, rfl, rfl⟩, rfl, rfl, rfl, rfl⟩

end WideColumn
