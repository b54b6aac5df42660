import WideColumn.Proofs.Record.Derivation

/-! The invariant of records. Whatever a record started from and whatever was written to it since,
its joined attributes are those of its current values and every key of a present source holds the
value of the source. Only a loaded record may have kept keys whose source is missing. -/
namespace WideColumn

open Outcome

namespace Schema

/-- Only names that the schema knows of. -/
def Named (s : Schema) (values : NameMap Value) : Prop :=
  ∀ name value, values.get? name = some value →
    s.isDeclared name ∨ s.isJoined name ∨ s.keys.isKey name

structure InStep (s : Schema) (values : NameMap Value) : Prop where
  joined : ∀ j ∈ s.joined, values.get? j.target = some (j.compute values)
  keys : ∀ key source value, (key, source) ∈ s.keys.pairs → values.get? source = some value →
    values.get? key = some value
  names : s.Named values

/-- No key outlives its source. -/
def NoOrphans (s : Schema) (values : NameMap Value) : Prop :=
  ∀ key source, (key, source) ∈ s.keys.pairs → values.get? source = none → values.get? key = none

/-- Without orphans a key has what its source has, a value or none. -/
theorem InStep.get?_key {s : Schema} {values : NameMap Value} (inStep : s.InStep values)
    (noOrphans : s.NoOrphans values) (pair : (key, source) ∈ s.keys.pairs) :
    values.get? key = values.get? source := by
  cases present : values.get? source with
  | none => exact noOrphans key source pair present
  | some value => exact inStep.keys key source value pair present

variable {s : Schema} (valid : s.Valid)

theorem known_of_carries (joined : s.isDeclared source ∨ s.isJoined source)
    (carries : s.Carries source name) :
    s.isDeclared name ∨ s.isJoined name ∨ s.keys.isKey name := by
  rcases carries with rfl | pair
  · exact joined.imp_right .inl
  · exact .inr (.inr (BindingTable.isKey_iff.2 ⟨source, pair⟩))

theorem commit_named (declared : s.isDeclared name) (value : Option Value) {values : NameMap Value}
    (named : s.Named values) : s.Named (s.commit name value values) := by
  intro other v found
  by_cases carries : s.Carries name other
  · exact known_of_carries (.inl declared) carries
  by_cases carriesJoined : ∃ j ∈ s.joined, name ∈ j.sources ∧ s.Carries j.target other
  · obtain ⟨j, member, -, carries⟩ := carriesJoined
    exact known_of_carries (.inr (isJoined_iff.2 ⟨j, member, rfl⟩)) carries
  · rw [commit_frame value values carries fun j member reads carries =>
      carriesJoined ⟨j, member, reads, carries⟩] at found
    exact named other v found

include valid

/-- A write keeps the invariant: what depends on the attribute is computed again, and the
rest depends on nothing that changed. -/
theorem commit_inStep (declared : s.isDeclared name) (value : Option Value) {values : NameMap Value}
    (inStep : s.InStep values) : s.InStep (s.commit name value values) := by
  constructor
  case joined =>
    intro j member
    by_cases reads : name ∈ j.sources
    · rw [commit_joined valid declared value values member reads (.inl rfl),
        compute_commit valid declared value values member]
    · have same : j.compute (s.commit name value values) = j.compute values := by
        apply Joined.compute_congr
        intro source named
        rw [commit_declared valid declared value values (valid.sourcesDeclared j member _ named)]
        rw [if_neg]
        rintro rfl
        exact reads named
      rw [same, ← inStep.joined j member]
      apply commit_frame
      · rintro (own | pair)
        · exact valid.targetUndeclared j member (own ▸ declared)
        · exact valid.joined_noKey (isJoined_iff.2 ⟨j, member, rfl⟩) pair
      · intro k memberK readsK carries
        exact reads (valid.carries_unique memberK member carries (.inl rfl) ▸ readsK)
  case keys =>
    intro key source v pair found
    rcases commit_pair valid declared value values pair with same | ⟨sameKey, sameSource⟩
    · rw [same, found]
    · rw [sameKey]
      exact inStep.keys key source v pair (sameSource ▸ found)
  case names => exact commit_named declared value inStep.names

theorem commit_noOrphans (declared : s.isDeclared name) (value : Option Value)
    {values : NameMap Value} (noOrphans : s.NoOrphans values) :
    s.NoOrphans (s.commit name value values) := by
  intro key source pair missing
  rcases commit_pair valid declared value values pair with same | ⟨sameKey, sameSource⟩
  · rw [same, missing]
  · rw [sameKey]
    exact noOrphans key source pair (sameSource ▸ missing)

theorem refresh_inStep {values : NameMap Value} (named : s.Named values) :
    s.InStep (s.refresh values) := by
  constructor
  case joined =>
    intro j member
    rw [refresh_joined valid values member, compute_refresh valid values member]
  case keys =>
    intro key source value pair found
    rw [refresh_pair valid values pair, found]
  case names =>
    intro name value found
    by_cases joined : s.isJoined name
    · exact .inr (.inl joined)
    by_cases isKey : s.keys.isKey name
    · exact .inr (.inr isKey)
    · rw [refresh_frame values joined fun source pair =>
        absurd (BindingTable.isKey_iff.2 ⟨source, pair⟩) isKey] at found
      exact named name value found

theorem refresh_noOrphans (values : NameMap Value) : s.NoOrphans (s.refresh values) := by
  intro key source pair missing
  rw [refresh_pair valid values pair, missing]

end Schema

section Restore

namespace Schema

/-- The declared attributes that loading starts from. -/
def recovered (s : Schema) (raw : NameMap Value) : NameMap Value :=
  if s.storeAliases then raw.filter s.isDeclared else s.recover raw (raw.filter s.isDeclared)

theorem restore_eq (s : Schema) (raw : NameMap Value) :
    s.restore raw = s.keepKeys raw (s.refresh (s.recovered raw)) := rfl

theorem get?_recovered (s : Schema) (raw : NameMap Value) (name : String) :
    (s.recovered raw).get? name =
      if s.isDeclared name then
        (raw.get? name).or
          (if s.storeAliases then none else (s.keys.keysOf name).findSome? raw.get?)
      else none := by
  unfold recovered
  cases declared : s.isDeclared name <;> cases stored : s.storeAliases <;>
    simp [get?_recover, NameMap.get?_filter, declared]

variable {s : Schema} (valid : s.Valid) (raw : NameMap Value)
include valid

theorem restore_declared (declared : s.isDeclared name) :
    (s.restore raw).get? name = (s.recovered raw).get? name := by
  rw [restore_eq, get?_keepKeys, refresh_declared valid _ declared]
  cases known : (s.recovered raw).get? name with
  | some value => rfl
  | none =>
    rw [get?_recovered, if_pos declared, Option.or_eq_none_iff] at known
    simp [known.1]

theorem restore_joined (member : j ∈ s.joined) :
    (s.restore raw).get? j.target = some (j.compute (s.restore raw)) := by
  rw [restore_eq, get?_keepKeys, refresh_joined valid _ member, Option.some_or, ← restore_eq]
  apply congrArg some
  apply Joined.compute_congr
  intro source named
  exact (restore_declared valid raw (valid.sourcesDeclared j member source named)).symm

/-- A key has the value of its source, and the stored one when there is no source. -/
theorem restore_key (pair : (key, source) ∈ s.keys.pairs) :
    (s.restore raw).get? key = ((s.restore raw).get? source).or (raw.get? key) := by
  have isKey := BindingTable.isKey_iff.2 ⟨source, pair⟩
  have atSource : (s.restore raw).get? source = (s.refresh (s.recovered raw)).get? source := by
    rcases valid.keySource _ _ pair with declared | joined
    · rw [restore_declared valid raw declared, refresh_declared valid _ declared]
    · obtain ⟨j, member, rfl⟩ := isJoined_iff.1 joined
      rw [restore_eq, get?_keepKeys, refresh_joined valid _ member, Option.some_or]
  rw [atSource, restore_eq, get?_keepKeys, refresh_pair valid _ pair, if_pos isKey]

theorem restore_inStep : s.InStep (s.restore raw) := by
  constructor
  case joined => exact fun j member => restore_joined valid raw member
  case keys =>
    intro key source value pair found
    rw [restore_key valid raw pair, found, Option.some_or]
  case names =>
    intro name value found
    have known : s.Named (s.recovered raw) := by
      intro name value found
      rw [get?_recovered] at found
      split at found
      · next declared => exact .inl declared
      · cases found
    rw [restore_eq, get?_keepKeys] at found
    rcases Option.or_eq_some_iff.1 found with found | ⟨-, kept⟩
    · exact (refresh_inStep valid known).names name value found
    · split at kept
      · next isKey => exact .inr (.inr isKey)
      · cases kept

/-- Without stored sources a stored key always recovers its source. -/
theorem restore_noOrphans (unstored : s.storeAliases = false) : s.NoOrphans (s.restore raw) := by
  intro key source pair missing
  rw [restore_key valid raw pair, missing, Option.none_or]
  rcases valid.keySource _ _ pair with declared | joined
  · rw [restore_declared valid raw declared, get?_recovered, if_pos declared] at missing
    have none := (Option.or_eq_none_iff.1 missing).2
    rw [if_neg (by simp [unstored]), List.findSome?_eq_none_iff] at none
    exact none key (BindingTable.mem_keysOf.2 pair)
  · obtain ⟨j, member, rfl⟩ := isJoined_iff.1 joined
    rw [restore_joined valid raw member] at missing
    cases missing

end Schema

end Restore

/-- An attempt to write an attribute, or to remove it when there is no value. -/
structure Write where
  name : String
  value : Option Value

/-- What a record starts from. -/
inductive Origin where
  | created (inputs : NameMap Value)
  | loaded (item : Item)

def Origin.start (s : Schema) : Origin → Except MapperError Record
  | .created inputs => Record.create s inputs
  | .loaded item => Record.load s item

/-- A refused write leaves the record as it was. -/
def Record.attempt (s : Schema) (r : Record) (w : Write) : Record :=
  match r.write s w.name w.value with
  | .ok r => r
  | .error _ => r

/-- The records that attempts to write lead to. -/
inductive Reached (s : Schema) (origin : Origin) : Record → Prop where
  | start : origin.start s = .ok r → Reached s origin r
  | attempt : Reached s origin r → Reached s origin (r.attempt s w)

/-- What a record starts from has no key without its source. -/
def Origin.Complete (s : Schema) : Origin → Prop
  | .created _ => True
  | .loaded _ => s.storeAliases = false

theorem Origin.complete_of_unstored {s : Schema} (unstored : s.storeAliases = false)
    (origin : Origin) : origin.Complete s := by
  cases origin with
  | created inputs => trivial
  | loaded item => exact unstored

namespace Record

variable {s : Schema}

theorem assign_ok {r r' : Record} (done : r.assign s name value = .ok r') :
    r' = r ∨
      r' = { r with values := s.commit name (value.map fun v => s.mutate name v r) r.values } := by
  unfold assign at done
  dsimp only at done
  split at done <;> cases done
  · exact .inr rfl
  · exact .inl rfl

theorem checkWritable_ok : s.checkWritable name = .ok () ↔ s.isDeclared name := by
  unfold Schema.checkWritable
  by_cases declared : s.isDeclared name
  · simp [declared]
  · cases s.isProtectedKey name <;> simp [declared]

theorem write_ok {r r' : Record} (done : r.write s name value = .ok r') :
    s.isDeclared name ∧ r.assign s name value = .ok r' := by
  simp only [write, check_ok, bind_ok] at done
  obtain ⟨-, ⟨⟩, writable, done⟩ := done
  exact ⟨checkWritable_ok.1 writable, done⟩

theorem assignAll_named {inputs : NameMap Value} {names : List String}
    (declared : ∀ name ∈ names, s.isDeclared name) {r r' : Record}
    (done : assignAll s inputs r names = .ok r') (named : s.Named r.values) :
    s.Named r'.values := by
  induction names generalizing r with
  | nil => cases done; exact named
  | cons name rest ih =>
    have later : ∀ name ∈ rest, s.isDeclared name := fun n h => declared n (List.mem_cons_of_mem _ h)
    unfold assignAll at done
    split at done
    · exact ih later done named
    · simp only [bind_ok] at done
      obtain ⟨next, hnext, done⟩ := done
      apply ih later done
      rcases assign_ok hnext with rfl | rfl
      · exact named
      · exact Schema.commit_named (declared name List.mem_cons_self) _ named

theorem create_ok (done : create s inputs = .ok r) :
    ∃ r', assignAll s inputs ⟨{}, {}⟩ s.attributes = .ok r' ∧
      r = ⟨s.refresh r'.values, s.refresh r'.values⟩ := by
  simp only [create, bind_ok] at done
  obtain ⟨-, -, done⟩ := done
  split at done
  · simp [throw_ok, bind_ok] at done
  · simp only [bind_ok, pure_ok] at done
    obtain ⟨r', assigned, rfl⟩ := done
    exact ⟨r', assigned, rfl⟩

theorem load_ok (done : load s item = .ok r) :
    ∃ raw, deserializeItem item = .ok raw ∧ r = ⟨s.restore raw, s.restore raw⟩ := by
  simp only [load, bind_ok, pure_ok] at done
  obtain ⟨raw, decoded, rfl⟩ := done
  exact ⟨raw, decoded, rfl⟩

end Record

namespace Reached

variable {s : Schema} {origin : Origin}

/-- What the start has and a write keeps, every reached record has. -/
theorem values_of_commit {P : NameMap Value → Prop} (start : ∀ r, origin.start s = .ok r → P r.values)
    (commit : ∀ name value values, s.isDeclared name → P values → P (s.commit name value values))
    (reached : Reached s origin r) : P r.values := by
  induction reached with
  | start done => exact start _ done
  | @attempt r w _ ih =>
    unfold Record.attempt
    split
    · next done =>
      obtain ⟨declared, done⟩ := Record.write_ok done
      rcases Record.assign_ok done with rfl | rfl
      · exact ih
      · exact commit _ _ _ declared ih
    · exact ih

variable (valid : s.Valid)
include valid

theorem start_inStep (done : origin.start s = .ok r) : s.InStep r.values := by
  cases origin with
  | created inputs =>
    obtain ⟨r', assigned, rfl⟩ := Record.create_ok done
    apply Schema.refresh_inStep valid
    apply Record.assignAll_named _ assigned
    · intro name value found
      cases found
    · exact fun name member => by simpa [Schema.isDeclared] using member
  | loaded item =>
    obtain ⟨raw, -, rfl⟩ := Record.load_ok done
    exact Schema.restore_inStep valid raw

theorem start_noOrphans (complete : origin.Complete s) (done : origin.start s = .ok r) :
    s.NoOrphans r.values := by
  cases origin with
  | created inputs =>
    obtain ⟨r', -, rfl⟩ := Record.create_ok done
    exact Schema.refresh_noOrphans valid r'.values
  | loaded item =>
    obtain ⟨raw, -, rfl⟩ := Record.load_ok done
    exact Schema.restore_noOrphans valid raw complete

theorem inStep (reached : Reached s origin r) : s.InStep r.values :=
  reached.values_of_commit (fun _ done => start_inStep valid done)
    fun _ value _ declared inStep => Schema.commit_inStep valid declared value inStep

theorem noOrphans (reached : Reached s origin r) (complete : origin.Complete s) :
    s.NoOrphans r.values :=
  reached.values_of_commit (fun _ done => start_noOrphans valid complete done)
    fun _ value _ declared noOrphans => Schema.commit_noOrphans valid declared value noOrphans

end Reached

/-- Whatever is done to a record, its joined attributes are those of its values, its keys
hold what their sources hold, and it has no names that the schema does not know of. -/
theorem Record.in_step (built : s.Built) (reached : Reached s origin r) :
    (∀ j ∈ s.joined, r.get? j.target = some (j.compute r.values)) ∧
    (∀ key source, (key, source) ∈ s.bindings.flatMap BoundIndex.keySources →
      (∀ value, r.get? source = some value → r.get? key = some value) ∧
      (origin.Complete s → r.get? source = none → r.get? key = none)) ∧
    (∀ name value, r.get? name = some value →
      s.isDeclared name ∨ s.isJoined name ∨ s.keys.isKey name) := by
  have valid := built.valid
  have inStep := reached.inStep valid
  refine ⟨inStep.joined, ?_, inStep.names⟩
  intro key source bound
  have pair := (valid.bound _).2 bound
  exact ⟨fun value => inStep.keys key source value pair,
    fun complete => reached.noOrphans valid complete key source pair⟩

namespace Orders

def inputs : NameMap Value :=
  NameMap.ofList [("account", .string "a1"), ("at", .int 7), ("kind", .string "new")]

def created : Record where
  values := NameMap.ofList [("account", .string "a1"), ("at", .int 7), ("kind", .string "new"),
    ("kindAt", .string "new~7"), ("kindAtKey", .string "new~7"), ("kindKey", .string "new"),
    ("pk", .string "a1")]
  snapshot := NameMap.ofList [("account", .string "a1"), ("at", .int 7), ("kind", .string "new"),
    ("kindAt", .string "new~7"), ("kindAtKey", .string "new~7"), ("kindKey", .string "new"),
    ("pk", .string "a1")]

/-- A refused write of the immutable account and the removal of the kind. -/
def withoutKind : Record :=
  (created.attempt schema ⟨"account", some (.string "a2")⟩).attempt schema ⟨"kind", none⟩

theorem reached_withoutKind : Reached schema (.created inputs) withoutKind :=
  .attempt (.attempt (.start rfl))

end Orders

theorem Record.in_step_withoutKind :
    Orders.schema.Built ∧ Reached Orders.schema (.created Orders.inputs) Orders.withoutKind ∧
      Orders.withoutKind.get? "account" = some (.string "a1") ∧
      Orders.withoutKind.get? "kindAt" = some (.string "~7") ∧
      Orders.withoutKind.get? "kindKey" = none := by
  obtain ⟨joined, keys, -⟩ := Record.in_step Orders.built Orders.reached_withoutKind
  refine ⟨Orders.built, Orders.reached_withoutKind, rfl, ?_, ?_⟩
  · exact joined ⟨"kindAt", ["kind", "at"], "~"⟩ (by decide)
  · exact (keys "kindKey" "kind" (by decide)).2 trivial rfl

end WideColumn
