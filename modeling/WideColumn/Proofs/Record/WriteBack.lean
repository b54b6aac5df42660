import WideColumn.Proofs.Codec.Storable
import WideColumn.Proofs.Record.Given

/-! Which loaded records can be written back. What loading takes from an item it also stores again,
under the same name or in a key, and the rest is computed as text. So only the number texts of what
is taken matter. Of several keys of a missing attribute the one that is looked at first is taken. -/
namespace WideColumn

open Outcome

namespace Schema

/-- The attributes of an item with these names that loading takes values from: the declared ones,
and for a declared source that is missing its keys, all of them when sources are stored as well, and
when they are not the first one that is there, in the order in which the schema lists its keys. -/
inductive Takes (s : Schema) (present : String → Bool) : String → Prop
  | declared : s.isDeclared name → Takes s present name
  | kept : s.isDeclared source → present source = false → s.storeAliases →
      (key, source) ∈ s.keys.pairs → Takes s present key
  | recovered : s.isDeclared source → present source = false → s.storeAliases = false →
      (s.keys.keysOf source).find? present = some key → Takes s present key

variable {s : Schema}

theorem findSome?_get? (raw : NameMap Value) (names : List String) :
    names.findSome? raw.get? = (names.find? raw.contains).bind raw.get? := by
  induction names with
  | nil => rfl
  | cons name rest ih =>
    cases found : raw.get? name with
    | none => simp [NameMap.contains, found, ih]
    | some value => simp [NameMap.contains, found]

theorem get?_computed (joined : s.isJoined name) {values : NameMap Value} (inStep : s.InStep values) :
    ∃ text, values.get? name = some (.string text) := by
  obtain ⟨j, member, rfl⟩ := isJoined_iff.1 joined
  exact ⟨_, inStep.joined j member⟩

/-- The order of the keys has no part in what is stored. -/
theorem persisted_relist (perm : pairs.Perm s.keys.pairs) (values : NameMap Value) :
    (s.relist pairs).persisted values = s.persisted values := by
  have omitted (name : String) : (s.relist pairs).isOmitted name = s.isOmitted name := by
    show (!s.storeAliases && BindingTable.isSource ⟨pairs⟩ name && !BindingTable.isKey ⟨pairs⟩ name) = _
    rw [BindingTable.isSource_perm perm, BindingTable.isKey_perm perm]
    rfl
  apply NameMap.ext_get?
  intro name
  rw [get?_persisted, get?_persisted, omitted]

variable (valid : s.Valid) (raw : NameMap Value)
include valid

theorem restore_declared_origin (declared : s.isDeclared name)
    (found : (s.restore raw).get? name = some value) :
    ∃ other, s.Takes raw.contains other ∧ raw.get? other = some value := by
  rw [restore_declared valid raw declared, get?_recovered, if_pos declared] at found
  cases own : raw.get? name with
  | some stored => exact ⟨name, .declared declared, by simpa [own] using found⟩
  | none =>
    cases aliases : s.storeAliases with
    | true => simp [own, aliases] at found
    | false =>
      have missing := NameMap.get?_eq_none_iff.1 own
      simp only [own, aliases, Option.none_or, Bool.false_eq_true, if_false, findSome?_get?] at found
      obtain ⟨key, first, stored⟩ := Option.bind_eq_some_iff.1 found
      exact ⟨key, .recovered declared missing aliases first, stored⟩

theorem restore_origin (found : (s.restore raw).get? name = some value) :
    (∃ text, value = .string text) ∨
      ∃ other, s.Takes raw.contains other ∧ raw.get? other = some value := by
  have inStep := restore_inStep valid raw
  have ofJoined {name : String} (joined : s.isJoined name)
      (found : (s.restore raw).get? name = some value) : ∃ text, value = .string text := by
    obtain ⟨text, computed⟩ := get?_computed joined inStep
    exact ⟨text, Option.some.inj (found.symm.trans computed)⟩
  rcases inStep.names name value found with declared | joined | isKey
  · exact .inr (restore_declared_origin valid raw declared found)
  · exact .inl (ofJoined joined found)
  · obtain ⟨source, pair⟩ := BindingTable.isKey_iff.1 isKey
    rw [restore_key valid raw pair] at found
    cases fed : (s.restore raw).get? source with
    | some current =>
      obtain rfl : current = value := by simpa [fed] using found
      rcases valid.keySource _ _ pair with declared | joined
      · exact .inr (restore_declared_origin valid raw declared fed)
      · exact .inl (ofJoined joined fed)
    | none =>
      have stored : raw.get? name = some value := by simpa [fed] using found
      have declared : s.isDeclared source := by
        refine (valid.keySource _ _ pair).resolve_right fun joined => ?_
        obtain ⟨text, computed⟩ := get?_computed joined inStep
        cases fed.symm.trans computed
      rw [restore_declared valid raw declared, get?_recovered, if_pos declared,
        Option.or_eq_none_iff] at fed
      obtain ⟨own, others⟩ := fed
      have missing := NameMap.get?_eq_none_iff.1 own
      cases aliases : s.storeAliases with
      | true => exact .inr ⟨name, .kept declared missing aliases pair, stored⟩
      | false =>
        -- the key itself could have been recovered from
        have nothing : (s.keys.keysOf source).findSome? raw.get? = none := by
          simpa [aliases] using others
        have := List.findSome?_eq_none_iff.1 nothing name (BindingTable.mem_keysOf.2 pair)
        cases stored.symm.trans this

theorem persisted_of_taken (taken : s.Takes raw.contains name) (stored : raw.get? name = some value) :
    ∃ other, (s.persisted (s.restore raw)).get? other = some value := by
  cases taken with
  | declared declared =>
    have loaded := restore_stored valid raw declared stored
    by_cases omitted : s.isOmitted name
    · obtain ⟨⟨-, isSource⟩, -⟩ : (_ ∧ _) ∧ _ := by simpa [isOmitted] using omitted
      obtain ⟨key, pair⟩ := BindingTable.isSource_iff.1 isSource
      refine ⟨key, ?_⟩
      rw [get?_persisted_key _ pair, restore_key valid raw pair, loaded, Option.some_or]
    · exact ⟨name, by rw [get?_persisted, if_neg omitted, loaded]⟩
  | kept declared absent aliases pair =>
    refine ⟨name, ?_⟩
    rw [get?_persisted_key _ pair, restore_key valid raw pair, restore_declared valid raw declared,
      get?_recovered, if_pos declared, if_pos aliases, NameMap.get?_eq_none_iff.2 absent, Option.none_or,
      Option.none_or, stored]
  | @recovered source _ declared absent aliases first =>
    have pair := BindingTable.mem_keysOf.1 (List.mem_of_find?_eq_some first)
    refine ⟨name, ?_⟩
    rw [get?_persisted_key _ pair, restore_key valid raw pair, restore_declared valid raw declared,
      get?_recovered, if_pos declared, NameMap.get?_eq_none_iff.2 absent, Option.none_or, aliases,
      if_neg Bool.false_ne_true, findSome?_get?, first, Option.bind_some, stored, Option.some_or]

end Schema

namespace Record

variable {s : Schema}

theorem load_storable (valid : s.Valid) (loaded : load s item = .ok r) :
    ((∃ back, r.toItem s = .ok back) ↔ ∀ name w, s.Takes item.contains name →
      item.get? name = some w → ∀ text ∈ w.numberTexts, FiniteText text) ∧
    ∀ e, r.toItem s = .error e → ∃ name w, s.Takes item.contains name ∧ item.get? name = some w ∧
      e.IsNotFinite w.numberTexts := by
  obtain ⟨raw, decoded, rfl⟩ := load_ok loaded
  rw [← NameMap.contains_traverse decoded]
  have fails : ∀ e, toItem s ⟨s.restore raw, s.restore raw⟩ = .error e → ∃ name w,
      s.Takes raw.contains name ∧ item.get? name = some w ∧ e.IsNotFinite w.numberTexts := by
    intro e failed
    obtain ⟨name, value, found, refused⟩ := NameMap.traverse_error failed
    rw [Schema.get?_persisted] at found
    split at found
    · cases found
    rcases Schema.restore_origin valid raw found with ⟨text, rfl⟩ | ⟨other, taken, stored⟩
    · cases refused
    · obtain ⟨w, inItem, read⟩ := NameMap.get?_of_traverse decoded stored
      have settled := Value.serialize_settled read
      rw [refused] at settled
      exact ⟨other, w, taken, inItem, settled⟩
  refine ⟨⟨?_, ?_⟩, fails⟩
  · rintro ⟨back, done⟩ name w taken inItem
    obtain ⟨value, stored, read⟩ := NameMap.traverse_get?_ok decoded inItem
    obtain ⟨other, persisted⟩ := Schema.persisted_of_taken valid raw taken stored
    obtain ⟨wire, -, serialized⟩ := NameMap.traverse_get?_ok done persisted
    exact (Value.serialize_settled read).ok_iff.1 ⟨wire, serialized⟩
  · intro finite
    cases done : toItem s ⟨s.restore raw, s.restore raw⟩ with
    | ok back => exact ⟨back, rfl⟩
    | error e =>
      obtain ⟨name, w, taken, inItem, text, member, x, read, infinite, -⟩ := fails e done
      rw [finite name w taken inItem text member x read] at infinite
      cases infinite

/-- In whatever order loading walks the keys, the record is written back exactly when no attribute
that it was loaded from has a number text, at any depth, that is read as an infinity or as what is
not a number; and it is such a double that the error is about. -/
theorem toItem_of_load (built : s.Built) {pairs : List (String × String)}
    (perm : pairs.Perm s.keys.pairs) (loaded : load (s.relist pairs) item = .ok r) :
    ((∃ back, r.toItem s = .ok back) ↔ ∀ name w, (s.relist pairs).Takes item.contains name →
      item.get? name = some w → ∀ text ∈ w.numberTexts, FiniteText text) ∧
    ∀ e, r.toItem s = .error e → ∃ name w, (s.relist pairs).Takes item.contains name ∧
      item.get? name = some w ∧ e.IsNotFinite w.numberTexts := by
  have same : r.toItem (s.relist pairs) = r.toItem s :=
    congrArg serializeItem (Schema.persisted_relist perm r.values)
  rw [← same]
  exact load_storable (built.valid.relist perm) loaded

end Record

/-! One attribute that feeds both keys of an index and is not stored. -/
namespace Estate

def catalog : Catalog :=
  ⟨[.primary "pk" none, .globalSecondary "byOwner" "ownerKey" (some "ownerCopy")],
    .primary "pk" none⟩

def draft : Draft where
  table := "estate"
  catalog := catalog
  attributes := ["account", "owner"]
  storeAliases := false
  bindings := [⟨"table", some "account", none⟩, ⟨"byOwner", some "owner", some "owner"⟩]

def schema : Schema where
  table := "estate"
  catalog := catalog
  attributes := ["account", "owner"]
  required := []
  primary := ⟨.primary "pk" none, "account", none⟩
  secondary := [⟨.globalSecondary "byOwner" "ownerKey" (some "ownerCopy"), "owner", some "owner"⟩]
  joined := []
  mutators := []
  immutable := []
  storeAliases := false
  keys := ⟨[("pk", "account"), ("ownerKey", "owner"), ("ownerCopy", "owner")]⟩

theorem built : schema.Built := ⟨catalog.indexes, draft, rfl, rfl⟩

def backwards : List (String × String) :=
  [("ownerCopy", "owner"), ("ownerKey", "owner"), ("pk", "account")]

/-- Of the two keys of the owner, one is stored as a number and the other one as an infinity. -/
def item : Item :=
  NameMap.ofList [("ownerCopy", .number "inf"), ("ownerKey", .number "7"), ("pk", .string "a1")]

end Estate

/-- The key that is walked first overtakes the other one. -/
theorem Record.toItem_of_load_overtaken :
    Estate.schema.Built ∧ Estate.backwards.Perm Estate.schema.keys.pairs ∧
      (∃ r, load (Estate.schema.relist Estate.schema.keys.pairs) Estate.item = .ok r ∧
        (∃ back, r.toItem Estate.schema = .ok back) ∧ FiniteText "7" ∧
        ¬Estate.schema.Takes Estate.item.contains "ownerCopy") ∧
      ∃ r, load (Estate.schema.relist Estate.backwards) Estate.item = .ok r ∧
        ¬∃ back, r.toItem Estate.schema = .ok back := by
  have infinite : ¬FiniteText "inf" := by
    intro finite
    cases finite (.infinite false) rfl
  have perm : Estate.backwards.Perm Estate.schema.keys.pairs := Estate.schema.keys.pairs.reverse_perm
  obtain ⟨listed, -⟩ := Record.toItem_of_load Estate.built (List.Perm.refl _)
    (show load (Estate.schema.relist Estate.schema.keys.pairs) Estate.item = .ok _ from rfl)
  obtain ⟨reversed, -⟩ := Record.toItem_of_load Estate.built perm
    (show load (Estate.schema.relist Estate.backwards) Estate.item = .ok _ from rfl)
  have finite := listed.1 ⟨_, rfl⟩
  have declared : Estate.schema.isDeclared "owner" := rfl
  refine ⟨Estate.built, perm, ⟨_, rfl, ⟨_, rfl⟩, ?_, fun taken => ?_⟩, _, rfl, fun done => ?_⟩
  · exact finite "ownerKey" _ (.recovered declared rfl rfl rfl) rfl "7" List.mem_cons_self
  · exact infinite (finite "ownerCopy" _ taken rfl "inf" List.mem_cons_self)
  · exact infinite (reversed.1 done "ownerCopy" _ (.recovered declared rfl rfl rfl) rfl "inf"
      List.mem_cons_self)

namespace Archive

/-- Stored with a number that is too large for every finite double. -/
def oversized : Item := NameMap.ofList [("note", .number "1e400"), ("pk", .string "a1")]

end Archive

/-- Not every loaded record can be written back. -/
theorem Record.not_toItem_of_load : ¬∀ (s : Schema) (item : Item) (r : Record), s.Built →
    Record.load s item = .ok r → ∃ back, r.toItem s = .ok back := by
  intro always
  obtain ⟨r, loaded, refused⟩ : ∃ r, Record.load Archive.schema Archive.oversized = .ok r ∧
      r.toItem Archive.schema = .error (.codec (.notFinite (.infinite false))) := ⟨_, rfl, rfl⟩
  obtain ⟨back, done⟩ := always Archive.schema Archive.oversized r Archive.built loaded
  cases refused.symm.trans done

end WideColumn
