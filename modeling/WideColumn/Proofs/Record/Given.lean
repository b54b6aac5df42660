import WideColumn.Proofs.Record.Baseline

/-! What loading takes as given: the declared attributes, and the keys of declared attributes that
are missing. Two items that agree on these are loaded as the same record, so a derived value in
the store is never trusted. Several keys with one value may be looked at in any order. -/
namespace WideColumn

open Outcome

namespace NameMap

theorem get?_traverse_congr {f : α → Except ε β} {m m' : NameMap α} {n n' : NameMap β}
    (done : m.traverse f = .ok n) (done' : m'.traverse f = .ok n')
    (same : m.get? name = m'.get? name') : n.get? name = n'.get? name' := by
  have each := get?_traverse done name
  rw [same, ← get?_traverse done' name'] at each
  exact Option.map_injective (fun _ _ => Except.ok.inj) each

theorem get?_traverse_eq_none_iff {f : α → Except ε β} {m : NameMap α} {n : NameMap β}
    (done : m.traverse f = .ok n) : n.get? name = none ↔ m.get? name = none := by
  rw [get?_eq_none_iff, get?_eq_none_iff, contains_traverse done]

end NameMap

section Search

variable {f g : α → Option β} {xs ys : List α}

theorem findSome?_congr (same : ∀ x ∈ xs, f x = g x) : xs.findSome? f = xs.findSome? g := by
  induction xs with
  | nil => rfl
  | cons x rest ih =>
    rw [List.findSome?_cons, List.findSome?_cons, same x List.mem_cons_self,
      ih fun y member => same y (List.mem_cons_of_mem x member)]

/-- A search finds the only value there is, wherever it starts. -/
theorem findSome?_perm (one : ∀ x ∈ xs, ∀ y ∈ xs, ∀ v w, f x = some v → f y = some w → v = w)
    (perm : xs.Perm ys) : xs.findSome? f = ys.findSome? f := by
  cases found : xs.findSome? f with
  | none =>
    rw [List.findSome?_eq_none_iff] at found
    exact (List.findSome?_eq_none_iff.2 fun y member => found y (perm.mem_iff.2 member)).symm
  | some v =>
    obtain ⟨x, inFirst, here⟩ := List.exists_of_findSome?_eq_some found
    cases found' : ys.findSome? f with
    | none =>
      rw [List.findSome?_eq_none_iff.1 found' x (perm.mem_iff.1 inFirst)] at here
      cases here
    | some w =>
      obtain ⟨y, inSecond, there⟩ := List.exists_of_findSome?_eq_some found'
      rw [one x inFirst y (perm.mem_iff.2 inSecond) v w here there]

end Search

namespace BindingTable

variable {t : BindingTable} {pairs : List (String × String)} (perm : pairs.Perm t.pairs)
include perm

theorem isKey_perm (name : String) : isKey ⟨pairs⟩ name = t.isKey name :=
  Bool.eq_iff_iff.2 (isKey_iff.trans ((exists_congr fun _ => perm.mem_iff).trans isKey_iff.symm))

theorem isSource_perm (name : String) : isSource ⟨pairs⟩ name = t.isSource name :=
  Bool.eq_iff_iff.2
    (isSource_iff.trans ((exists_congr fun _ => perm.mem_iff).trans isSource_iff.symm))

end BindingTable

namespace Schema

/-- Agree on what loading takes as given. -/
structure SameGiven (s : Schema) (m n : NameMap α) : Prop where
  declared : ∀ name, s.isDeclared name → m.get? name = n.get? name
  keys : ∀ key source, (key, source) ∈ s.bindings.flatMap BoundIndex.keySources →
    s.isDeclared source → m.get? source = none → m.get? key = n.get? key

/-- The keys of a missing attribute are stored with one value, those that are stored. -/
def OneValue (s : Schema) (m : NameMap α) : Prop :=
  ∀ key other source v w, s.isDeclared source → m.get? source = none →
    (key, source) ∈ s.bindings.flatMap BoundIndex.keySources →
    (other, source) ∈ s.bindings.flatMap BoundIndex.keySources →
    m.get? key = some v → m.get? other = some w → v = w

/-- The schema with its keys listed in another order. -/
def relist (s : Schema) (pairs : List (String × String)) : Schema := { s with keys := ⟨pairs⟩ }

variable {s : Schema}

theorem SameGiven.traverse {f : α → Except ε β} {m m' : NameMap α} {n n' : NameMap β}
    (same : s.SameGiven m m') (done : m.traverse f = .ok n) (done' : m'.traverse f = .ok n') :
    s.SameGiven n n' where
  declared name declared := NameMap.get?_traverse_congr done done' (same.declared name declared)
  keys key source bound declared missing := by
    have absent := (NameMap.get?_traverse_eq_none_iff done).1 missing
    exact NameMap.get?_traverse_congr done done' (same.keys key source bound declared absent)

theorem OneValue.traverse {f : α → Except ε β} {m : NameMap α} {n : NameMap β}
    (one : s.OneValue m) (done : m.traverse f = .ok n) : s.OneValue n := by
  intro key other source v w declared missing bound bound' held held'
  have absent := (NameMap.get?_traverse_eq_none_iff done).1 missing
  obtain ⟨a, stored, gives⟩ := NameMap.get?_of_traverse done held
  obtain ⟨b, stored', gives'⟩ := NameMap.get?_of_traverse done held'
  obtain rfl := one key other source a b declared absent bound bound' stored stored'
  exact Except.ok.inj (gives.symm.trans gives')

section Valid

variable (valid : s.Valid)
include valid

/-- A key is missing its source only if the source is declared and not stored. -/
theorem given_of_leftover {raw : NameMap Value} (pair : (key, source) ∈ s.keys.pairs)
    (missing : (s.restore raw).get? source = none) :
    s.isDeclared source ∧ raw.get? source = none := by
  rcases valid.keySource _ _ pair with declared | joined
  · rw [restore_declared valid raw declared, get?_recovered, if_pos declared,
      Option.or_eq_none_iff] at missing
    exact ⟨declared, missing.1⟩
  · obtain ⟨j, member, rfl⟩ := isJoined_iff.1 joined
    rw [restore_joined valid raw member] at missing
    cases missing

theorem recovered_sameGiven {raw raw' : NameMap Value} (same : s.SameGiven raw raw') :
    s.recovered raw = s.recovered raw' := by
  apply NameMap.ext_get?
  intro name
  rw [get?_recovered, get?_recovered]
  split
  · next declared =>
    rw [← same.declared name declared]
    cases stored : raw.get? name with
    | some value => rfl
    | none =>
      have keys : ∀ key ∈ s.keys.keysOf name, raw.get? key = raw'.get? key := fun key member =>
        same.keys key name ((valid.bound _).1 (BindingTable.mem_keysOf.1 member)) declared stored
      rw [findSome?_congr keys]
  · rfl

theorem restore_sameGiven {raw raw' : NameMap Value} (same : s.SameGiven raw raw') :
    s.restore raw = s.restore raw' := by
  have declaredSame (name : String) (declared : s.isDeclared name) :
      (s.restore raw).get? name = (s.restore raw').get? name := by
    rw [restore_declared valid _ declared, restore_declared valid _ declared,
      recovered_sameGiven valid same]
  apply InStep.ext valid (restore_inStep valid raw) (restore_inStep valid raw') declaredSame
  intro key source pair missing
  obtain ⟨declared, absent⟩ := given_of_leftover valid pair missing
  rw [restore_key valid raw pair, restore_key valid raw' pair, ← declaredSame source declared,
    missing, same.keys key source ((valid.bound _).1 pair) declared absent]

variable {pairs : List (String × String)} (perm : pairs.Perm s.keys.pairs)
include perm

theorem Valid.relist : (s.relist pairs).Valid where
  sourcesDeclared := valid.sourcesDeclared
  targetUndeclared := valid.targetUndeclared
  targetNoKey j member isKey :=
    valid.targetNoKey j member ((BindingTable.isKey_perm perm j.target).symm.trans isKey)
  targetsDistinct := valid.targetsDistinct
  keysDistinct := (perm.map Prod.fst).nodup_iff.2 valid.keysDistinct
  keySource key source pair := valid.keySource key source (perm.mem_iff.1 pair)
  ownSource key source pair := valid.ownSource key source (perm.mem_iff.1 pair)
  bound pair := perm.mem_iff.trans (valid.bound pair)

omit valid in
theorem InStep.of_relist (inStep : (s.relist pairs).InStep values) : s.InStep values where
  joined := inStep.joined
  keys key source value pair := inStep.keys key source value (perm.mem_iff.2 pair)
  names name value found :=
    (inStep.names name value found).imp_right fun known => known.imp_right fun isKey =>
      (BindingTable.isKey_perm perm name).symm.trans isKey

theorem recovered_relist {raw : NameMap Value} (one : s.storeAliases = false → s.OneValue raw) :
    (s.relist pairs).recovered raw = s.recovered raw := by
  apply NameMap.ext_get?
  intro name
  rw [get?_recovered, get?_recovered]
  show (if s.isDeclared name then (raw.get? name).or (if s.storeAliases then none
    else (BindingTable.keysOf ⟨pairs⟩ name).findSome? raw.get?) else none) = _
  split
  · next declared =>
    cases stored : raw.get? name with
    | some value => rfl
    | none =>
      cases aliases : s.storeAliases with
      | true => rfl
      | false =>
        have keys : (BindingTable.keysOf ⟨pairs⟩ name).Perm (s.keys.keysOf name) :=
          (perm.filter _).map _
        have bound (key : String) (member : key ∈ s.keys.keysOf name) :
            (key, name) ∈ s.bindings.flatMap BoundIndex.keySources :=
          (valid.bound _).1 (BindingTable.mem_keysOf.1 member)
        have found : (s.keys.keysOf name).findSome? raw.get? =
            (BindingTable.keysOf ⟨pairs⟩ name).findSome? raw.get? :=
          findSome?_perm (fun key member other member' v w => one aliases key other name v w
            declared stored (bound key member) (bound other member')) keys.symm
        rw [found]
  · rfl

theorem restore_relist {raw : NameMap Value} (one : s.storeAliases = false → s.OneValue raw) :
    (s.relist pairs).restore raw = s.restore raw := by
  have relisted := valid.relist perm
  have declaredSame (name : String) (declared : s.isDeclared name) :
      (s.restore raw).get? name = ((s.relist pairs).restore raw).get? name := by
    rw [restore_declared valid _ declared, restore_declared relisted _ declared,
      recovered_relist valid perm one]
  refine (InStep.ext valid (restore_inStep valid raw)
    (.of_relist perm (restore_inStep relisted raw)) declaredSame ?_).symm
  intro key source pair missing
  obtain ⟨declared, -⟩ := given_of_leftover valid pair missing
  rw [restore_key valid raw pair, restore_key relisted raw (perm.mem_iff.2 pair),
    ← declaredSame source declared]

end Valid

end Schema

/-- Items that agree on what is given are loaded as one record, in whatever order the keys are
looked at where it could matter. -/
theorem Record.load_sameGiven {s : Schema} (built : s.Built) (decoded : deserializeItem item = .ok raw)
    (decoded' : deserializeItem item' = .ok raw') (same : s.SameGiven item item') :
    ∃ r, load s item = .ok r ∧ load s item' = .ok r ∧
      ∀ pairs : List (String × String), pairs.Perm s.keys.pairs →
        (s.storeAliases = false → s.OneValue item') → load (s.relist pairs) item' = .ok r := by
  have valid := built.valid
  have alike := Schema.restore_sameGiven valid (same.traverse decoded decoded')
  refine ⟨⟨s.restore raw, s.restore raw⟩, ?_, ?_, fun pairs perm one => ?_⟩
  · rw [load, decoded]
    rfl
  · rw [load, decoded', alike]
    rfl
  · have relisted := Schema.restore_relist valid perm fun aliases => (one aliases).traverse decoded'
    rw [load, decoded', alike, ← relisted]
    rfl

namespace Archive

def honest : Item :=
  NameMap.ofList [("account", .string "a1"), ("dayCopy", .string "d1"), ("note", .string "n")]

def forged : Item :=
  NameMap.ofList [("account", .string "a1"), ("colour", .string "red"), ("dayCopy", .string "d1"),
    ("label", .string "x"), ("note", .string "n"), ("pk", .string "a2"), ("stamp", .string "x"),
    ("stampKey", .string "x")]

theorem eq_of_isDeclared (declared : schema.isDeclared name) :
    name = "account" ∨ name = "day" ∨ name = "note" := by
  simpa [Schema.isDeclared, schema] using declared

theorem sameGiven_forged : schema.SameGiven honest forged where
  declared name declared := by
    rcases eq_of_isDeclared declared with rfl | rfl | rfl <;> rfl
  keys key source bound declared missing := by
    have known : (key, source) ∈ schema.keys.pairs := (built.valid.bound _).2 bound
    simp only [schema, List.mem_cons, Prod.mk.injEq, List.not_mem_nil, or_false] at known
    rcases known with ⟨rfl, rfl⟩ | ⟨rfl, rfl⟩ | ⟨rfl, rfl⟩ | ⟨rfl, rfl⟩
    · cases missing
    · rfl
    · cases declared
    · rfl

theorem oneValue_forged : schema.OneValue forged := by
  intro key other source v w declared missing bound bound' held held'
  have onlyCopy (name : String) (bound : (name, "day") ∈ schema.bindings.flatMap BoundIndex.keySources)
      (stored : forged.contains name) : name = "dayCopy" := by
    have pair : (name, "day") ∈ schema.keys.pairs := (built.valid.bound _).2 bound
    simp only [schema, List.mem_cons, Prod.mk.injEq, List.not_mem_nil, or_false] at pair
    rcases pair with ⟨-, other⟩ | ⟨rfl, -⟩ | ⟨-, other⟩ | ⟨rfl, -⟩
    · exact absurd other (by decide)
    · cases stored
    · exact absurd other (by decide)
    · rfl
  rcases eq_of_isDeclared declared with rfl | rfl | rfl
  · cases missing
  · obtain rfl := onlyCopy key bound (NameMap.contains_iff.2 ⟨v, held⟩)
    obtain rfl := onlyCopy other bound' (NameMap.contains_iff.2 ⟨w, held'⟩)
    exact Option.some.inj (held.symm.trans held')
  · cases missing

end Archive

/-- What is made up has no effect, with the keys in reverse order either. -/
theorem Record.load_sameGiven_forged :
    Archive.schema.SameGiven Archive.honest Archive.forged ∧
      Archive.schema.OneValue Archive.forged ∧
      Archive.schema.keys.pairs.reverse.Perm Archive.schema.keys.pairs ∧
      Archive.forged.get? "pk" = some (.string "a2") ∧
      ∃ r, load Archive.schema Archive.honest = .ok r ∧ load Archive.schema Archive.forged = .ok r ∧
        load (Archive.schema.relist Archive.schema.keys.pairs.reverse) Archive.forged = .ok r ∧
        r.get? "pk" = some (.string "a1") ∧ r.get? "stampKey" = some (.string "a1~d1") := by
  have perm := Archive.schema.keys.pairs.reverse_perm
  obtain ⟨r, honest, forged, relisted⟩ := Record.load_sameGiven Archive.built
    (show deserializeItem Archive.honest = .ok _ from rfl)
    (show deserializeItem Archive.forged = .ok _ from rfl) Archive.sameGiven_forged
  refine ⟨Archive.sameGiven_forged, Archive.oneValue_forged, perm, rfl, r, honest, forged,
    relisted _ perm fun _ => Archive.oneValue_forged, ?_, ?_⟩
  all_goals
    obtain rfl := Except.ok.inj (honest.symm.trans (show load _ _ = .ok _ from rfl))
    rfl

end WideColumn
