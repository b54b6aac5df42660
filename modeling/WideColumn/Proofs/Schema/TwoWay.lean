import WideColumn.Proofs.Schema.Layout

/-! The table of keys as two maps, one from each key to its source and one from each source to its
keys. An insertion writes both, which keeps them inverse to each other. They answer what the list of
pairs in `BindingTable` answers and refuse the same pairs. -/
namespace WideColumn

/-- A source is listed with the keys it feeds, each once, and not without any. -/
structure TwoWay where
  sources : NameMap String
  keys : NameMap (List String)
  inverse : ∀ key source, sources.get? key = some source ↔ key ∈ (keys.get? source).getD []
  once : ∀ source, ((keys.get? source).getD []).Nodup
  used : ∀ source, keys.get? source ≠ some []

namespace TwoWay

def empty : TwoWay where
  sources := .empty
  keys := .empty
  inverse := by simp
  once := by simp
  used := by simp

def keysOf (t : TwoWay) (source : String) : List String := (t.keys.get? source).getD []

def isKey (t : TwoWay) (name : String) : Bool := t.sources.contains name

def isSource (t : TwoWay) (name : String) : Bool := t.keys.contains name

theorem isSource_iff {t : TwoWay} : t.isSource source ↔ t.keysOf source ≠ [] := by
  have used := t.used source
  rw [isSource, NameMap.contains, keysOf]
  cases found : t.keys.get? source with
  | none => simp
  | some listed => simpa [found] using used

/-- Takes a key that has no source yet. -/
def add (t : TwoWay) (source : String) (fresh : t.sources.get? key = none) : TwoWay where
  sources := t.sources.insert key source
  keys := t.keys.insert source (t.keysOf source ++ [key])
  inverse := by
    intro other fed
    have before := t.inverse other fed
    rw [NameMap.get?_insert, NameMap.get?_insert]
    by_cases own : key = other <;> by_cases same : source = fed
    · simp [own, same]
    · -- the new key feeds one source only, because it fed none before
      subst own
      rw [fresh] at before
      simpa [same] using before
    · simp [own, same, keysOf, ← before, Ne.symm own]
    · simpa [own, same] using before
  once := by
    intro other
    rw [NameMap.get?_insert]
    split
    · have apart : key ∉ t.keysOf source := by
        rw [keysOf, ← t.inverse, fresh]
        simp
      exact (t.once source).append (List.nodup_singleton key) (List.disjoint_singleton.2 apart)
    · exact t.once other
  used := by
    intro other
    rw [NameMap.get?_insert]
    split
    · simp
    · exact t.used other

def insert (t : TwoWay) (key source : String) : Except BindingFault TwoWay :=
  match fresh : t.sources.get? key with
  | some other => if other ≠ source then .error (.twoSources key other source) else .ok t
  | none => .ok (t.add source fresh)

def insertAll : TwoWay → List (String × String) → Except BindingFault TwoWay
  | t, [] => .ok t
  | t, (key, source) :: rest => do
    let t ← t.insert key source
    t.insertAll rest

def ofBindings (bindings : List BoundIndex) : Except BindingFault TwoWay :=
  insertAll empty (bindings.flatMap BoundIndex.keySources)

/-- Gives the answers of a list of pairs. -/
structure Answers (t : TwoWay) (b : BindingTable) : Prop where
  source : ∀ key, t.sources.get? key = b.source? key
  keys : ∀ source, t.keysOf source = b.keysOf source

namespace Answers

variable {t : TwoWay} {b : BindingTable}

theorem isKey (answers : Answers t b) (name : String) : t.isKey name = b.isKey name := by
  rw [TwoWay.isKey, NameMap.contains, answers.source, BindingTable.isKey]

theorem isSource (answers : Answers t b) (name : String) : t.isSource name = b.isSource name := by
  have listed : b.keysOf name ≠ [] ↔ ∃ key, key ∈ b.keysOf name :=
    ⟨List.exists_mem_of_ne_nil _, fun ⟨_, member⟩ => List.ne_nil_of_mem member⟩
  rw [Bool.eq_iff_iff, isSource_iff, answers.keys, BindingTable.isSource_iff, listed]
  exact exists_congr fun key => BindingTable.mem_keysOf

theorem empty : Answers .empty {} := ⟨fun _ => rfl, fun _ => rfl⟩

theorem add (answers : Answers t b) (fresh : t.sources.get? key = none) (source : String) :
    Answers (t.add source fresh) ⟨b.pairs ++ [(key, source)]⟩ where
  source other := by
    have before : t.sources.get? other = b.pairs.lookup other := answers.source other
    show (t.sources.insert key source).get? other = List.lookup other (b.pairs ++ [(key, source)])
    rw [NameMap.get?_insert, List.lookup_append, ← before]
    by_cases own : key = other
    · subst own
      simp [fresh]
    · simp [own, List.lookup_cons, beq_eq_false_iff_ne.2 (Ne.symm own)]
  keys other := by
    have before : t.keysOf other = (b.pairs.filter fun pair => pair.2 == other).map Prod.fst :=
      answers.keys other
    show ((t.keys.insert source (t.keysOf source ++ [key])).get? other).getD [] = List.map Prod.fst _
    rw [NameMap.get?_insert, List.filter_append, List.map_append, ← before]
    by_cases same : source = other
    · subst same
      simp
    · simp [same, keysOf]

/-- A step ends for both in the same way. -/
theorem insert (answers : Answers t b) (key source : String) :
    (∃ t' b', t.insert key source = .ok t' ∧ b.insert key source = .ok b' ∧ Answers t' b') ∨
      ∃ e, t.insert key source = .error e ∧ b.insert key source = .error e := by
  unfold TwoWay.insert
  split
  · next other known =>
    simp only [BindingTable.insert, ← answers.source, known]
    by_cases same : other = source
    · exact .inl ⟨t, b, if_neg (not_not.2 same), if_pos same, answers⟩
    · exact .inr ⟨_, if_pos same, if_neg same⟩
  · next fresh =>
    simp only [BindingTable.insert, ← answers.source, fresh]
    exact .inl ⟨_, _, rfl, rfl, answers.add fresh source⟩

theorem insertAll (answers : Answers t b) (pairs : List (String × String)) :
    (∃ t' b', t.insertAll pairs = .ok t' ∧ b.insertAll pairs = .ok b' ∧ Answers t' b') ∨
      ∃ e, t.insertAll pairs = .error e ∧ b.insertAll pairs = .error e := by
  induction pairs generalizing t b with
  | nil => exact .inl ⟨t, b, rfl, rfl, answers⟩
  | cons pair rest ih =>
    obtain ⟨key, source⟩ := pair
    rw [TwoWay.insertAll, BindingTable.insertAll]
    rcases answers.insert key source with ⟨t', b', first, first', later⟩ | ⟨e, failed, failed'⟩
    · rw [first, first']
      exact ih later
    · rw [failed, failed']
      exact .inr ⟨e, rfl, rfl⟩

/-- Walking the map of the sources gives the pairs in some order. -/
theorem entries_perm (answers : Answers t b) (distinct : (b.pairs.map Prod.fst).Nodup) :
    t.sources.entries.Perm b.pairs := by
  refine (List.perm_ext_iff_of_nodup (List.Nodup.of_map _ t.sources.nodup_names)
    (List.Nodup.of_map _ distinct)).2 fun (key, source) => ?_
  rw [← NameMap.get?_eq_some_iff, answers.source, ← BindingTable.mem_keysOf_iff distinct,
    BindingTable.mem_keysOf]

end Answers

end TwoWay

/-- The keys of a built schema as two maps. -/
theorem Schema.Built.twoWay (built : Built s) : ∃ t, TwoWay.ofBindings s.bindings = .ok t ∧
    t.Answers s.keys ∧ t.sources.entries.Perm s.keys.pairs := by
  have distinct := built.valid.keysDistinct
  obtain ⟨indexes, d, -, built⟩ := built
  have table := (Draft.build_ok.1 built).table
  rcases TwoWay.Answers.empty.insertAll (s.bindings.flatMap BoundIndex.keySources) with
    ⟨t, b, made, made', answers⟩ | ⟨e, -, failed⟩
  · obtain rfl := Except.ok.inj (made'.symm.trans table)
    exact ⟨t, made, answers, answers.entries_perm distinct⟩
  · cases failed.symm.trans table

end WideColumn
