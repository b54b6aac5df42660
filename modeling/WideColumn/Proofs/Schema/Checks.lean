import WideColumn.Proofs.Catalog
import WideColumn.Schema.Draft

/-! What each check of `Draft.build` asks. A binding table takes pairs as long as no key gets two
sources, and then holds exactly the pairs it was given. The loops over joined attributes and over
bindings ask the same of every entry, and that none repeats an earlier one. -/
namespace WideColumn

open Outcome

theorem BoundIndex.mem_keySources {b : BoundIndex} : (key, source) ∈ b.keySources ↔
    (key = b.index.partition ∧ source = b.partitionSource) ∨
      (b.index.sort = some key ∧ b.sortSource = some source) := by
  unfold keySources
  cases b.index.sort <;> cases b.sortSource <;> simp [eq_comm]

theorem BoundIndex.mem_keyAttributes {b : BoundIndex} (fed : (key, source) ∈ b.keySources) :
    key ∈ b.index.keyAttributes := by
  rcases BoundIndex.mem_keySources.1 fed with ⟨rfl, -⟩ | ⟨physical, -⟩
  · exact List.mem_cons_self
  · exact List.mem_cons_of_mem _ (by simp [physical])

namespace BindingTable

theorem isKey_iff {t : BindingTable} : t.isKey key ↔ ∃ source, (key, source) ∈ t.pairs := by
  simp [isKey, source?]

theorem isSource_iff {t : BindingTable} : t.isSource source ↔ ∃ key, (key, source) ∈ t.pairs := by
  simp [isSource]

theorem mem_keysOf {t : BindingTable} : key ∈ t.keysOf source ↔ (key, source) ∈ t.pairs := by
  simp [keysOf]

theorem mem_of_source? {t : BindingTable} (found : t.source? key = some source) :
    (key, source) ∈ t.pairs := by
  obtain ⟨before, after, whole, -⟩ := List.lookup_eq_some_iff.1 found
  simp [whole]

theorem source?_of_mem {t : BindingTable} (distinct : (t.pairs.map Prod.fst).Nodup)
    (member : (key, source) ∈ t.pairs) : t.source? key = some source := by
  cases found : t.source? key with
  | none => exact absurd (List.lookup_eq_none_iff.1 found _ member) (by simp)
  | some other =>
    have pair := List.inj_on_of_nodup_map distinct (mem_of_source? found) member rfl
    exact congrArg some (Prod.mk.inj pair).2

/-- A step takes a new key, or finds it there with the same source. -/
theorem insert_ok {t t' : BindingTable} (done : t.insert key source = .ok t') :
    (t' = t ∧ (key, source) ∈ t.pairs) ∨ (t.source? key = none ∧ t'.pairs = t.pairs ++ [(key, source)]) := by
  unfold insert at done
  split at done
  · next found =>
    split at done <;> cases done
    next same => exact .inl ⟨rfl, same ▸ mem_of_source? found⟩
  · next found => cases done; exact .inr ⟨found, rfl⟩

theorem mem_insert {t t' : BindingTable} (done : t.insert key source = .ok t')
    (pair : String × String) : pair ∈ t'.pairs ↔ pair = (key, source) ∨ pair ∈ t.pairs := by
  rcases insert_ok done with ⟨rfl, member⟩ | ⟨-, whole⟩
  · constructor
    · exact .inr
    · rintro (rfl | old)
      · exact member
      · exact old
  · rw [whole, List.mem_append, List.mem_singleton, or_comm]

theorem nodup_insert {t t' : BindingTable} (done : t.insert key source = .ok t')
    (distinct : (t.pairs.map Prod.fst).Nodup) : (t'.pairs.map Prod.fst).Nodup := by
  rcases insert_ok done with ⟨rfl, -⟩ | ⟨fresh, whole⟩
  · exact distinct
  · have apart : key ∉ t.pairs.map Prod.fst := by
      intro member
      obtain ⟨old, hold, same⟩ := List.mem_map.1 member
      have differs := List.lookup_eq_none_iff.1 fresh old hold
      simp [same] at differs
    rw [whole, List.map_append]
    exact distinct.append (List.nodup_singleton key) (List.disjoint_singleton.2 apart)

theorem insertAll_ok {t t' : BindingTable} {more : List (String × String)}
    (done : t.insertAll more = .ok t') (distinct : (t.pairs.map Prod.fst).Nodup) :
    (t'.pairs.map Prod.fst).Nodup ∧ ∀ pair, pair ∈ t'.pairs ↔ pair ∈ t.pairs ∨ pair ∈ more := by
  induction more generalizing t with
  | nil => cases done; exact ⟨distinct, by simp⟩
  | cons first rest ih =>
    simp only [insertAll, bind_ok] at done
    obtain ⟨next, hnext, hrest⟩ := done
    obtain ⟨distinctAll, mem⟩ := ih hrest (nodup_insert hnext distinct)
    refine ⟨distinctAll, fun pair => ?_⟩
    rw [mem, mem_insert hnext, List.mem_cons, or_assoc, or_left_comm]

/-- No key stands behind two sources. -/
def OneSource (pairs : List (String × String)) : Prop :=
  ∀ key first second, (key, first) ∈ pairs → (key, second) ∈ pairs → first = second

theorem oneSource_of_nodup {pairs : List (String × String)} (distinct : (pairs.map Prod.fst).Nodup) :
    OneSource pairs := by
  intro key first second hfirst hsecond
  exact (Prod.mk.inj (List.inj_on_of_nodup_map distinct hfirst hsecond rfl)).2

theorem exists_insert {t : BindingTable}
    (agrees : ∀ other, (key, other) ∈ t.pairs → other = source) :
    ∃ t', t.insert key source = .ok t' := by
  unfold insert
  cases found : t.source? key with
  | none => exact ⟨_, rfl⟩
  | some other => exact ⟨t, if_pos (agrees other (mem_of_source? found))⟩

theorem exists_insertAll {t : BindingTable} {more : List (String × String)}
    (one : OneSource (t.pairs ++ more)) : ∃ t', t.insertAll more = .ok t' := by
  induction more generalizing t with
  | nil => exact ⟨t, rfl⟩
  | cons pair rest ih =>
    obtain ⟨key, source⟩ := pair
    obtain ⟨next, hnext⟩ : ∃ next, t.insert key source = .ok next := exists_insert fun other old =>
      one key other source (List.mem_append_left _ old) (by simp)
    have same (pair : String × String) :
        pair ∈ next.pairs ++ rest ↔ pair ∈ t.pairs ++ (key, source) :: rest := by
      simp only [List.mem_append, List.mem_cons, mem_insert hnext]
      tauto
    obtain ⟨t', hrest⟩ := ih (t := next) fun key first second hfirst hsecond =>
      one key first second ((same _).1 hfirst) ((same _).1 hsecond)
    exact ⟨t', by simp [insertAll, hnext, hrest]⟩

/-- A table is made of bindings exactly when they give every key one source. -/
theorem exists_ofBindings_iff {bindings : List BoundIndex} :
    (∃ t, ofBindings bindings = .ok t) ↔ OneSource (bindings.flatMap BoundIndex.keySources) := by
  constructor
  · rintro ⟨t, done⟩
    obtain ⟨distinct, mem⟩ := insertAll_ok done (by simp)
    intro key first second hfirst hsecond
    exact oneSource_of_nodup distinct key first second ((mem _).2 (.inr hfirst))
      ((mem _).2 (.inr hsecond))
  · intro one
    exact exists_insertAll (by simpa using one)

end BindingTable

namespace Draft

variable {catalog : Catalog} {declared before : List String} {bindings : List Binding}

theorem mem_distinct {names : List String} : name ∈ distinct names ↔ name ∈ names := by
  induction names with
  | nil => simp [distinct]
  | cons first rest ih =>
    by_cases same : name = first
    · simp [distinct, same]
    · simp [distinct, ih, same]

theorem nodup_distinct (names : List String) : (distinct names).Nodup := by
  induction names with
  | nil => exact List.nodup_nil
  | cons name rest ih => exact List.nodup_cons.2 ⟨by simp, ih.filter _⟩

/-- A loop over entries that asks something of every one, and that its name is not among those
before it. -/
theorem loop_ok {loop : List String → List α → Except ε Unit} {name : α → String} {Asked : α → Prop}
    (nil : ∀ before, loop before [] = .ok ())
    (cons : ∀ before x rest, loop before (x :: rest) = .ok () ↔
      (Asked x ∧ name x ∉ before) ∧ loop (name x :: before) rest = .ok ())
    {xs : List α} : loop before xs = .ok () ↔
      (∀ x ∈ xs, Asked x ∧ name x ∉ before) ∧ (xs.map name).Nodup := by
  induction xs generalizing before with
  | nil => simp [nil]
  | cons x rest ih =>
    rw [cons, ih]
    simp only [List.mem_cons, forall_eq_or_imp, List.map_cons, List.nodup_cons, List.mem_map, not_or]
    grind

/-- What is asked of one joined attribute. -/
structure JoinedAdmitted (declared : List String) (catalog : Catalog) (j : Joined) : Prop where
  undeclared : j.target ∉ declared
  noKey : ¬catalog.isKeyAttribute j.target
  reads : j.sources ≠ []
  sources : ∀ source ∈ j.sources, source ∈ declared

theorem checkJoined_ok {joined : List Joined} :
    checkJoined declared catalog before joined = .ok () ↔
      (∀ j ∈ joined, JoinedAdmitted declared catalog j ∧ j.target ∉ before) ∧
        (joined.map (·.target)).Nodup := by
  refine loop_ok (fun _ => rfl) fun before j rest => ?_
  simp only [checkJoined, check_ok]
  constructor
  · rintro ⟨undeclared, noKey, fresh, reads, done⟩
    split at done
    · simp [bind_ok, throw_ok] at done
    next missing =>
      have known := List.find?_eq_none.1 (Option.eq_none_iff_forall_ne_some.2 missing)
      refine ⟨⟨⟨?_, noKey, ?_, ?_⟩, ?_⟩, done⟩
      · simpa using undeclared
      · simpa using reads
      · simpa using known
      · simpa using fresh
  · rintro ⟨⟨⟨undeclared, noKey, reads, sources⟩, fresh⟩, done⟩
    refine ⟨by simpa using undeclared, noKey, by simpa using fresh, by simpa using reads, ?_⟩
    have missing : j.sources.find? (fun source => !declared.contains source) = none := by
      simpa using sources
    simp only [missing]
    exact done

theorem checkKeys_ok {keys : BindingTable} {names : List String} :
    checkKeys keys names = .ok () ↔
      ∀ name ∈ names, ∀ source, keys.source? name = some source → source = name := by
  induction names with
  | nil => simp [checkKeys]
  | cons name rest ih =>
    unfold checkKeys
    cases found : keys.source? name with
    | none => simp [ih, found]
    | some source => by_cases own : source = name <;> simp [ih, found, own]

theorem checkDeclared_ok {names : List String} :
    checkDeclared declared names = .ok () ↔ ∀ name ∈ names, name ∈ declared := by
  unfold checkDeclared
  cases found : names.find? fun name => !declared.contains name with
  | none => simpa using found
  | some name =>
    have undeclared : name ∉ declared := by simpa using List.find?_some found
    have member := List.mem_of_find?_eq_some found
    simp only [reduceCtorEq, false_iff]
    exact fun all => undeclared (all name member)

/-- A local index takes no partition source, and there is a sort source for a sort attribute. -/
theorem checkSources_ok {b : Binding} {i : Index} :
    checkSources b i = .ok () ↔
      (b.partition = none ↔ i.kind = .localSecondary) ∧ (b.sort = none ↔ i.sort = none) := by
  unfold checkSources
  cases i.kind <;> cases b.partition <;> cases i.sort <;> cases b.sort <;>
    simp [bind_ok, pure_ok, throw_ok]

/-- What is asked of one binding. -/
structure BindingAdmitted (catalog : Catalog) (known : String → Bool) (b : Binding) : Prop where
  index : ∃ i, catalog.get b.index = .ok i ∧ checkSources b i = .ok ()
  sources : ∀ source, b.partition = some source ∨ b.sort = some source → known source

theorem checkBindings_ok {known : String → Bool} :
    checkBindings catalog known before bindings = .ok () ↔
      (∀ b ∈ bindings, BindingAdmitted catalog known b ∧ b.index ∉ before) ∧
        (bindings.map (·.index)).Nodup := by
  refine loop_ok (fun _ => rfl) fun before b rest => ?_
  simp only [checkBindings, bind_ok, check_ok, mapError_ok]
  constructor
  · rintro ⟨i, named, fresh, ⟨⟩, sources, done⟩
    split at done
    · simp [bind_ok, throw_ok] at done
    next missing =>
      have all := List.find?_eq_none.1 (Option.eq_none_iff_forall_ne_some.2 missing)
      refine ⟨⟨⟨⟨i, named, sources⟩, fun source stands => ?_⟩, by simpa using fresh⟩, done⟩
      simpa using all source (by simpa using stands)
  · rintro ⟨⟨⟨⟨i, named, sources⟩, stands⟩, fresh⟩, done⟩
    refine ⟨i, named, by simpa using fresh, (), sources, ?_⟩
    have missing : (b.partition.toList ++ b.sort.toList).find? (fun s => !known s) = none := by
      simpa [or_imp, forall_and] using stands
    simp only [missing]
    exact done

/-- The primary index is bound first, and the others follow in the order of the catalog. -/
theorem bindAll_ok : bindAll catalog bindings = .ok (primary, others) ↔
    ∃ b source, (bindings.find? fun b => b.index == catalog.primary.name) = some b ∧
      b.partition = some source ∧ primary = ⟨catalog.primary, source, b.sort⟩ ∧
      others = (catalog.indexes.filter fun i => !i.isPrimary).filterMap (bind? bindings source) := by
  unfold bindAll
  cases found : bindings.find? fun b => b.index == catalog.primary.name with
  | none => simp [found]
  | some b =>
    cases named : b.partition with
    | none => simp [found, named]
    | some source => simp [found, named, bind?, eq_comm]

/-- The checks that a build has passed, and what it made. -/
structure Checked (d : Draft) (s : Schema) : Prop where
  joined : checkJoined s.attributes d.catalog [] d.joined = .ok ()
  names : checkDeclared s.attributes
    (d.required ++ d.immutable ++ d.mutators.map (·.target)) = .ok ()
  bindings : checkBindings d.catalog
    (fun name => s.attributes.contains name || d.joined.any fun j => j.target == name) []
    d.bindings = .ok ()
  bound : bindAll d.catalog d.bindings = .ok (s.primary, s.secondary)
  table : BindingTable.ofBindings s.bindings = .ok s.keys
  ownKeys : checkKeys s.keys s.attributes = .ok ()
  made : s = {
    table := d.table, catalog := d.catalog, attributes := distinct d.attributes,
    required := d.required, primary := s.primary, secondary := s.secondary, joined := d.joined,
    mutators := d.mutators, immutable := d.immutable, storeAliases := d.storeAliases,
    keys := s.keys }

theorem build_ok : build d = .ok s ↔ Checked d s := by
  constructor
  · intro built
    simp only [build, bind_ok, mapError_ok, pure_ok] at built
    obtain ⟨⟨⟩, joined, ⟨⟩, names, ⟨⟩, bindings, ⟨primary, secondary⟩, bound, built⟩ := built
    obtain ⟨keys, table, ⟨⟩, ownKeys, rfl⟩ := built
    exact ⟨joined, names, bindings, bound, table, ownKeys, rfl⟩
  · intro passed
    have attributes : s.attributes = distinct d.attributes := by rw [passed.made]
    obtain ⟨joined, names, bindings, bound, table, ownKeys, made⟩ := passed
    rw [attributes] at joined names bindings ownKeys
    replace table : BindingTable.ofBindings (s.primary :: s.secondary) = .ok s.keys := table
    simp only [build, joined, names, bindings, bound, mapError_ok.2 table, mapError_ok.2 ownKeys, ok_bind]
    exact congrArg Except.ok made.symm

end Draft

end WideColumn
