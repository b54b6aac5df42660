import Mathlib.Data.List.Find
import WideColumn.Proofs.Schema.Layout

/-! Which order counts. The bindings of a draft may be given in any order: an index takes at most
one of them, the checks ask the same of each, and the bound indexes are laid out by the catalog.
So the order of the catalog is left to decide between the indexes that serve the same names, once
the primary index does not. -/
namespace WideColumn

namespace Draft

section Reordered

variable {catalog : Catalog} {given again : List Binding} (perm : given.Perm again)
include perm

/-- The checks ask the same of every binding, wherever it stands. -/
theorem checkBindings_perm {known : String → Bool} : checkBindings catalog known [] given = .ok () ↔
    checkBindings catalog known [] again = .ok () := by
  simp only [checkBindings_ok, perm.mem_iff, (perm.map _).nodup_iff]

variable (once : (given.map (·.index)).Nodup)
include once

theorem find?_perm (index : String) :
    (given.find? fun b => b.index == index) = again.find? fun b => b.index == index := by
  refine List.find?_eq_find?_of_perm perm fun first hfirst second hsecond => ?_
  obtain ⟨listed, named⟩ := hfirst
  obtain ⟨listed', named'⟩ := hsecond
  have same : first.index = second.index := (eq_of_beq named).trans (eq_of_beq named').symm
  exact List.inj_on_of_nodup_map once listed listed' same

theorem bindAll_perm : bindAll catalog given = bindAll catalog again := by
  have bind (source : String) : bind? given source = bind? again source := by
    funext i
    rw [bind?, bind?, find?_perm perm once]
  unfold bindAll
  simp only [bind, find?_perm perm once]

end Reordered

theorem Checked.reordered {d : Draft} {bindings : List Binding} (passed : Checked d s)
    (perm : d.bindings.Perm bindings) : Checked { d with bindings } s := by
  have once := (checkBindings_ok.1 passed.bindings).2
  exact {
    joined := passed.joined
    names := passed.names
    bindings := (checkBindings_perm perm).1 passed.bindings
    bound := (bindAll_perm perm once).symm.trans passed.bound
    table := passed.table
    ownKeys := passed.ownKeys
    made := passed.made }

end Draft

/-- In a list ranked in ascending order, the first element that passes is the least one that does. -/
theorem find?_least {rank : α → Nat} {xs : List α} (ascending : xs.Pairwise fun a b => rank a < rank b)
    (p : α → Bool) : xs.find? p = some x ↔
      (x ∈ xs ∧ p x) ∧ ∀ other, other ∈ xs ∧ p other → rank x ≤ rank other := by
  induction xs with
  | nil => simp
  | cons first rest ih =>
    obtain ⟨below, ascending⟩ := List.pairwise_cons.1 ascending
    cases passes : p first with
    | false =>
      rw [List.find?_cons_of_neg (by simp [passes]), ih ascending]
      have passed (y : α) : y ∈ first :: rest ∧ p y ↔ y ∈ rest ∧ p y := by
        simp only [List.mem_cons, or_and_right, or_iff_right_iff_imp]
        rintro ⟨rfl, again⟩
        simp [passes] at again
      simp only [passed]
    | true =>
      rw [List.find?_cons_of_pos passes, Option.some.injEq]
      constructor
      · rintro rfl
        refine ⟨⟨List.mem_cons_self, passes⟩, fun other ⟨member, _⟩ => ?_⟩
        rcases List.mem_cons.1 member with rfl | later
        · exact le_rfl
        · exact (below other later).le
      · rintro ⟨⟨member, -⟩, least⟩
        rcases List.mem_cons.1 member with rfl | later
        · rfl
        · exact absurd (least first ⟨List.mem_cons_self, passes⟩) (below x later).not_ge

/-- The attributes that a bound index is looked up by, partition first. -/
def BoundIndex.sources (b : BoundIndex) : List String := b.partitionSource :: b.sortSource.toList

theorem BoundIndex.serves_iff_prefix {b : BoundIndex} {key : KeyNames} :
    b.serves key.partition key.sort ↔ key.toList <+: b.sources := by
  rw [serves_iff, KeyNames.toList, sources, List.cons_prefix_cons]
  cases key.sort <;> cases b.sortSource <;> simp [eq_comm]

theorem KeyNames.exists_toList {names : List String} (few : names.length = 1 ∨ names.length = 2) :
    ∃ key : KeyNames, key.toList = names := by
  rcases few with one | two
  · obtain ⟨partition, rfl⟩ := List.length_eq_one_iff.1 one
    exact ⟨⟨partition, none⟩, rfl⟩
  · obtain ⟨partition, sort, rfl⟩ := List.length_eq_two.1 two
    exact ⟨⟨partition, some sort⟩, rfl⟩

namespace Schema

variable {s : Schema} {names : List String}

/-- The bound indexes whose sources begin with the names. -/
def Candidate (s : Schema) (names : List String) (b : BoundIndex) : Prop :=
  b ∈ s.bindings ∧ names <+: b.sources

/-- The place of a bound index in the catalog. -/
def rank (s : Schema) (b : BoundIndex) : Nat := s.catalog.indexes.idxOf b.index

/-- How the names of a key are resolved without an index that is asked for. -/
structure Resolves (s : Schema) (names : List String) : Prop where
  primary : s.Candidate names s.primary → s.resolve names none = .ok s.primary
  earliest : ¬s.Candidate names s.primary → ∀ b, s.resolve names none = .ok b ↔
    s.Candidate names b ∧ ∀ other, s.Candidate names other → s.rank b ≤ s.rank other
  unmatched : (∃ fault, s.resolve names none = .error (.index fault)) ↔ ∀ b, ¬s.Candidate names b

theorem Built.ascending (built : s.Built) :
    s.secondary.Pairwise fun a b => s.rank a < s.rank b := by
  have distinct : s.catalog.indexes.Nodup := built.nodup_indexes.of_map _
  have places : s.catalog.indexes.Pairwise fun i j =>
      s.catalog.indexes.idxOf i < s.catalog.indexes.idxOf j := by
    refine List.pairwise_iff_getElem.2 fun i j hi hj before => ?_
    rw [distinct.idxOf_getElem i hi, distinct.idxOf_getElem j hj]
    exact before
  have ranked := places.sublist built.inOrder
  rw [List.pairwise_map] at ranked
  exact ranked

theorem Built.resolves (built : s.Built) (few : names.length = 1 ∨ names.length = 2) :
    s.Resolves names := by
  obtain ⟨key, rfl⟩ := KeyNames.exists_toList few
  have candidate (b : BoundIndex) : s.Candidate key.toList b ↔
      b ∈ s.bindings ∧ b.serves key.partition key.sort :=
    and_congr_right' BoundIndex.serves_iff_prefix.symm
  have own : s.Candidate key.toList s.primary ↔ s.primary.serves key.partition key.sort :=
    (candidate _).trans (and_iff_right List.mem_cons_self)
  constructor
  case primary =>
    intro serves
    rw [resolve_toList, serving_ok, bindings]
    exact List.find?_cons_of_pos (own.1 serves)
  case earliest =>
    intro other b
    have secondary (b : BoundIndex) : s.Candidate key.toList b ↔
        b ∈ s.secondary ∧ b.serves key.partition key.sort := by
      rw [candidate, bindings, List.mem_cons, or_and_right, or_iff_right_iff_imp]
      rintro ⟨rfl, serves⟩
      exact absurd (own.2 serves) other
    simp only [secondary]
    rw [resolve_toList, serving_ok, bindings, List.find?_cons_of_neg (by exact own.not.1 other),
      find?_least built.ascending]
  case unmatched =>
    simp only [resolve_toList, serving_error, candidate, not_and]

end Schema

/-- The bindings of a draft may be given in any order, and make the same schema. It resolves the
names of a key to its primary index, and else by the order of the catalog. -/
theorem Draft.build_reordered {d : Draft} {bindings : List Binding}
    (checked : Catalog.ofIndexes indexes = .ok d.catalog) (perm : d.bindings.Perm bindings) :
    (∀ s, d.build = .ok s ↔ Draft.build { d with bindings } = .ok s) ∧
      ∀ s, d.build = .ok s → ∀ names : List String, names.length = 1 ∨ names.length = 2 →
        s.Resolves names := by
  constructor
  · intro s
    simp only [build_ok]
    exact ⟨fun passed => passed.reordered perm, fun passed => passed.reordered perm.symm⟩
  · intro s built names few
    exact Schema.Built.resolves ⟨indexes, d, checked, built⟩ few

/-! Two indexes share their partition source. The catalog lists first the one that is bound last. -/
namespace Tickets

def indexes : List Index :=
  [.globalSecondary "byDue" "stateKey" (some "dueKey"), .primary "id" none,
    .globalSecondary "byOwner" "stateOwnerKey" (some "ownerKey")]

def draft : Draft where
  table := "tickets"
  catalog := ⟨indexes, .primary "id" none⟩
  attributes := ["id", "state", "due", "owner"]
  bindings := [⟨"byOwner", some "state", some "owner"⟩, ⟨"table", some "id", none⟩,
    ⟨"byDue", some "state", some "due"⟩]

end Tickets

theorem Draft.build_reordered_tickets :
    Catalog.ofIndexes Tickets.indexes = .ok Tickets.draft.catalog ∧
      Tickets.draft.bindings.Perm Tickets.draft.bindings.reverse ∧
      ∃ s, Draft.build { Tickets.draft with bindings := Tickets.draft.bindings.reverse } = .ok s ∧
        s.bindings.map (·.index.name) = ["table", "byDue", "byOwner"] ∧
        s.Resolves ["state"] ∧ (s.resolve ["state"] none).map (·.index.name) = .ok "byDue" ∧
        (s.resolve ["state", "owner"] none).map (·.index.name) = .ok "byOwner" := by
  have checked : Catalog.ofIndexes Tickets.indexes = .ok Tickets.draft.catalog := rfl
  have perm := (List.reverse_perm Tickets.draft.bindings).symm
  obtain ⟨same, resolves⟩ := Draft.build_reordered checked perm
  exact ⟨checked, perm, _, (same _).1 rfl, rfl, resolves _ rfl ["state"] (.inl rfl), rfl, rfl⟩

end WideColumn
