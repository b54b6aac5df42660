import WideColumn.Proofs.Condition.KeyShape
import WideColumn.Proofs.Expression.Stored
import WideColumn.Proofs.Fault
import WideColumn.Proofs.Record.Baseline
import WideColumn.Proofs.Schema.Layout

/-! What becomes of a key condition. It is invalid exactly when it has not the shape that
addresses a key, or asks an index that was named for a sort key that the index has not. Of a valid
one the partition is the first name compared with `=`. -/
namespace WideColumn

open Outcome

def MapperError.IsKeyCondition : MapperError → Prop
  | .keyCondition _ => True
  | _ => False

namespace Schema

variable {s : Schema}

theorem Built.address_refused_iff (built : s.Built) (key : KeyNames) (explicit : Option String) :
    (∃ fault, s.address key explicit = .error (.keyCondition fault)) ↔
      key.sort.isSome ∧ ∃ b ∈ s.bindings, explicit = some b.index.name ∧ b.index.sort = none := by
  constructor
  · rintro ⟨fault, refused⟩
    simp only [address, bind_error] at refused
    rcases refused with unresolved | ⟨b, resolved, refused⟩
    · have unrelated : Fails (¬·.IsKeyCondition) (s.resolve key.toList explicit) :=
        resolve_fails (fun _ => id) s key.toList explicit
      exact absurd trivial (unrelated _ unresolved)
    split at refused
    · cases refused
    · cases refused
    · next name wanted missing =>
      obtain ⟨member, serves, named⟩ := resolve_ok resolved
      refine ⟨by rw [wanted]; rfl, b, member, ?_, missing⟩
      cases explicit with
      | some index => rw [named index rfl]
      | none =>
        have source := (BoundIndex.serves_iff.1 (serves rfl)).2 name wanted
        have same := built.sortSource member
        rw [missing, source] at same
        cases same
  · rintro ⟨wanted, b, member, rfl, missing⟩
    obtain ⟨name, wanted⟩ := Option.isSome_iff_exists.1 wanted
    have resolved : s.resolve key.toList (some b.index.name) = .ok b := built.named_iff.2 ⟨member, rfl⟩
    refine ⟨.indexWithoutSort b.index.name name, ?_⟩
    simp only [address, resolved, ok_bind, wanted, missing]
    rfl

end Schema

namespace Expression

variable {s : Schema} {c : Condition Value} {kind : ExpressionKind} {explicit index : Option String}
  {rename : String → String} {e : Expression}

theorem compile_refused_iff :
    (∃ fault, compile s c .keyCondition explicit = .error (.keyCondition fault)) ↔
      (∃ fault, c.keyNames = .error fault) ∨ ∃ key, c.keyNames = .ok key ∧
        ∃ fault, s.address key explicit = .error (.keyCondition fault) := by
  cases shape : c.keyNames with
  | error fault => simp [compile, shape, Except.mapError, bind_error]
  | ok key =>
    have shaped : compile s c .keyCondition explicit =
        s.address key explicit >>= fun addressing => ofCondition .keyCondition addressing c := by
      simp only [compile, shape]
      rfl
    rw [shaped]
    constructor
    · rintro ⟨fault, refused⟩
      rcases bind_error.1 refused with unaddressed | ⟨addressing, -, unwritten⟩
      · exact .inr ⟨key, rfl, fault, unaddressed⟩
      · have unrelated : Fails (¬·.IsKeyCondition) (ofCondition .keyCondition addressing c) :=
          ofCondition_fails (fun _ => id) .keyCondition addressing c
        exact absurd trivial (unrelated _ unwritten)
    · rintro (⟨fault, refused⟩ | ⟨_, same, fault, refused⟩)
      · cases refused
      · cases same
        exact ⟨fault, bind_error.2 (.inl refused)⟩

/-- The condition compiles to a key condition for the index, where none is the primary one, and
asks for every attribute under the name that `rename` gives it. -/
def CompilesKey (s : Schema) (c : Condition Value) (explicit index : Option String)
    (rename : String → String) : Prop :=
  ∃ e asked, compile s c .keyCondition explicit = .ok e ∧ e.index = index ∧
    c.traverse (fun name => .ok (rename name)) Value.serialize = .ok asked ∧ e.read = some asked

theorem exists_ofCondition_swap {left right : Condition Value}
    (done : ofCondition kind addressing (.and left right) = .ok e)
    (renamed : (Condition.and left right).traverse (fun name => .ok (rename name)) Value.serialize =
      .ok asked) (reads : e.read = some asked) :
    ∃ e' asked', ofCondition kind addressing (.and right left) = .ok e' ∧
      (Condition.and right left).traverse (fun name => .ok (rename name)) Value.serialize =
        .ok asked' ∧ e'.read = some asked' := by
  obtain ⟨e', done'⟩ : ∃ e', ofCondition kind addressing (.and right left) = .ok e' := by
    simp only [ofCondition, Condition.operands, bind_ok, Value.serializeList_append] at done ⊢
    obtain ⟨_, ⟨first, second, hfirst, hsecond, rfl⟩, -⟩ := done
    exact ⟨_, _, ⟨second, first, hsecond, hfirst, rfl⟩, rfl⟩
  obtain ⟨stored, hstored, read⟩ := read_ofCondition done
  obtain ⟨stored', hstored', read'⟩ := read_ofCondition done'
  obtain rfl := Option.some.inj (read.symm.trans reads)
  simp only [Condition.traverse, bind_ok, pure_ok] at renamed hstored hstored'
  obtain ⟨l, hl, r, hr, rfl⟩ := renamed
  obtain ⟨l₁, hl₁, r₁, hr₁, same⟩ := hstored
  obtain ⟨rfl, rfl⟩ := Condition.and.inj same
  obtain ⟨r₂, hr₂, l₂, hl₂, rfl⟩ := hstored'
  obtain rfl := Except.ok.inj (hr₁.symm.trans hr₂)
  obtain rfl := Except.ok.inj (hl₁.symm.trans hl₂)
  refine ⟨e', _, done', ?_, read'⟩
  simp only [Condition.traverse, hl, hr, ok_bind]
  rfl

theorem CompilesKey.swap {a b : String} {t u : Test Value} (single : t.isEquality ≠ u.isEquality)
    (compiles : CompilesKey s (.and (.leaf a t) (.leaf b u)) explicit index rename) :
    CompilesKey s (.and (.leaf b u) (.leaf a t)) explicit index rename := by
  obtain ⟨e, asked, compiled, rfl, renamed, reads⟩ := compiles
  simp only [compile, bind_ok, mapError_ok] at compiled
  obtain ⟨key, shaped, addressing, addressed, done⟩ := compiled
  obtain ⟨e', asked', done', renamed', reads'⟩ := exists_ofCondition_swap done renamed reads
  refine ⟨e', asked', ?_, ?_, renamed', reads'⟩
  · simp only [compile, bind_ok, mapError_ok]
    exact ⟨key, Condition.keyNames_swap single shaped, addressing, addressed, done'⟩
  · rw [ofCondition_index done, ofCondition_index done']

theorem compiled_ok (compiled : compile s c .keyCondition explicit = .ok e) :
    ∃ (key : KeyNames) (b : BoundIndex) (rename : String → String) (asked : Condition WireValue),
      c.keyNames = .ok key ∧ b ∈ s.bindings ∧
      e.index = (if b.index.isPrimary then none else some b.index.name) ∧
      c.traverse (fun name => .ok (rename name)) Value.serialize = .ok asked ∧
      e.read = some asked ∧ rename key.partition = b.index.partition ∧
      ∀ name ∈ c.names, name ≠ key.partition → b.index.sort = some (rename name) := by
  simp only [compile, bind_ok, mapError_ok] at compiled
  obtain ⟨key, shaped, addressing, addressed, done⟩ := compiled
  have covers := Condition.keyNames_ok shaped
  obtain ⟨b, resolved, atPartition, atSort⟩ := address_ok covers addressed
  obtain ⟨asked, renamed, reads⟩ := read_ofCondition done
  have index := (ofCondition_index done).trans (address_index addressed resolved)
  refine ⟨key, b, addressing.rename, asked, shaped, (Schema.resolve_ok resolved).1, index, renamed,
    reads, atPartition, fun name member other => ?_⟩
  exact atSort name ((covers.only name member).resolve_left other)

theorem exists_compile_iff : (∃ e, compile s c .keyCondition explicit = .ok e) ↔
    ∃ index rename, CompilesKey s c explicit index rename := by
  constructor
  · rintro ⟨e, compiled⟩
    obtain ⟨key, b, rename, asked, -, -, -, renamed, reads, -⟩ := compiled_ok compiled
    exact ⟨e.index, rename, e, asked, compiled, rfl, renamed, reads⟩
  · rintro ⟨index, rename, e, asked, compiled, -⟩
    exact ⟨e, compiled⟩

/-- A key condition has a name to begin with, and the names of the key are its names in another
order. It is invalid exactly when it is no conjunction of one or two tests of a key, or names two
attributes for an index without a sort key that was asked for by name. When it compiles, the first
name compared with `=` becomes the partition attribute of the index and the other one its sort
attribute. With one equality among two tests, their order changes neither whether the condition
compiles nor the index nor what a name becomes. -/
theorem compile_keyCondition_shape (built : s.Built) (c : Condition Value)
    (explicit : Option String) :
    (c.names ≠ [] ∧ ∀ key, c.keyNames = .ok key → key.toList.Perm c.names) ∧
    ((∃ fault, compile s c .keyCondition explicit = .error (.keyCondition fault)) ↔
      ¬c.KeyShaped ∨ c.KeyShaped ∧ c.names.length = 2 ∧
        ∃ b ∈ s.bindings, explicit = some b.index.name ∧ b.index.sort = none) ∧
    (∀ e, compile s c .keyCondition explicit = .ok e →
      ∃ (tests : List (String × Test Value)) (partition : String) (b : BoundIndex)
        (rename : String → String) (asked : Condition WireValue),
      c.Conjoins tests ∧ Condition.KeyTests tests ∧ Condition.FirstEqual tests partition ∧
      b ∈ s.bindings ∧ e.index = (if b.index.isPrimary then none else some b.index.name) ∧
      c.traverse (fun name => .ok (rename name)) Value.serialize = .ok asked ∧
      e.read = some asked ∧ rename partition = b.index.partition ∧
      ∀ name ∈ c.names, name ≠ partition → b.index.sort = some (rename name)) ∧
    ∀ (a b : String) (t u : Test Value), t.isEquality ≠ u.isEquality →
      ((∃ e, compile s (.and (.leaf a t) (.leaf b u)) .keyCondition explicit = .ok e) ↔
        ∃ e, compile s (.and (.leaf b u) (.leaf a t)) .keyCondition explicit = .ok e) ∧
      ∀ index rename, CompilesKey s (.and (.leaf a t) (.leaf b u)) explicit index rename ↔
        CompilesKey s (.and (.leaf b u) (.leaf a t)) explicit index rename := by
  refine ⟨⟨c.names_ne_nil, fun key done => (Condition.keyNames_ok done).perm⟩, ?_, ?_, ?_⟩
  · rw [compile_refused_iff]
    simp only [built.address_refused_iff]
    cases shape : c.keyNames with
    | error fault =>
      have bad : ¬c.KeyShaped := by
        rw [← Condition.keyNames_ok_iff]
        rintro ⟨key, done⟩
        cases shape.symm.trans done
      simp [bad]
    | ok key =>
      have good : c.KeyShaped := Condition.keyNames_ok_iff.1 ⟨key, shape⟩
      have two : key.sort.isSome ↔ c.names.length = 2 := by
        rw [← (Condition.keyNames_ok shape).perm.length_eq]
        cases sort : key.sort <;> simp [KeyNames.toList, sort]
      simp [good, two]
  · intro e compiled
    obtain ⟨key, b, rename, asked, shaped, member, index, renamed, reads, atPartition, atSort⟩ :=
      compiled_ok compiled
    obtain ⟨tests, conjoins, fits, first⟩ := Condition.keyNames_shape shaped
    exact ⟨tests, key.partition, b, rename, asked, conjoins, fits, first, member, index, renamed,
      reads, atPartition, atSort⟩
  · intro a b t u single
    have both (index rename) : CompilesKey s (.and (.leaf a t) (.leaf b u)) explicit index rename ↔
        CompilesKey s (.and (.leaf b u) (.leaf a t)) explicit index rename :=
      ⟨CompilesKey.swap single, CompilesKey.swap single.symm⟩
    exact ⟨by simp only [exists_compile_iff, both], both⟩

end Expression

namespace Archive

/-- Two names for the key of a day, which is its partition attribute alone. -/
def ofDay : Condition Value :=
  .and (.leaf "note" (.between (.string "a") (.string "n"))) (.leaf "day" (.compare .eq (.string "d1")))

theorem ofDay_shaped : ofDay.KeyShaped := by
  refine ⟨_, .and (.leaf "note" _) (.leaf "day" _), ?_⟩
  constructor
  case count => exact .inr rfl
  case distinct => decide
  case lookUp =>
    simp only [List.cons_append, List.nil_append, List.mem_cons, List.not_mem_nil, or_false,
      forall_eq_or_imp, forall_eq]
    exact ⟨.between _ _, .compare _ _ (by decide)⟩
  case equality => exact ⟨"day", .string "d1", by simp⟩

end Archive

/-- The partition is named last, and the same key is found with the tests exchanged; an index
that is asked for by name has no sort key for the second name. -/
theorem Expression.compile_keyCondition_shape_ofKind :
    Orders.schema.Built ∧ Archive.schema.Built ∧
      (∃ tests, Orders.ofKind.Conjoins tests ∧ Condition.FirstEqual tests "kind") ∧
      (∃ e, compile Orders.schema (.and (.leaf "kind" (.compare .eq (.string "new")))
        (.leaf "kindAt" (.beginsWith (.string "new~")))) .keyCondition none = .ok e) ∧
      ∃ fault, compile Archive.schema Archive.ofDay .keyCondition (some "byDay") =
        .error (.keyCondition fault) := by
  obtain ⟨-, -, compiles, swaps⟩ :=
    Expression.compile_keyCondition_shape Orders.built Orders.ofKind none
  obtain ⟨-, refused, -⟩ :=
    Expression.compile_keyCondition_shape Archive.built Archive.ofDay (some "byDay")
  refine ⟨Orders.built, Archive.built, ?_, ?_, ?_⟩
  · obtain ⟨tests, partition, b, rename, asked, conjoins, -, first, -⟩ :=
      compiles Orders.ofKindExpression rfl
    obtain rfl := conjoins.unique (.and (.leaf "kindAt" _) (.leaf "kind" _))
    obtain ⟨test, found⟩ := Condition.find?_isEquality_iff.2 first
    cases found
    exact ⟨_, conjoins, first⟩
  · exact (swaps "kindAt" "kind" _ _ (by decide)).1.1 ⟨Orders.ofKindExpression, rfl⟩
  · exact refused.2 (.inr ⟨Archive.ofDay_shaped, rfl, _, List.mem_cons_of_mem _ List.mem_cons_self,
      rfl, rfl⟩)

end WideColumn
