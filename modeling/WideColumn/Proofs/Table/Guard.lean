import WideColumn.Proofs.Run
import WideColumn.Proofs.Table.Placeholders

/-! The guard of a save. What a save sends is read back and evaluated, whatever the tests of
single attributes mean apart from absence: the guard is a conjunct of its own beside the whole
condition of the application, and the attributes that it names are stored as primary key
attributes even where sources are left out. So the application can only narrow the guard. -/
namespace WideColumn

open Outcome

def Condition.eval (truth : String → Test α → Bool) : Condition α → Bool
  | .leaf name test => truth name test
  | .and left right => left.eval truth && right.eval truth
  | .or left right => left.eval truth || right.eval truth
  | .not inner => !inner.eval truth

/-- A meaning of the tests of stored attributes, by which exactly the attributes that an item does
not have are absent. -/
def RespectsAbsence (meaning : Item → String → Test WireValue → Bool) : Prop :=
  ∀ item name, meaning item name .absent = !item.contains name

def Request.PutItem.readCondition (request : Request.PutItem) : Option (Condition WireValue) := do
  let text ← request.condition
  let symbolic ← Condition.read text
  symbolic.traverse request.names.get? request.values.get?

structure Request.PutItem.Carries (request : Request.PutItem) (e : Option Expression) : Prop where
  conditionText : request.condition = e.map (·.text)
  names : request.names = (e.map (·.names)).getD {}
  values : request.values = (e.map (·.values)).getD {}

theorem Request.PutItem.Carries.readCondition {request : Request.PutItem} {e : Expression}
    (carries : request.Carries (some e)) : request.readCondition = e.read := by
  rw [PutItem.readCondition, carries.conditionText, carries.names, carries.values]
  rfl

namespace Condition

theorem traverse_foldl_absent {rename : String → String} {c : Condition Value}
    {asked : Condition WireValue} (names : List String)
    (done : c.traverse (fun name => .ok (rename name)) Value.serialize = .ok asked) :
    ∃ all, ((names.map fun name => leaf name .absent).foldl .and c).traverse
        (fun name => .ok (rename name)) Value.serialize = .ok all ∧
      ∀ truth, all.eval truth = (asked.eval truth && names.all fun name => truth (rename name) .absent) := by
  induction names generalizing c asked with
  | nil => exact ⟨asked, done, by simp⟩
  | cons name rest ih =>
    have next : (c.and (leaf name .absent)).traverse (fun name => .ok (rename name))
        Value.serialize = .ok (asked.and (leaf (rename name) .absent)) := by
      simp [traverse, Test.traverse, done, pure, Except.pure]
    obtain ⟨all, hall, means⟩ := ih next
    exact ⟨all, hall, fun truth => by simp [means, eval, Bool.and_assoc]⟩

theorem traverse_all_absent (rename : String → String) {names : List String} {c : Condition Value}
    (conjunction : Condition.all (names.map fun name => leaf name .absent) = some c) :
    ∃ all, c.traverse (fun name => .ok (rename name)) Value.serialize = .ok all ∧
      ∀ truth, all.eval truth = names.all fun name => truth (rename name) .absent := by
  cases names with
  | nil => cases conjunction
  | cons name rest =>
    cases conjunction
    have first : (leaf name (.absent : Test Value)).traverse (fun name => .ok (rename name))
        Value.serialize = .ok (leaf (rename name) .absent) := rfl
    obtain ⟨all, hall, means⟩ := traverse_foldl_absent rest first
    exact ⟨all, hall, fun truth => by simp [means, eval]⟩

end Condition

namespace Schema

/-- Where sources are left out, a primary key attribute may be stored as another one, but as one of
the primary key all the same. -/
theorem Built.storedName_primary {s : Schema} (built : s.Built)
    (member : name ∈ s.primary.index.keyAttributes) :
    s.storedName name ∈ s.primary.index.keyAttributes := by
  unfold storedName
  split
  · exact member
  · cases keys : s.keys.keysOf name with
    | nil => exact member
    | cons first others =>
      have isSource : s.keys.isSource name := by
        have pair := BindingTable.mem_keysOf.1 (keys ▸ List.mem_cons_self : first ∈ s.keys.keysOf name)
        exact BindingTable.isSource_iff.2 ⟨first, pair⟩
      obtain ⟨indexes, d, checked, made⟩ := id built
      obtain ⟨front, rest, same, ofPrimary⟩ :=
        built.primaryFirst member isSource (Draft.build_ok.1 made).table
      obtain ⟨rfl, rfl⟩ := List.cons.inj (keys.symm.trans same)
      exact ofPrimary

end Schema

namespace Expression

variable {s : Schema} {c : Condition Value} {e : Expression}

theorem read_writeCondition (compiled : compile s c .writeCondition none = .ok e) :
    ∃ stored, c.traverse (fun name => .ok (s.storedName name)) Value.serialize = .ok stored ∧
      e.read = some stored :=
  read_ofCondition compiled

theorem compile_right {left right : Condition Value}
    (compiled : compile s (.and left right) .writeCondition none = .ok e) :
    ∃ own, compile s right .writeCondition none = .ok own := by
  simp only [compile, ofCondition, Condition.operands, bind_ok] at compiled ⊢
  obtain ⟨operands, stored, -⟩ := compiled
  obtain ⟨-, second, -, hsecond, -⟩ := Value.serializeList_append.1 stored
  exact ⟨_, second, hsecond, rfl⟩

end Expression

namespace Table

variable {t : Table} {r : Record} {condition : Option (Condition Value)}

theorem saveRequest_of_sent (sent : Call.putItem request ∈ (t.save r condition failOnExists answers).calls) :
    t.saveRequest r condition failOnExists = .ok request := by
  unfold save at sent
  rw [Run.calls_map] at sent
  cases made : t.saveRequest r condition failOnExists with
  | error e => simp [Run.send, made] at sent
  | ok made' => simpa [Run.send, made, Run.calls, eq_comm] using sent

/-- The guard is about the primary key: it fails where the item has the whole key, and holds where
the item has none of it. -/
theorem guard_eval (built : t.schema.Built) (guarded : t.guard = some c) :
    ∃ asked, c.traverse (fun name => .ok (t.schema.storedName name)) Value.serialize = .ok asked ∧
      ∀ meaning, RespectsAbsence meaning → ∀ item : Item,
        ((∀ name ∈ t.schema.primary.index.keyAttributes, item.contains name) →
          asked.eval (meaning item) = false) ∧
        ((∀ name ∈ t.schema.primary.index.keyAttributes, ¬item.contains name) →
          asked.eval (meaning item) = true) := by
  obtain ⟨asked, stored, means⟩ := Condition.traverse_all_absent t.schema.storedName guarded
  refine ⟨asked, stored, fun meaning respects item => ⟨fun whole => ?_, fun nothing => ?_⟩⟩
  · have partition : t.schema.primary.index.partition ∈ t.schema.primary.index.keyAttributes :=
      List.mem_cons_self
    have present := whole _ (built.storedName_primary partition)
    rw [means, List.all_eq_false]
    exact ⟨_, partition, by simp [respects _ _, present]⟩
  · rw [means, List.all_eq_true]
    intro name member
    have absent := nothing _ (built.storedName_primary member)
    simpa [respects _ _] using absent

theorem saveRequest_carries (made : t.saveRequest r condition failOnExists = .ok request) :
    ∃ e, Expression.compile? t.schema .writeCondition (t.saveCondition condition failOnExists) =
      .ok e ∧ request.Carries e := by
  simp only [saveRequest, bind_ok] at made
  obtain ⟨item, -, made⟩ := made
  cases hcondition : t.saveCondition condition failOnExists with
  | none =>
    simp only [hcondition] at made
    obtain rfl := pure_ok.1 made
    exact ⟨none, rfl, rfl, rfl, rfl⟩
  | some c =>
    simp only [hcondition, bind_ok, pure_ok] at made
    obtain ⟨e, compiled, rfl⟩ := made
    exact ⟨e, Expression.compile?_some compiled, rfl, NameMap.empty_union e.names,
      NameMap.empty_union e.values⟩

theorem saveCondition_guarded {absence : Condition Value} (isGuard : t.guard = some absence)
    (condition : Option (Condition Value)) :
    t.saveCondition condition true = some (condition.elim absence (.and absence)) := by
  cases condition <;> simp [saveCondition, isGuard]

/-- No condition of the application weakens the guard of a save, and the guard changes nothing of
what the condition says of an item that has no attribute of the primary key. -/
theorem save_guarded (built : t.schema.Built)
    (sent : Call.putItem request ∈ (t.save r condition failOnExists answers).calls) :
    ∃ own, Expression.compile? t.schema .writeCondition condition = .ok own ∧
      (failOnExists = false → request.Carries own) ∧
      (failOnExists = true → ∃ guarded asked, request.readCondition = some guarded ∧
        own.mapM Expression.read = some asked ∧
        ∀ meaning, RespectsAbsence meaning → ∀ item : Item,
          ((∀ name ∈ t.schema.primary.index.keyAttributes, item.contains name) →
            guarded.eval (meaning item) = false) ∧
          ((∀ name ∈ t.schema.primary.index.keyAttributes, ¬item.contains name) →
            guarded.eval (meaning item) = (asked.map (·.eval (meaning item))).getD true)) := by
  obtain ⟨e, compiled, carries⟩ := saveRequest_carries (saveRequest_of_sent sent)
  cases failOnExists with
  | false => exact ⟨e, compiled, fun _ => carries, nofun⟩
  | true =>
    obtain ⟨absence, isGuard⟩ : ∃ absence, t.guard = some absence := ⟨_, rfl⟩
    rw [saveCondition_guarded isGuard] at compiled
    obtain ⟨e, whole, rfl⟩ := Expression.compile?_ok compiled
    obtain ⟨stored, traversed, reads⟩ := Expression.read_writeCondition whole
    have read := carries.readCondition.trans reads
    obtain ⟨keyAbsent, guardStored, decides⟩ := guard_eval built isGuard
    cases condition with
    | none =>
      obtain rfl := Except.ok.inj (traversed.symm.trans guardStored)
      exact ⟨none, rfl, nofun, fun _ => ⟨stored, none, read, rfl, decides⟩⟩
    | some c =>
      obtain ⟨own, compiledOwn⟩ := Expression.compile_right whole
      obtain ⟨asked, storedOwn, readsOwn⟩ := Expression.read_writeCondition compiledOwn
      have both : stored = .and keyAbsent asked := by
        have := traversed
        simp only [Option.elim, Condition.traverse, guardStored, storedOwn, ok_bind, pure_ok] at this
        exact this.symm
      refine ⟨own, Expression.compile?_some compiledOwn, nofun, fun _ =>
        ⟨stored, asked, read, by simp [readsOwn], fun meaning respects item => ?_⟩⟩
      obtain ⟨fails, holds⟩ := decides meaning respects item
      rw [both, Condition.eval]
      exact ⟨fun present => by rw [fails present, Bool.false_and],
        fun absent => by rw [holds absent, Bool.true_and]; rfl⟩

end Table

def Orders.lenient : Condition Value :=
  .or (.leaf "account" .present) (.not (.leaf "account" .present))

/-- The account is stored as a key that the guard names as well. -/
theorem Table.save_guarded_lenient :
    Orders.table.schema.Built ∧ ∃ request,
      Call.putItem request ∈ (Orders.table.save Orders.created (some Orders.lenient) true []).calls ∧
      request.names.get? "#condition_attribute_name0" = some "pk" ∧
      request.names.get? "#condition_attribute_name2" = some "pk" ∧
      ∃ guarded, request.readCondition = some guarded ∧
        ∀ meaning, RespectsAbsence meaning → ∀ item : Item, item.contains "pk" → item.contains "at" →
          guarded.eval (meaning item) = false := by
  have sent : Call.putItem _ ∈
      (Orders.table.save Orders.created (some Orders.lenient) true []).calls := List.mem_cons_self
  refine ⟨Orders.built, _, sent, rfl, rfl, ?_⟩
  obtain ⟨own, -, -, guards⟩ := Table.save_guarded Orders.built sent
  obtain ⟨guarded, asked, reads, -, decides⟩ := guards rfl
  refine ⟨guarded, reads, fun meaning respects item partition sort => ?_⟩
  refine (decides meaning respects item).1 fun name member => ?_
  rcases List.mem_cons.1 member with rfl | other
  · exact partition
  · obtain rfl := List.mem_singleton.1 other
    exact sort

end WideColumn
