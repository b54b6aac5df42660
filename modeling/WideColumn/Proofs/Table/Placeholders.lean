import WideColumn.Proofs.Expression.Closed
import WideColumn.Proofs.Expression.Stored
import WideColumn.Proofs.Table.PrimaryKey

/-! The placeholders of whole requests. A request has two texts at most, of different families,
so the tables that it is sent with hold what its texts use and nothing else, and joining the
tables of its texts changes the meaning of none. -/
namespace WideColumn

open Outcome

namespace Expression

def compile? (s : Schema) (kind : ExpressionKind) (condition : Option (Condition Value)) :
    Except MapperError (Option Expression) :=
  condition.mapM fun c => compile s c kind none

theorem compile?_some {kind : ExpressionKind} (compiled : compile s c kind none = .ok e) :
    compile? s kind (some c) = .ok (some e) := by
  simp [compile?, compiled]

theorem compile?_ok {kind : ExpressionKind} (done : compile? s kind (some c) = .ok e?) :
    ∃ e, compile s c kind none = .ok e ∧ some e = e? :=
  map_ok.1 (done : (compile s c kind none).map some = .ok e?)

def phrases (e : Option Expression) : List Phrase := e.toList.map phrase

end Expression

namespace Request

/-- The query has the texts of a key condition and of a filter, and its tables are for these. -/
structure Query.Sends (request : Query) (key : Expression) (filter : Option Expression) : Prop where
  keyText : request.keyCondition = some key.text
  filterText : request.filter = filter.map (·.text)
  tables : Phrase.Assembled (key.phrase :: Expression.phrases filter) request.names request.values

structure PutItem.Sends (request : PutItem) (condition : Option Expression) : Prop where
  conditionText : request.condition = condition.map (·.text)
  tables : Phrase.Assembled (Expression.phrases condition) request.names request.values

/-- The update has the text of an update without a condition and that of a condition, and its
tables are for these. -/
structure UpdateItem.Sends (request alone : UpdateItem) (text : String)
    (condition : Option Expression) : Prop where
  ownText : alone.update = some text
  updateText : request.update = some text
  conditionText : request.condition = condition.map (·.text)
  tables : Phrase.Assembled (⟨text, alone.names, alone.values⟩ :: Expression.phrases condition)
    request.names request.values

end Request

theorem Table.queryRequest_sends {t : Table} (done : t.queryRequest q = .ok request) :
    ∃ key filter, Expression.compile t.schema q.key .keyCondition q.index = .ok key ∧
      Expression.compile? t.schema .filter q.filter = .ok filter ∧ request.Sends key filter := by
  simp only [queryRequest, bind_ok] at done
  obtain ⟨key, compiledKey, done⟩ := done
  have closed := Expression.closed_compile compiledKey
  cases hfilter : q.filter with
  | none =>
    simp only [hfilter] at done
    obtain rfl := pure_ok.1 done
    exact ⟨key, none, compiledKey, rfl, rfl, rfl, closed.assembled⟩
  | some c =>
    simp only [hfilter, bind_ok, pure_ok] at done
    obtain ⟨filter, compiled, rfl⟩ := done
    refine ⟨key, filter, compiledKey, Expression.compile?_some compiled, rfl, rfl, ?_⟩
    exact closed.assembled_pair (Expression.closed_compile compiled) (by decide) (by decide)

theorem Table.saveRequest_sends {t : Table}
    (done : t.saveRequest r condition failOnExists = .ok request) :
    ∃ compiled, Expression.compile? t.schema .writeCondition
      (t.saveCondition condition failOnExists) = .ok compiled ∧ request.Sends compiled := by
  simp only [saveRequest, bind_ok] at done
  obtain ⟨item, -, done⟩ := done
  cases hcondition : t.saveCondition condition failOnExists with
  | none =>
    simp only [hcondition] at done
    obtain rfl := pure_ok.1 done
    exact ⟨none, rfl, rfl, Phrase.assembled_nil⟩
  | some c =>
    simp only [hcondition, bind_ok, pure_ok] at done
    obtain ⟨e, compiled, rfl⟩ := done
    have closed := Expression.closed_compile compiled
    refine ⟨e, Expression.compile?_some compiled, rfl, ?_⟩
    exact ⟨Merged.nil.add closed.names (by simp), Merged.nil.add closed.values (by simp)⟩

theorem Record.updateRequest_sends {s : Schema} {r : Record}
    (done : r.updateRequest s condition = .ok (some request)) :
    ∃ alone text compiled, r.updateRequest s none = .ok (some alone) ∧
      Expression.compile? s .writeCondition condition = .ok compiled ∧
      request.Sends alone text compiled := by
  obtain ⟨changed, untouched, made⟩ := updateRequest_some done
  simp only [changesUnder, bind_ok] at made
  obtain ⟨alone, base, made⟩ := made
  obtain ⟨unconditional, text, written, closed⟩ := closed_changesRequest base
  have sent : r.updateRequest s none = .ok (some alone) := by
    simp [updateRequest_eq, changed, untouched, changesUnder, base, pure, Except.pure, Except.map]
  cases condition with
  | none =>
    obtain rfl := pure_ok.1 made
    exact ⟨alone, text, none, sent, rfl, written, written, unconditional, closed.assembled⟩
  | some c =>
    simp only [bind_ok, pure_ok] at made
    obtain ⟨e, compiled, rfl⟩ := made
    refine ⟨alone, text, e, sent, Expression.compile?_some compiled, written, written, rfl, ?_⟩
    exact closed.assembled_pair (Expression.closed_compile compiled) (by decide) (by decide)

/-- The tables of a query, of a save and of an update hold exactly the placeholders of its texts,
no placeholder stands in two of them, and each is in the tables of the request what it is in those
of its own text. -/
theorem Table.placeholders_closed (t : Table) :
    (∀ q request, t.queryRequest q = .ok request →
      ∃ key filter, Expression.compile t.schema q.key .keyCondition q.index = .ok key ∧
        Expression.compile? t.schema .filter q.filter = .ok filter ∧ request.Sends key filter) ∧
    (∀ r condition failOnExists request, t.saveRequest r condition failOnExists = .ok request →
      ∃ compiled, Expression.compile? t.schema .writeCondition
        (t.saveCondition condition failOnExists) = .ok compiled ∧ request.Sends compiled) ∧
    ∀ (r : Record) condition request, r.updateRequest t.schema condition = .ok (some request) →
      ∃ alone text compiled, r.updateRequest t.schema none = .ok (some alone) ∧
        Expression.compile? t.schema .writeCondition condition = .ok compiled ∧
        request.Sends alone text compiled :=
  ⟨fun _ _ => queryRequest_sends, fun _ _ _ _ => saveRequest_sends,
    fun _ _ _ => Record.updateRequest_sends⟩

/-- The key condition shares the tables with a filter of four names, a save is guarded and has a
condition of its own, and an update that sets one attribute and removes one has a condition. -/
theorem Table.placeholders_closed_orders :
    (∃ request key filter, Orders.table.queryRequest { key := Orders.recent, filter := Orders.mixed } =
        .ok request ∧ Phrase.Assembled [key, filter] request.names request.values ∧
      request.names.contains "#key_name1" ∧ request.names.contains "#attribute_name3") ∧
    (∃ request condition, Orders.table.saveRequest Orders.created (some Orders.unnoted) true =
        .ok request ∧ Phrase.Assembled [condition] request.names request.values ∧
      request.names.contains "#condition_attribute_name2") ∧
    ∃ request update condition,
      Orders.withoutKind.updateRequest Orders.schema (some Orders.unnoted) = .ok (some request) ∧
      Phrase.Assembled [update, condition] request.names request.values ∧
      request.names.contains "#update_name1" ∧
      request.names.contains "#condition_attribute_name0" := by
  obtain ⟨queries, saves, updates⟩ := Table.placeholders_closed Orders.table
  refine ⟨?_, ?_, ?_⟩
  · obtain ⟨key, filter, -, -, sends⟩ :=
      queries { key := Orders.recent, filter := Orders.mixed } _ rfl
    cases filter with
    | none => cases sends.filterText
    | some filter => exact ⟨_, key.phrase, filter.phrase, rfl, sends.tables, rfl, rfl⟩
  · obtain ⟨condition, -, sends⟩ := saves Orders.created (some Orders.unnoted) true _ rfl
    cases condition with
    | none => cases sends.conditionText
    | some condition => exact ⟨_, condition.phrase, rfl, sends.tables, rfl⟩
  · obtain ⟨alone, text, condition, -, -, sends⟩ :=
      updates Orders.withoutKind (some Orders.unnoted) _ rfl
    cases condition with
    | none => cases sends.conditionText
    | some condition => exact ⟨_, _, condition.phrase, rfl, sends.tables, rfl, rfl⟩

end WideColumn
