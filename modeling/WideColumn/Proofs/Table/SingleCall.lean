import WideColumn.Proofs.Fault
import WideColumn.Proofs.Run
import WideColumn.Proofs.Table.Loading
import WideColumn.Proofs.Update.Effect

/-! Operations that ask the store once at most. What can be settled without the store is settled
first; the call is then made once, whatever the store answers, and nothing waits. A fault of the
store is the outcome as it is, and such a fault comes from nowhere else. -/
namespace WideColumn

open Outcome

def MapperError.IsStore : MapperError → Prop
  | .store _ => True
  | _ => False

/-- What an operation comes to before the store is asked. -/
inductive Plan (α : Type) where
  | refuse (e : MapperError)
  | finish (x : α)
  | ask (c : Call)

namespace Plan

def ofRequest (call : ρ → Call) : Except MapperError ρ → Plan α
  | .ok request => .ask (call request)
  | .error e => .refuse e

/-- Without a request there is nothing to ask for, and the operation ends with `x`. -/
def ofRequest? (x : α) (call : ρ → Call) : Except MapperError (Option ρ) → Plan α
  | .ok (some request) => .ask (call request)
  | .ok none => .finish x
  | .error e => .refuse e

theorem ofRequest_map (call : σ → Call) (f : ρ → σ) (request : Except MapperError ρ) :
    (ofRequest call (request.map f) : Plan α) = ofRequest (fun x => call (f x)) request := by
  cases request <;> rfl

end Plan

namespace Run

/-- The run keeps to a plan: without a call the store is left alone, and a call is all there is to
the run. `conclude` makes of a response what the operation gives back. -/
structure SingleCall (plan : Plan α) (response : Shape ρ) (conclude : ρ → Except MapperError α)
    (answers : List Answer) (run : Run α) : Prop where
  refused : ∀ e, plan = .refuse e → run = .done (.error e) answers
  finished : ∀ x, plan = .finish x → run = .done (.ok x) answers
  asked : ∀ c, plan = .ask c → run.trace = [.call c] ∧ run.answers = answers.drop 1
  failed : ∀ c fault, plan = .ask c → (Reply.next response answers).result = .error fault →
    run.outcome = .error (.store fault)
  answered : ∀ c reply, plan = .ask c → (Reply.next response answers).result = .ok reply →
    run.outcome = conclude reply
  fault_iff : ∀ fault, run.outcome = .error (.store fault) ↔
    (∃ c, plan = .ask c) ∧ (Reply.next response answers).result = .error fault

variable {response : Shape ρ} {conclude : ρ → Except MapperError α} {answers : List Answer}

theorem singleCall_refuse {e : MapperError} (own : ¬e.IsStore) :
    SingleCall (.refuse e) response conclude answers (.done (.error e) answers) where
  refused _ same := by cases same; rfl
  finished _ other := by cases other
  asked _ other := by cases other
  failed _ _ other := by cases other
  answered _ _ other := by cases other
  fault_iff fault := by
    constructor
    · intro same
      cases same
      exact absurd trivial own
    · rintro ⟨⟨_, other⟩, -⟩
      cases other

theorem singleCall_finish (x : α) :
    SingleCall (.finish x) response conclude answers (.done (.ok x) answers) where
  refused _ other := by cases other
  finished _ same := by cases same; rfl
  asked _ other := by cases other
  failed _ _ other := by cases other
  answered _ _ other := by cases other
  fault_iff _ := by
    constructor
    · intro other
      cases other
    · rintro ⟨⟨_, other⟩, -⟩
      cases other

/-- A fault goes through, and with a response the rest is up to `conclude`. -/
theorem singleCall_ask (call : σ → Call) (request : σ)
    (own : ∀ reply, Fails (¬·.IsStore) (conclude reply)) :
    SingleCall (.ask (call request)) response conclude answers
      ((Run.send call response (.ok request) answers).check conclude) := by
  have outcome : ((Run.send call response (.ok request) answers).check conclude).outcome =
      ((Reply.next response answers).result.mapError .store).bind conclude := rfl
  refine ⟨nofun, nofun, ?_, ?_, ?_, fun fault => ?_⟩
  · intro c same
    cases same
    exact ⟨rfl, Reply.next_answers response answers⟩
  · intro c fault _ reply
    rw [outcome, reply]
    rfl
  · intro c reply _ good
    rw [outcome, good]
    rfl
  · rw [outcome]
    cases reply : (Reply.next response answers).result with
    | error other =>
      constructor
      · intro same
        cases same
        exact ⟨⟨_, rfl⟩, rfl⟩
      · rintro ⟨-, same⟩
        cases same
        rfl
    | ok found =>
      constructor
      · intro same
        exact absurd trivial (own found _ same)
      · rintro ⟨-, other⟩
        cases other

theorem singleCall_send (call : σ → Call) {request : Except MapperError σ}
    (made : Fails (¬·.IsStore) request) (own : ∀ reply, Fails (¬·.IsStore) (conclude reply)) :
    SingleCall (.ofRequest call request) response conclude answers
      ((Run.send call response request answers).check conclude) := by
  cases request with
  | ok request => exact singleCall_ask call request own
  | error e => exact singleCall_refuse (made e rfl)

theorem check_ok (r : Run α) : r.check .ok = r := by
  obtain ⟨outcome, trace, answers⟩ := r
  cases outcome <;> rfl

theorem check_map (f : α → β) (r : Run α) : r.check (fun x => .ok (f x)) = r.map f := by
  obtain ⟨outcome, trace, answers⟩ := r
  cases outcome <;> rfl

end Run

/-! ## Requests that are refused without the store -/

section

variable (t : Table)

theorem Table.queryRequest_fails (q : Query) : Fails (¬·.IsStore) (t.queryRequest q) := by
  have compiled (c : Condition Value) (kind : ExpressionKind) (explicit : Option String) :
      Fails (¬·.IsStore) (Expression.compile t.schema c kind explicit) :=
    Expression.compile_fails (fun _ => id) (fun _ => id) (fun _ => id) t.schema c kind explicit
  refine fails_bind (compiled _ _ _) fun key => ?_
  dsimp only
  split
  · exact fails_ok _
  · exact fails_bind (compiled _ _ _) fun _ => fails_ok _

theorem Table.saveRequest_fails (r : Record) (condition : Option (Condition Value))
    (failOnExists : Bool) : Fails (¬·.IsStore) (t.saveRequest r condition failOnExists) := by
  refine fails_bind (r.toItem_fails (fun _ => id) t.schema) fun item => ?_
  dsimp only
  split
  · exact fails_ok _
  · exact fails_bind (Expression.ofCondition_fails (fun _ => id) _ _ _) fun _ => fails_ok _

theorem Record.updateRequest_fails (s : Schema) (r : Record) (condition : Option (Condition Value)) :
    Fails (¬·.IsStore) (r.updateRequest s condition) := by
  rw [updateRequest_eq]
  split
  · split
    · exact fails_error id
    · exact fails_map _ (changesUnder_fails (fun _ => id) (fun _ => id) s r condition)
  · exact fails_ok _

/-- An update that has nothing to write ends where it begins. -/
theorem Table.update_singleCall (r : Record) (condition : Option (Condition Value))
    (answers : List Answer) :
    (t.update r condition answers).SingleCall
      (.ofRequest? false .updateItem (r.updateRequest t.schema condition))
      Response.UpdateItem.shape (fun _ => .ok true) answers := by
  have made := r.updateRequest_fails t.schema condition
  unfold update
  cases planned : r.updateRequest t.schema condition with
  | error e => exact Run.singleCall_refuse (made e planned)
  | ok request? =>
    cases request? with
    | none => exact Run.singleCall_finish false
    | some request =>
      dsimp only
      rw [← Run.check_map]
      exact Run.singleCall_ask .updateItem request fun _ => fails_ok _

/-- Reading by key, a page of a query as it is or as records, saving, updating, deleting, passing a
batch of writes on and loading a catalog each ask the store once at most: not at all when the request
cannot be made, and for an update also when nothing has changed; and else exactly once, with the
request that was made, whatever the answer. -/
theorem Table.single_calls (answers : List Answer) :
    (∀ partition sort, (t.fetch partition sort answers).SingleCall
      (.ofRequest (fun key => .getItem { table := t.schema.table, key }) (t.key partition sort))
      Response.GetItem.shape t.loadFound answers) ∧
    (∀ q, (t.queryRaw q answers).SingleCall (.ofRequest .query (t.queryRequest q))
      Response.Query.shape .ok answers) ∧
    (∀ q, (t.query q answers).SingleCall (.ofRequest .query (t.queryRequest q))
      Response.Query.shape t.page answers) ∧
    (∀ r condition failOnExists, (t.save r condition failOnExists answers).SingleCall
      (.ofRequest .putItem (t.saveRequest r condition failOnExists))
      Response.PutItem.shape (fun _ => .ok ()) answers) ∧
    (∀ r condition, (t.update r condition answers).SingleCall
        (.ofRequest? false .updateItem (r.updateRequest t.schema condition))
        Response.UpdateItem.shape (fun _ => .ok true) answers ∧
      (r.updateRequest t.schema condition = .ok none ↔ r.hasChanged t.schema = false)) ∧
    (∀ r, (t.delete r answers).SingleCall
      (.ofRequest (fun key => .deleteItem { table := t.schema.table, key }) (r.primaryKey t.schema))
      Response.DeleteItem.shape (fun _ => .ok ()) answers) ∧
    (∀ writes, (t.batchWrite writes answers).SingleCall
      (.ask (.batchWrite ⟨NameMap.empty.insert t.schema.table writes⟩))
      Response.BatchWrite.shape .ok answers) ∧
    ∀ table, (Catalog.load table answers).SingleCall (.ask (.describeTable ⟨table⟩))
      Response.DescribeTable.shape (Catalog.ofResponse table) answers := by
  refine ⟨?fetch, ?queryRaw, ?query, ?save, ?update, ?delete, ?batchWrite, ?load⟩
  case fetch =>
    intro partition sort
    have made : Fails (¬·.IsStore) (t.key partition sort) :=
      t.key_fails (fun _ => id) (fun _ => id) (fun _ => id) partition sort
    rw [← Plan.ofRequest_map .getItem]
    exact Run.singleCall_send .getItem (fails_map _ made) (t.loadFound_fails fun _ => id)
  case queryRaw =>
    intro q
    rw [← Run.check_ok (t.queryRaw q answers)]
    exact Run.singleCall_send .query (t.queryRequest_fails q) fun _ => fails_ok _
  case query =>
    intro q
    exact Run.singleCall_send .query (t.queryRequest_fails q) (t.page_fails fun _ => id)
  case save =>
    intro r condition failOnExists
    rw [save, ← Run.check_map]
    exact Run.singleCall_send .putItem (t.saveRequest_fails r condition failOnExists)
      fun _ => fails_ok _
  case update =>
    exact fun r condition =>
      ⟨t.update_singleCall r condition answers, r.updateRequest_none_iff condition⟩
  case delete =>
    intro r
    have made : Fails (¬·.IsStore) (r.primaryKey t.schema) :=
      t.schema.keyOf_fails (fun _ => id) (fun _ => id) r.values
    rw [delete, ← Run.check_map, ← Plan.ofRequest_map .deleteItem]
    exact Run.singleCall_send .deleteItem (fails_map _ made) fun _ => fails_ok _
  case batchWrite =>
    intro writes
    rw [← Run.check_ok (t.batchWrite writes answers)]
    exact Run.singleCall_ask .batchWrite _ fun _ => fails_ok _
  case load =>
    intro table
    exact Run.singleCall_ask .describeTable _ (Catalog.ofResponse_fails (fun _ => id) table)

end

/-- With two retries left a busy store is asked once; a record without a key and one without changes
do not reach it. -/
theorem Table.single_calls_busy :
    Orders.table.config.maxRetries = 2 ∧
    (∃ request,
      (Orders.table.save Orders.created none true [Orders.busy, Orders.busy]).trace =
        [.call (.putItem request)]) ∧
    (Orders.table.save Orders.created none true [Orders.busy, Orders.busy]).answers = [Orders.busy] ∧
    (Orders.table.save Orders.created none true [Orders.busy, Orders.busy]).outcome =
      .error (.store (.ofCode .throttling)) ∧
    Orders.table.delete ⟨{}, {}⟩ [Orders.busy, Orders.busy] =
      .done (.error (.missingKeyValue "pk")) [Orders.busy, Orders.busy] ∧
    Orders.table.update Orders.created none [Orders.busy, Orders.busy] =
      .done (.ok false) [Orders.busy, Orders.busy] := by
  obtain ⟨-, -, -, save, update, delete, -, -⟩ :=
    Table.single_calls Orders.table [Orders.busy, Orders.busy]
  obtain ⟨request, made⟩ : ∃ request,
      Orders.table.saveRequest Orders.created none true = .ok request := ⟨_, rfl⟩
  have plan : Plan.ofRequest Call.putItem (Orders.table.saveRequest Orders.created none true) =
      (.ask (.putItem request) : Plan Unit) := by rw [made]; rfl
  have saved := save Orders.created none true
  obtain ⟨once, left⟩ := saved.asked _ plan
  refine ⟨rfl, ⟨request, once⟩, left, saved.failed _ _ plan rfl, ?_, ?_⟩
  · exact (delete ⟨{}, {}⟩).refused _ rfl
  · exact (update Orders.created none).1.finished false rfl

end WideColumn
