import WideColumn.Proofs.Run
import WideColumn.Proofs.Table.Loading
import WideColumn.Table.Paging

/-! A whole query as the pages that it went through. A page is asked for with one request, again
and again while the store is busy, up to the limit on retries. A page that names a last key leads
to the next one, which is asked for from that key on and with retries of its own; a page without
one is the last. The records of the query are those of all pages together. -/
namespace WideColumn.Table

open Outcome

/-- One page of a query: how it was asked for, the faults that it was asked for again after, and
the reply at the end. -/
structure Visit where
  request : Request.Query
  retried : List StoreFault
  reply : Except StoreFault Response.Query

namespace Visit

/-- So many calls in vain, each with the wait behind it. -/
def attempts (config : Config) (request : Request.Query) (count : Nat) : List Event :=
  (List.range count).flatMap fun k => [.call (.query request), .wait (config.retryDelay (k + 1))]

def trace (config : Config) (v : Visit) : List Event :=
  attempts config v.request v.retried.length ++ [.call (.query v.request)]

def replies (v : Visit) : List (Except StoreFault Response.Query) :=
  v.retried.map .error ++ [v.reply]

def items (v : Visit) : List Item :=
  match v.reply with
  | .ok page => page.items
  | .error _ => []

/-- Only a fault that may pass is retried, within the limit, and such a fault is the end of a
page only at the limit. -/
structure Budgeted (config : Config) (v : Visit) : Prop where
  passing : ∀ fault ∈ v.retried, fault.retryable
  within : v.retried.length ≤ config.maxRetries.toNat
  spent : ∀ fault, v.reply = .error fault → fault.retryable →
    v.retried.length = config.maxRetries.toNat

def Final (v : Visit) : Prop := ∃ page, v.reply = .ok page ∧ page.lastKey.isEmpty

/-- The next page of a query: its request differs from the one of this page in the start key, which
is the last key of this page. -/
def Leads (t : Table) (v next : Visit) : Prop :=
  ∃ page records, v.reply = .ok page ∧ List.Forall₂ t.Loads page.items records ∧
    ¬page.lastKey.isEmpty ∧ next.request = { v.request with startKey := page.lastKey }

/-- The page ends the query with an error: a fault of the store as it is, or the refusal of its
first item that cannot be read. -/
def Fails (t : Table) (v : Visit) (e : MapperError) : Prop :=
  (∃ fault, v.reply = .error fault ∧ e = .store fault) ∨
    ∃ page, v.reply = .ok page ∧ t.Refuses page.items e

variable {config : Config} {request : Request.Query}

theorem attempts_succ (count : Nat) : attempts config request (count + 1) =
    attempts config request count ++
      [.call (.query request), .wait (config.retryDelay (count + 1))] := by
  simp [attempts, List.range_succ]

theorem calls_attempts (count : Nat) :
    Event.calls (attempts config request count) = List.replicate count (.query request) := by
  induction count with
  | zero => rfl
  | succ count ih => simp [attempts_succ, ih, List.replicate_succ']

theorem calls_trace (v : Visit) : Event.calls (v.trace config) =
    List.replicate v.replies.length (.query v.request) := by
  simp [trace, replies, calls_attempts, List.replicate_succ']

end Visit

def conclude (t : Table) (request : Request.Query) (answers : List Answer) :
    Except StoreFault Response.Query → Run (List Record)
  | .error fault => .done (.error (.store fault)) answers
  | .ok page =>
    match t.loadAll page.items with
    | .error e => .done (.error e) answers
    | .ok records =>
      if page.lastKey.isEmpty then .done (.ok records) answers
      else (t.followPages { request with startKey := page.lastKey } 0 answers).map (records ++ ·)

section

variable {t : Table} {request : Request.Query} {attempt : Nat} {answers : List Answer}

theorem conclude_more {page : Response.Query} (loaded : t.loadAll page.items = .ok records)
    (more : ¬page.lastKey.isEmpty) : t.conclude request answers (.ok page) =
      (t.followPages { request with startKey := page.lastKey } 0 answers).map (records ++ ·) := by
  simp [conclude, loaded, more]

theorem followPages_again {fault : StoreFault}
    (reply : (Reply.next Response.Query.shape answers).result = .error fault)
    (passing : fault.retryable) (within : attempt < t.config.maxRetries.toNat) :
    t.followPages request attempt answers =
      (t.followPages request (attempt + 1) (answers.drop 1)).after
        [.call (.query request), .wait (t.config.retryDelay (attempt + 1))] := by
  cases answers with
  | nil => cases reply
  | cons answer rest =>
    have read : answer.read Response.Query.shape = .error fault := reply
    simp [followPages, read, passing, within]

theorem followPages_settled
    (settled : ∀ fault, (Reply.next Response.Query.shape answers).result = .error fault →
      fault.retryable → t.config.maxRetries.toNat ≤ attempt) :
    t.followPages request attempt answers =
      (t.conclude request (answers.drop 1) (Reply.next Response.Query.shape answers).result).after
        [.call (.query request)] := by
  cases answers with
  | nil => rfl
  | cons answer rest =>
    have next : Reply.next Response.Query.shape (answer :: rest) =
        ⟨answer.read Response.Query.shape, rest⟩ := rfl
    rw [next] at settled ⊢
    cases read : answer.read Response.Query.shape with
    | ok page =>
      simp only [followPages, read, conclude, List.drop_one, List.tail_cons]
      cases t.loadAll page.items with
      | error e => rfl
      | ok records =>
        cases page.lastKey.isEmpty <;> rfl
    | error fault =>
      have spent : (fault.retryable && decide (attempt < t.config.maxRetries.toNat)) = false := by
        simpa using settled fault read
      simp only [followPages, read, spent]
      rfl

/-- The retries of one page, by induction on those that are left. The faults so far are part of
the page, so they are given along. -/
theorem followPages_visit (t : Table) (request : Request.Query) (answers : List Answer)
    (retried : List StoreFault) (passing : ∀ fault ∈ retried, fault.retryable)
    (within : retried.length ≤ t.config.maxRetries.toNat) :
    ∃ (v : Visit) (heard : Nat), v.request = request ∧ v.Budgeted t.config ∧
      v.replies = retried.map .error ++ Reply.heard Response.Query.shape heard answers ∧
      (t.followPages request retried.length answers).after
          (Visit.attempts t.config request retried.length) =
        (t.conclude request (answers.drop heard) v.reply).after (v.trace t.config) := by
  induction left : t.config.maxRetries.toNat - retried.length using Nat.strongRecOn
    generalizing retried answers with
  | ind left ih =>
  by_cases again : ∃ fault, (Reply.next Response.Query.shape answers).result = .error fault ∧
      fault.retryable ∧ retried.length < t.config.maxRetries.toNat
  · obtain ⟨fault, reply, retryable, more⟩ := again
    obtain ⟨v, heard, ofRequest, budgeted, replies, run⟩ :=
      ih (t.config.maxRetries.toNat - (retried ++ [fault]).length) (by simp; omega)
        (answers.drop 1) (retried ++ [fault])
        (by simpa [or_imp, forall_and] using ⟨passing, retryable⟩) (by simp; omega) rfl
    refine ⟨v, heard + 1, ofRequest, budgeted, ?_, ?_⟩
    · rw [replies, Reply.heard, reply, Reply.next_answers]
      simp
    · rw [followPages_again reply retryable more, Run.after_after, ← Visit.attempts_succ]
      simpa [Nat.add_comm 1 heard] using run
  · have settled (fault : StoreFault)
        (reply : (Reply.next Response.Query.shape answers).result = .error fault)
        (retryable : fault.retryable) : t.config.maxRetries.toNat ≤ retried.length :=
      Nat.le_of_not_lt fun more => again ⟨fault, reply, retryable, more⟩
    refine ⟨⟨request, retried, (Reply.next Response.Query.shape answers).result⟩, 1, rfl,
      ⟨passing, within, fun fault reply retryable =>
        Nat.le_antisymm within (settled fault reply retryable)⟩, rfl, ?_⟩
    rw [followPages_settled settled, Run.after_after]
    rfl

end

/-- What a whole query does, page by page: all its calls and waits, what it hears, and how it
ends. -/
structure Followed (t : Table) (first : Request.Query) (answers : List Answer)
    (run : Run (List Record)) (pages : List Visit) (last : Visit) : Prop where
  trace : run.trace = pages.flatMap (Visit.trace t.config)
  heard : Reply.heard Response.Query.shape run.calls.length answers = pages.flatMap Visit.replies
  starts : pages.head?.map (·.request) = some first
  budgeted : ∀ v ∈ pages, v.Budgeted t.config
  leads : pages.IsChain (Visit.Leads t)
  ends : pages.getLast? = some last
  ok_iff : ∀ records, run.outcome = .ok records ↔
    last.Final ∧ List.Forall₂ t.Loads (pages.flatMap Visit.items) records
  error_iff : ∀ e, run.outcome = .error e ↔ last.Fails t e

namespace Followed

variable {t : Table} {v : Visit} {answers : List Answer} {count : Nat}
  {page : Response.Query} {records : List Record} {run : Run (List Record)}

theorem count_eq (replies : v.replies = Reply.heard Response.Query.shape count answers) :
    count = v.replies.length := by
  rw [replies, Reply.length_heard]

theorem single (budgeted : v.Budgeted t.config)
    (replies : v.replies = Reply.heard Response.Query.shape count answers)
    (ok_iff : ∀ records, outcome = .ok records ↔ v.Final ∧ List.Forall₂ t.Loads v.items records)
    (error_iff : ∀ e, outcome = .error e ↔ v.Fails t e) :
    Followed t v.request answers ((Run.done outcome rest).after (v.trace t.config)) [v] v where
  trace := by simp
  heard := by
    simpa [Visit.calls_trace, ← count_eq replies] using replies.symm
  starts := rfl
  budgeted := by simpa using budgeted
  leads := .singleton v
  ends := rfl
  ok_iff := by simpa using ok_iff
  error_iff := error_iff

theorem cons (budgeted : v.Budgeted t.config)
    (replies : v.replies = Reply.heard Response.Query.shape count answers)
    (reply : v.reply = .ok page) (loaded : t.loadAll page.items = .ok records)
    (more : ¬page.lastKey.isEmpty)
    (next : Followed t { v.request with startKey := page.lastKey } (answers.drop count) run pages
      last) :
    Followed t v.request answers ((run.map (records ++ ·)).after (v.trace t.config)) (v :: pages)
      last := by
  obtain ⟨w, others, rfl⟩ : ∃ w others, pages = w :: others := by
    cases pages with
    | nil => cases next.starts
    | cons w others => exact ⟨w, others, rfl⟩
  have ofNext : w.request = { v.request with startKey := page.lastKey } :=
    Option.some.inj next.starts
  refine ⟨?_, ?_, rfl, ?_, ?_, ?_, ?_, ?_⟩
  · simp [next.trace]
  · rw [Run.calls_after, List.length_append, Visit.calls_trace, List.length_replicate,
      Reply.heard_add, ← count_eq replies, ← replies, Run.calls_map, next.heard]
    rfl
  · exact List.forall_mem_cons.2 ⟨budgeted, next.budgeted⟩
  · exact .cons_cons ⟨page, records, reply, loadAll_ok.1 loaded, more, ofNext⟩ next.leads
  · rw [List.getLast?_cons_cons]
    exact next.ends
  · intro all
    have items : v.items = page.items := by rw [Visit.items, reply]
    simp only [Run.outcome_after, Run.outcome_map, map_ok, next.ok_iff, List.flatMap_cons, items,
      ← loadAll_ok, loadAll_append, loaded, Except.ok.injEq]
    constructor
    · rintro ⟨rest, ⟨final, all⟩, rfl⟩
      exact ⟨final, records, rest, rfl, all, rfl⟩
    · rintro ⟨final, _, rest, rfl, all, rfl⟩
      exact ⟨rest, ⟨final, all⟩, rfl⟩
  · exact fun e => map_error.trans (next.error_iff e)

end Followed

/-- By induction on the number of calls: the pages behind the first take fewer of them. -/
theorem followPages_followed (t : Table) (request : Request.Query) (answers : List Answer) :
    ∃ pages last, Followed t request answers (t.followPages request 0 answers) pages last := by
  induction calls : (t.followPages request 0 answers).calls.length using Nat.strongRecOn
    generalizing request answers with
  | ind calls' ih =>
  obtain ⟨v, count, rfl, budgeted, replies, run⟩ :=
    followPages_visit t request answers [] (by simp) (Nat.zero_le _)
  replace run : t.followPages v.request 0 answers =
    (t.conclude v.request (answers.drop count) v.reply).after (v.trace t.config) := run
  rw [run] at calls ⊢
  cases reply : v.reply with
  | error fault =>
    refine ⟨[v], v, .single budgeted replies ?_ ?_⟩
    · simp [Visit.Final, reply]
    · simp [Visit.Fails, reply, eq_comm]
  | ok page =>
    have items : v.items = page.items := by rw [Visit.items, reply]
    cases loaded : t.loadAll page.items with
    | error e =>
      simp only [conclude, loaded]
      refine ⟨[v], v, .single budgeted replies ?_ ?_⟩
      · simp [items, ← loadAll_ok, loaded]
      · simp [Visit.Fails, reply, ← loadAll_error, loaded]
    | ok records =>
      by_cases final : page.lastKey.isEmpty
      · simp only [conclude, loaded, final, if_true]
        refine ⟨[v], v, .single budgeted replies ?_ ?_⟩
        · simp [Visit.Final, reply, final, items, ← loadAll_ok, loaded]
        · simp [Visit.Fails, reply, ← loadAll_error, loaded]
      · rw [reply, conclude_more loaded final] at calls
        rw [conclude_more loaded final]
        let next : Request.Query := { v.request with startKey := page.lastKey }
        have fewer : (t.followPages next 0 (answers.drop count)).calls.length < calls' := by
          rw [← calls, Run.calls_after, Run.calls_map, List.length_append, Visit.calls_trace,
            Visit.replies]
          simp [next]
        obtain ⟨pages, last, followed⟩ := ih _ fewer next (answers.drop count) rfl
        exact ⟨v :: pages, last, followed.cons budgeted replies reply loaded final⟩

/-- A query that can be made follows its pages, whatever the store answers. -/
theorem queryAll_followed (answers : List Answer) (made : t.queryRequest q = .ok first) :
    ∃ pages last, Followed t first answers (t.queryAll q answers) pages last := by
  rw [queryAll, made]
  exact followPages_followed t first answers

end WideColumn.Table

namespace WideColumn

namespace Orders

def ofAccount : Query := { key := .leaf "account" (.compare .eq (.string "a1")) }

def ofAccountRequest : Request.Query where
  table := "orders"
  keyCondition := some "#key_name0 = :key_value0"
  names := NameMap.ofList [("#key_name0", "pk")]
  values := NameMap.ofList [(":key_value0", .string "a1")]
  limit := some 1000

def page (item : Item) (lastKey : Key) : Answer :=
  .ok (Response.Query.shape.encode { items := [item], count := 1, scannedCount := 1, lastKey })

def twoPages : List Answer :=
  [busy, page itemWithoutKind itemWithoutKind, busy, busy, page laterItem {}]

end Orders

theorem Table.queryAll_followed_twoPages :
    Orders.table.queryRequest Orders.ofAccount = .ok Orders.ofAccountRequest ∧
      (Orders.table.queryAll Orders.ofAccount Orders.twoPages).waited = 200 ∧
      ∃ pages last, Table.Followed Orders.table Orders.ofAccountRequest Orders.twoPages
        (Orders.table.queryAll Orders.ofAccount Orders.twoPages) pages last ∧ last.Final := by
  have made : Orders.table.queryRequest Orders.ofAccount = .ok Orders.ofAccountRequest := rfl
  have loaded : ∃ records, (Orders.table.queryAll Orders.ofAccount Orders.twoPages).outcome =
      .ok records := ⟨_, rfl⟩
  obtain ⟨pages, last, followed⟩ := Table.queryAll_followed Orders.twoPages made
  obtain ⟨records, done⟩ := loaded
  exact ⟨made, rfl, pages, last, followed, ((followed.ok_iff records).1 done).1⟩

end WideColumn
