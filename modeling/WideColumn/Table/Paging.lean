import WideColumn.Table

/-! A whole query follows the pages of the store to the last one. A page that the store
was too busy for is asked for again, after a delay that doubles; the count of retries
starts afresh on every page. -/
namespace WideColumn.Table

/-- Sends the request of a page, after `attempt` retries, and goes on to the pages behind it. -/
def followPages (t : Table) (request : Request.Query) (attempt : Nat) :
    List Answer → Run (List Record)
  | [] => ⟨.ok [], [.call (.query request)], []⟩
  | answer :: rest =>
    let sent := [Event.call (.query request)]
    match answer.read Response.Query.shape with
    | .ok response =>
      match t.loadAll response.items with
      | .error e => ⟨.error e, sent, rest⟩
      | .ok records =>
        if response.lastKey.isEmpty then ⟨.ok records, sent, rest⟩
        else
          ((t.followPages { request with startKey := response.lastKey } 0 rest).after sent).map
            (records ++ ·)
    | .error fault =>
      if fault.retryable && attempt < t.config.maxRetries.toNat then
        (t.followPages request (attempt + 1) rest).after
          (sent ++ [.wait (t.config.retryDelay (attempt + 1))])
      else ⟨.error (.store fault), sent, rest⟩

def queryAll (t : Table) (q : Query) (answers : List Answer) : Run (List Record) :=
  match t.queryRequest q with
  | .error e => .done (.error e) answers
  | .ok request => t.followPages request 0 answers

end WideColumn.Table
