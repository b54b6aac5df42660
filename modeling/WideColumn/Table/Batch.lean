import WideColumn.Table

/-! Reading many keys. Keys are sent in chunks. What the store leaves unprocessed, or was
too busy for, is asked for again after a delay that doubles. The retries of each chunk are
limited, and when they are used up the keys still open are reported. -/
namespace WideColumn.Table

def chunkSize (t : Table) : Nat := max t.config.batchSize.toNat 1

def chunkRequest (t : Table) (keys : List Key) : Request.BatchGet :=
  ⟨NameMap.empty.insert t.schema.table { keys }⟩

structure Round where
  found : List Record
  pending : List Key

/-- A fault that may pass leaves all keys open. -/
def round (t : Table) (pending : List Key) :
    Except StoreFault Response.BatchGet → Except MapperError Round
  | .ok response => do
    let found ← t.loadAll ((response.found.get? t.schema.table).getD [])
    return ⟨found, ((response.unprocessed.get? t.schema.table).map (·.keys)).getD []⟩
  | .error fault => if fault.retryable then .ok ⟨[], pending⟩ else .error (.store fault)

/-- Asks for the open keys of one chunk. Attempts are counted in 32 bits: at the greatest limit of
retries the reported number is 0, and a build that checks for overflow stops instead. -/
def readChunk (t : Table) (retriesLeft : Nat) (pending : List Key) (answers : List Answer) :
    Run (List Record) :=
  let sent := [Event.call (.batchGet (t.chunkRequest pending))]
  let reply := Reply.next Response.BatchGet.shape answers
  match t.round pending reply.result with
  | .error e => ⟨.error e, sent, reply.answers⟩
  | .ok ⟨found, []⟩ => ⟨.ok found, sent, reply.answers⟩
  | .ok ⟨found, key :: more⟩ =>
    match retriesLeft with
    | 0 =>
      let attempts := t.config.maxRetries + 1
      ⟨.error (.retriesExhausted attempts (key :: more).length), sent, reply.answers⟩
    | left + 1 =>
      let delay := t.config.retryDelay (t.config.maxRetries.toNat - left)
      ((t.readChunk left (key :: more) reply.answers).after (sent ++ [.wait delay])).map (found ++ ·)

def readChunks (t : Table) : List (List Key) → List Answer → Run (List Record)
  | [], answers => .done (.ok []) answers
  | chunk :: rest, answers =>
    (t.readChunk t.config.maxRetries.toNat chunk answers).andThen fun found answers =>
      (t.readChunks rest answers).map (found ++ ·)

/-- Cuts keys into chunks of a size from 1 on; only the last one may be shorter. -/
def chunksOf (size : Nat) : List Key → List (List Key)
  | [] => []
  | key :: rest => (key :: rest.take (size - 1)) :: chunksOf size (rest.drop (size - 1))
termination_by keys => keys.length
decreasing_by
  simp only [List.length_drop, List.length_cons]
  omega

def batchGet (t : Table) (keys : List Key) (answers : List Answer) : Run (List Record) :=
  t.readChunks (chunksOf t.chunkSize keys) answers

end WideColumn.Table
