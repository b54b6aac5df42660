import WideColumn.Json.Form
import WideColumn.Numeral
import WideColumn.Text.Blank

/-! Limits, retry budget and default separator. Values from the environment replace the
defaults where they can be read; the size of a batch stays within what the store
accepts. -/
namespace WideColumn

def maxBatchKeys : UInt64 := 100

def defaultSeparator : String := "~"

structure Config where
  queryLimit : Int32 := 1000
  batchSize : UInt64 := maxBatchKeys
  maxRetries : UInt32 := 5
  /-- The delay before the first retry, in milliseconds. -/
  retryBaseDelay : UInt64 := 50
  separator : String := defaultSeparator
  deriving DecidableEq, Repr

namespace Config

def shape : Shape Config where
  blank := {}
  fields := [
    .always "defaultQueryLimit" (·.queryLimit) (fun v x => { x with queryLimit := v }),
    .always "batchGetChunkSize" (·.batchSize) (fun v x => { x with batchSize := v }),
    .always "maxRetries" (·.maxRetries) (fun v x => { x with maxRetries := v }),
    .always "retryBaseDelayMs" (·.retryBaseDelay) (fun v x => { x with retryBaseDelay := v }),
    .always "defaultSeparator" (·.separator) (fun v x => { x with separator := v })]

instance : JsonForm Config := ⟨shape.encode, shape.decode⟩

def unsigned? (bound : Nat) (text : List Char) : Option Nat :=
  let digits := match text with
    | '+' :: rest => rest
    | text => text
  (natural? digits).filter (· < bound)

def signed? (least greatest : Int) (text : List Char) : Option Int :=
  (integer? text).filter fun n => least ≤ n && n ≤ greatest

/-- The configuration that the environment of an application gives. Its variables start with the
application's name in capitals. -/
def ofEnvironment (application : String) (lookup : String → Option String) : Config :=
  let text? (name : String) := lookup (application ++ "_" ++ name)
  let number? {α : Type} (read : List Char → Option α) (name : String) : Option α :=
    (text? name).bind fun text => read (Text.trim text.toList)
  let base : Config := {}
  let limit := number? (signed? Int32.minValue.toInt Int32.maxValue.toInt) "QUERY_LIMIT"
  let batch := number? (unsigned? UInt64.size) "BATCH_GET_CHUNK_SIZE"
  let retries := number? (unsigned? UInt32.size) "MAX_RETRIES"
  let delay := number? (unsigned? UInt64.size) "RETRY_BASE_DELAY_MS"
  { queryLimit := (limit.map Int32.ofInt).getD base.queryLimit
    batchSize := max 1 (min maxBatchKeys ((batch.map UInt64.ofNat).getD base.batchSize))
    maxRetries := (retries.map UInt32.ofNat).getD base.maxRetries
    retryBaseDelay := (delay.map UInt64.ofNat).getD base.retryBaseDelay
    separator := (text? "JOIN_SEPARATOR").getD base.separator }

/-- The delay before retry number `attempt`, counted from 1, in milliseconds. It doubles ten
times at most and stays within 64 bits. -/
def retryDelay (config : Config) (attempt : Nat) : Nat :=
  min (config.retryBaseDelay.toNat * Nat.pow 2 (min (attempt - 1) 10)) (UInt64.size - 1)

end Config

end WideColumn
