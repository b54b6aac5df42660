/-! Faults of the store. Each has one of nine codes, and some codes say that the same
request may succeed later. -/
namespace WideColumn

inductive StoreCode where
  | resourceNotFound
  | conditionalCheckFailed
  | throughputExceeded
  | requestLimitExceeded
  | throttling
  | transactionCanceled
  | validation
  | internalServer
  | transport
  deriving DecidableEq, Repr

namespace StoreCode

def name : StoreCode → String
  | .resourceNotFound => "ResourceNotFoundException"
  | .conditionalCheckFailed => "ConditionalCheckFailedException"
  | .throughputExceeded => "ProvisionedThroughputExceededException"
  | .requestLimitExceeded => "RequestLimitExceeded"
  | .throttling => "ThrottlingException"
  | .transactionCanceled => "TransactionCanceledException"
  | .validation => "ValidationException"
  | .internalServer => "InternalServerError"
  | .transport => "TransportError"

/-- The codes that a store reports itself. A failure on the way to it is noticed here. -/
def reported : List StoreCode := [.resourceNotFound, .conditionalCheckFailed, .throughputExceeded,
  .requestLimitExceeded, .throttling, .transactionCanceled, .validation, .internalServer]

def shortName (text : List Char) : List Char := (text.reverse.takeWhile (· != '#')).reverse

/-- Reads a code by its name, which may come after a name space and `#`. -/
def parse? (text : String) : Option StoreCode :=
  let short := String.ofList (shortName text.toList)
  reported.find? fun code => code.name == short

def retryable : StoreCode → Bool
  | .throughputExceeded | .requestLimitExceeded | .throttling | .internalServer => true
  | _ => false

end StoreCode

structure StoreFault where
  code : StoreCode
  message : String
  /-- The text of the failure behind this one. -/
  cause : Option String := none
  deriving DecidableEq, Repr

namespace StoreFault

def ofCode (code : StoreCode) : StoreFault := ⟨code, code.name, none⟩

def retryable (f : StoreFault) : Bool := f.code.retryable

def display (f : StoreFault) : String := "StoreError(" ++ f.code.name ++ "): " ++ f.message

def causedBy (f : StoreFault) (cause : StoreFault) : StoreFault :=
  { f with cause := some cause.display }

def undecodable : StoreFault := ⟨.transport, "undecodable response", none⟩

end StoreFault

end WideColumn
