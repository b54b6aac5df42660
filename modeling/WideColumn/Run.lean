import WideColumn.Error
import WideColumn.Store.Call

/-! An operation on the store is a function from the answers that the store is going to
give to a run: the outcome, the calls and waits on the way in their order, and the answers
left over. -/
namespace WideColumn

inductive Event where
  | call (c : Call)
  | wait (milliseconds : Nat)

/-- In milliseconds. A call takes no time here. -/
def Event.duration : Event → Nat
  | .call _ => 0
  | .wait milliseconds => milliseconds

structure Run (α : Type) where
  outcome : Except MapperError α
  trace : List Event
  answers : List Answer

namespace Run

def done (outcome : Except MapperError α) (answers : List Answer) : Run α := ⟨outcome, [], answers⟩

def after (events : List Event) (r : Run α) : Run α := { r with trace := events ++ r.trace }

def check (r : Run α) (f : α → Except MapperError β) : Run β :=
  ⟨r.outcome.bind f, r.trace, r.answers⟩

def map (f : α → β) (r : Run α) : Run β := ⟨r.outcome.map f, r.trace, r.answers⟩

/-- Goes on with the answers left over unless the run failed. -/
def andThen (r : Run α) (next : α → List Answer → Run β) : Run β :=
  match r.outcome with
  | .ok x => (next x r.answers).after r.trace
  | .error e => ⟨.error e, r.trace, r.answers⟩

/-- Sends a request once, if it could be made, and passes a fault of the store on. -/
def send (call : ρ → Call) (response : Shape α) (request : Except MapperError ρ)
    (answers : List Answer) : Run α :=
  match request with
  | .error e => .done (.error e) answers
  | .ok request =>
    let reply := Reply.next response answers
    ⟨reply.result.mapError .store, [.call (call request)], reply.answers⟩

def calls (r : Run α) : List Call :=
  r.trace.filterMap fun
    | .call c => some c
    | .wait _ => none

def waited (r : Run α) : Nat := r.trace.foldr (fun e total => e.duration + total) 0

end Run

end WideColumn
