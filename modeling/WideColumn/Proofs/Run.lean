import Mathlib.Data.List.Forall2
import WideColumn.Run

/-! The calls of a run and what the store replies to them. Replies are taken from the answers one
after the other, so the replies to a run in two parts are those to the first part and, from the
answers that it left over, those to the second. -/
namespace WideColumn

namespace Reply

variable {response : Shape α}

/-- What a store that is going to give these answers replies to so many calls. -/
def heard (response : Shape α) : Nat → List Answer → List (Except StoreFault α)
  | 0, _ => []
  | n + 1, answers =>
    (next response answers).result :: heard response n (next response answers).answers

theorem next_answers (response : Shape α) (answers : List Answer) :
    (next response answers).answers = answers.drop 1 := by
  cases answers <;> rfl

theorem heard_add (m n : Nat) (answers : List Answer) :
    heard response (m + n) answers =
      heard response m answers ++ heard response n (answers.drop m) := by
  induction m generalizing answers with
  | zero => simp [heard]
  | succ m ih =>
    rw [Nat.succ_add]
    simp only [heard, ih, next_answers, List.drop_drop, List.cons_append, Nat.add_comm 1 m]

theorem length_heard (n : Nat) (answers : List Answer) :
    (heard response n answers).length = n := by
  induction n generalizing answers with
  | zero => rfl
  | succ n ih => simp [heard, ih]

/-- The replies to a list, one for each of its entries, are related to the entries by `p`. -/
def Each (response : Shape α) (p : γ → Except StoreFault α → Prop) (entries : List γ)
    (answers : List Answer) : Prop :=
  List.Forall₂ p entries (heard response entries.length answers)

variable {p : γ → Except StoreFault α → Prop} {answers : List Answer}

theorem each_nil : Each response p [] answers := .nil

theorem each_cons : Each response p (x :: entries) answers ↔
    p x (next response answers).result ∧ Each response p entries (answers.drop 1) := by
  simp only [Each, List.length_cons, heard, next_answers, List.forall₂_cons]

end Reply

/-- The calls among events. -/
def Event.calls (events : List Event) : List Call :=
  events.filterMap fun
    | .call c => some c
    | .wait _ => none

namespace Event

@[simp] theorem calls_nil : calls [] = [] := rfl

@[simp] theorem calls_call (c : Call) (events : List Event) :
    calls (.call c :: events) = c :: calls events := rfl

@[simp] theorem calls_wait (milliseconds : Nat) (events : List Event) :
    calls (.wait milliseconds :: events) = calls events := rfl

@[simp] theorem calls_append (first second : List Event) :
    calls (first ++ second) = calls first ++ calls second :=
  List.filterMap_append

end Event

namespace Run

variable {r : Run α}

theorem after_after (first second : List Event) (r : Run α) :
    (r.after second).after first = r.after (first ++ second) := by
  simp [after]

@[simp] theorem outcome_after (events : List Event) (r : Run α) :
    (r.after events).outcome = r.outcome := rfl

@[simp] theorem trace_after (events : List Event) (r : Run α) :
    (r.after events).trace = events ++ r.trace := rfl

@[simp] theorem outcome_map (f : α → β) (r : Run α) : (r.map f).outcome = r.outcome.map f := rfl

@[simp] theorem trace_map (f : α → β) (r : Run α) : (r.map f).trace = r.trace := rfl

@[simp] theorem outcome_done (outcome : Except MapperError α) (answers : List Answer) :
    (done outcome answers).outcome = outcome := rfl

@[simp] theorem trace_done (outcome : Except MapperError α) (answers : List Answer) :
    (done outcome answers).trace = [] := rfl

@[simp] theorem calls_done (outcome : Except MapperError α) (answers : List Answer) :
    (done outcome answers).calls = [] := rfl

@[simp] theorem calls_map (f : α → β) (r : Run α) : (r.map f).calls = r.calls := rfl

@[simp] theorem calls_after (events : List Event) (r : Run α) :
    (r.after events).calls = Event.calls events ++ r.calls :=
  Event.calls_append events r.trace

end Run

end WideColumn
