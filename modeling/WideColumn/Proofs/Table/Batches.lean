import Mathlib.Data.List.Perm.Subperm
import WideColumn.Proofs.Run
import WideColumn.Proofs.Table.Loading
import WideColumn.Table.Batch

/-! Reading many keys from a store that holds at most one item for each, all of them readable.
The store may be too busy for a request, and otherwise it processes some of the keys and leaves
the others open. Every key of a chunk is processed once or still open at its end: the keys asked
for in a round are those that the round before left open. -/
namespace WideColumn

def Call.keysOf (table : String) : Call → List Key
  | .batchGet request => ((request.tables.get? table).map (·.keys)).getD []
  | _ => []

namespace Table

open Outcome

/-- One request for keys: those asked for, those of them that were processed, and those left
open. -/
structure Exchange where
  asked : List Key
  processed : List Key
  left : List Key

def Exchange.call (t : Table) (x : Exchange) : Call := .batchGet (t.chunkRequest x.asked)

/-- What a store that holds these items may reply. -/
inductive Answered (t : Table) (stored : Key → Option Item) :
    Exchange → Except StoreFault Response.BatchGet → Prop
  | busy (passing : fault.retryable) : Answered t stored ⟨asked, [], asked⟩ (.error fault)
  | read (split : asked.Perm (processed ++ left))
      (found : ((response.found.get? t.schema.table).getD []).Perm (processed.filterMap stored))
      (unprocessed : ((response.unprocessed.get? t.schema.table).map (·.keys)).getD [] = left) :
      Answered t stored ⟨asked, processed, left⟩ (.ok response)

/-- The store may reply so to a call, whatever keys the call asks for. -/
def Serves (t : Table) (stored : Key → Option Item) (call : Call)
    (reply : Except StoreFault Response.BatchGet) : Prop :=
  ∃ processed left, t.Answered stored ⟨call.keysOf t.schema.table, processed, left⟩ reply

/-- The records of the items behind some keys, in any order. -/
def Holds (t : Table) (stored : Key → Option Item) (keys : List Key) (records : List Record) :
    Prop :=
  ∃ items : List Item, items.Perm (keys.filterMap stored) ∧ List.Forall₂ t.Loads items records

/-- The rounds of one chunk. Each asks for keys of the chunk, and a key is either processed in one
round or left open at the end, which takes all retries. -/
structure Rounds (retries : Nat) (chunk : List Key) (rounds : List Exchange) (left : List Key) :
    Prop where
  within : rounds.length ≤ retries + 1
  spent : left ≠ [] → rounds.length = retries + 1
  asked : ∀ x ∈ rounds, x.asked ≠ [] ∧ x.asked.Subperm chunk
  split : chunk.Perm (rounds.flatMap (·.processed) ++ left)

/-- How a chunk ends: with the records of all of its keys, or with keys that are left open. -/
inductive Ending (t : Table) (stored : Key → Option Item) (chunk : List Key) :
    List Key → Except MapperError (List Record) → Prop
  | read (holds : t.Holds stored chunk found) : Ending t stored chunk [] (.ok found)
  | gaveUp (remaining : left ≠ []) : Ending t stored chunk left
      (.error (.retriesExhausted (t.config.maxRetries + 1) left.length))

section

variable {t : Table} {stored : Key → Option Item} {answers : List Answer}

theorem Holds.append (first : t.Holds stored keys records) (later : t.Holds stored more others) :
    t.Holds stored (keys ++ more) (records ++ others) := by
  obtain ⟨items, perm, loaded⟩ := first
  obtain ⟨further, permFurther, loadedFurther⟩ := later
  refine ⟨items ++ further, ?_, List.rel_append loaded loadedFurther⟩
  rw [List.filterMap_append]
  exact perm.append permFurther

theorem Holds.perm (holds : t.Holds stored keys records) (same : keys.Perm more) :
    t.Holds stored more records := by
  obtain ⟨items, perm, loaded⟩ := holds
  exact ⟨items, perm.trans (same.filterMap stored), loaded⟩

structure ChunkRead (t : Table) (stored : Key → Option Item) (retries : Nat) (chunk : List Key)
    (answers : List Answer) (run : Run (List Record)) (rounds : List Exchange) (left : List Key) :
    Prop where
  calls : run.calls = rounds.map (Exchange.call t)
  rest : run.answers = answers.drop rounds.length
  answered : Reply.Each Response.BatchGet.shape (t.Answered stored) rounds answers
  rounds : Rounds retries chunk rounds left
  ending : t.Ending stored chunk left run.outcome

namespace ChunkRead

variable {x : Exchange} {retries : Nat} {rounds : List Exchange}

theorem single (answered : t.Answered stored x (Reply.next Response.BatchGet.shape answers).result)
    (asked : x.asked ≠ []) (split : x.asked.Perm (x.processed ++ x.left))
    (last : x.left ≠ [] → retries = 0) (ending : t.Ending stored x.asked x.left outcome) :
    ChunkRead t stored retries x.asked answers
      ((Run.done outcome (answers.drop 1)).after [.call (x.call t)]) [x] x.left where
  calls := rfl
  rest := rfl
  answered := Reply.each_cons.2 ⟨answered, Reply.each_nil⟩
  rounds :=
    { within := by simp
      spent := fun more => by simp [last more]
      asked := List.forall_mem_singleton.2 ⟨asked, List.Subperm.refl _⟩
      split := by simpa using split }
  ending := ending

/-- A round in front of the others, which ask for the keys that it left open. -/
theorem cons (answered : t.Answered stored x (Reply.next Response.BatchGet.shape answers).result)
    (asked : x.asked ≠ []) (split : x.asked.Perm (x.processed ++ x.left))
    (holds : t.Holds stored x.processed found)
    (later : ChunkRead t stored retries x.left (answers.drop 1) run rounds left) :
    ChunkRead t stored (retries + 1) x.asked answers
      ((run.map (found ++ ·)).after [.call (x.call t), .wait delay]) (x :: rounds) left where
  calls := by simp [later.calls]
  rest := by
    show run.answers = answers.drop (rounds.length + 1)
    rw [later.rest, List.drop_drop, Nat.add_comm]
  answered := Reply.each_cons.2 ⟨answered, later.answered⟩
  rounds :=
    { within := Nat.succ_le_succ later.rounds.within
      spent := fun more => congrArg (· + 1) (later.rounds.spent more)
      asked := by
        have part : x.left.Subperm x.asked :=
          (List.sublist_append_right _ _).subperm.trans split.symm.subperm
        refine List.forall_mem_cons.2 ⟨⟨asked, List.Subperm.refl _⟩, fun y member => ?_⟩
        obtain ⟨some, fromLeft⟩ := later.rounds.asked y member
        exact ⟨some, fromLeft.trans part⟩
      split := by
        rw [List.flatMap_cons, List.append_assoc]
        exact split.trans (later.rounds.split.append_left _) }
  ending := by
    have ending := later.ending
    show t.Ending stored x.asked left (run.outcome.map (found ++ ·))
    generalize run.outcome = outcome at ending
    cases ending with
    | read rest => exact .read ((holds.append rest).perm split.symm)
    | gaveUp remaining => exact .gaveUp remaining

end ChunkRead

/-- How chunks are read one after the other. The first one that ends with keys left open is the
last one that is asked for. -/
inductive Reading (t : Table) (stored : Key → Option Item) :
    List (List Key) → List (List Exchange) → Except MapperError (List Record) → Prop
  | done : Reading t stored [] [] (.ok [])
  | next (rounds : Rounds t.config.maxRetries.toNat chunk log [])
      (holds : t.Holds stored chunk found) (later : Reading t stored chunks logs outcome) :
      Reading t stored (chunk :: chunks) (log :: logs) (outcome.map (found ++ ·))
  | gaveUp (rounds : Rounds t.config.maxRetries.toNat chunk log left) (remaining : left ≠ []) :
      Reading t stored (chunk :: chunks) [log]
        (.error (.retriesExhausted (t.config.maxRetries + 1) left.length))

namespace Reading

variable {chunks : List (List Key)} {logs : List (List Exchange)}

theorem asked (reading : Reading t stored chunks logs outcome) :
    ∀ x ∈ logs.flatten, x.asked ≠ [] ∧ ∃ chunk ∈ chunks, x.asked.Subperm chunk := by
  induction reading with
  | done => simp
  | next rounds _ _ ih =>
    intro x member
    rcases List.mem_append.1 member with inFirst | inLater
    · obtain ⟨some, part⟩ := rounds.asked x inFirst
      exact ⟨some, _, List.mem_cons_self, part⟩
    · obtain ⟨some, chunk, later, part⟩ := ih x inLater
      exact ⟨some, chunk, List.mem_cons_of_mem _ later, part⟩
  | gaveUp rounds _ =>
    intro x member
    rw [List.flatten_singleton] at member
    obtain ⟨some, part⟩ := rounds.asked x member
    exact ⟨some, _, List.mem_cons_self, part⟩

theorem ok (reading : Reading t stored chunks logs (.ok records)) :
    List.Forall₂ (Rounds t.config.maxRetries.toNat · · []) chunks logs ∧
      ∃ parts : List (List Record), parts.flatten = records ∧
        List.Forall₂ (t.Holds stored) chunks parts := by
  generalize ended : Except.ok records = outcome at reading
  induction reading generalizing records with
  | done =>
    cases ended
    exact ⟨.nil, [], rfl, .nil⟩
  | next rounds holds _ ih =>
    obtain ⟨others, later, rfl⟩ := map_ok.1 ended.symm
    obtain ⟨all, parts, rfl, held⟩ := ih later.symm
    exact ⟨.cons rounds all, _ :: parts, rfl, .cons holds held⟩
  | gaveUp => cases ended

theorem error (reading : Reading t stored chunks logs (.error e)) :
    ∃ (before : List (List Key)) (chunk : List Key) (after : List (List Key))
      (closed : List (List Exchange)) (log : List Exchange) (left : List Key),
      chunks = before ++ chunk :: after ∧ logs = closed ++ [log] ∧
      List.Forall₂ (Rounds t.config.maxRetries.toNat · · []) before closed ∧
      Rounds t.config.maxRetries.toNat chunk log left ∧ left ≠ [] ∧
      e = .retriesExhausted (t.config.maxRetries + 1) left.length ∧
      (t.config.maxRetries + 1).toNat = log.length % UInt32.size := by
  generalize ended : Except.error e = outcome at reading
  induction reading with
  | done => cases ended
  | next rounds _ _ ih =>
    obtain ⟨before, chunk, after, closed, log, left, rfl, rfl, all, last, remaining, rfl, counted⟩ :=
      ih (map_error.1 ended.symm).symm
    exact ⟨_ :: before, chunk, after, _ :: closed, log, left, rfl, rfl, .cons rounds all, last,
      remaining, rfl, counted⟩
  | gaveUp rounds remaining =>
    cases ended
    refine ⟨[], _, _, [], _, _, rfl, rfl, .nil, rounds, remaining, rfl, ?_⟩
    rw [rounds.spent remaining, UInt32.toNat_add]
    rfl

end Reading

/-- Lists of `size` keys each; only the last one may be shorter. -/
structure Cut (size : Nat) (keys : List Key) (chunks : List (List Key)) : Prop where
  keys_eq : chunks.flatten = keys
  bounded : ∀ chunk ∈ chunks, chunk ≠ [] ∧ chunk.length ≤ size
  full : ∀ chunk ∈ chunks.dropLast, chunk.length = size

theorem Cut.cons (later : Cut size keys chunks) (some : first ≠ []) (bound : first.length ≤ size)
    (full : keys ≠ [] → first.length = size) : Cut size (first ++ keys) (first :: chunks) where
  keys_eq := by rw [List.flatten_cons, later.keys_eq]
  bounded := List.forall_mem_cons.2 ⟨⟨some, bound⟩, later.bounded⟩
  full := by
    cases chunks with
    | nil => simp
    | cons second others =>
      refine List.forall_mem_cons.2 ⟨full ?_, later.full⟩
      rw [← later.keys_eq]
      exact List.append_ne_nil_of_left_ne_nil (later.bounded second List.mem_cons_self).1 _

end

end Table

namespace Orders

def stored (key : Key) : Option Item :=
  match key.get? "at" with
  | some (.number "7") => some itemWithoutKind
  | some (.number "8") => some laterItem
  | _ => none

def batch (found : List Item) (left : List Key) : Response.BatchGet where
  found := NameMap.empty.insert "orders" found
  unprocessed := NameMap.empty.insert "orders" { keys := left }

end Orders

end WideColumn
