import Mathlib.Data.List.Forall2
import WideColumn.Proofs.Record.Reload
import WideColumn.Table

/-! Items of the store become records one by one, in their order, and the first one that cannot
be read ends it. -/
namespace WideColumn.Table

open Outcome

variable {t : Table}

/-- The record that an item is read as. -/
def Loads (t : Table) (item : Item) (r : Record) : Prop := Record.load t.schema item = .ok r

theorem loadAll_ok : t.loadAll items = .ok records ↔ List.Forall₂ t.Loads items records := by
  induction items generalizing records with
  | nil =>
    rw [List.forall₂_nil_left_iff, loadAll, Except.ok.injEq, eq_comm]
  | cons item rest ih =>
    simp only [loadAll, bind_ok, pure_ok, ih, List.forall₂_cons_left_iff, Loads]
    constructor
    · rintro ⟨r, loads, others, all, rfl⟩
      exact ⟨r, others, loads, all, rfl⟩
    · rintro ⟨r, others, loads, all, rfl⟩
      exact ⟨r, loads, others, all, rfl⟩

theorem loadAll_append : t.loadAll (items ++ more) = .ok records ↔
    ∃ first later, t.loadAll items = .ok first ∧ t.loadAll more = .ok later ∧
      first ++ later = records := by
  induction items generalizing records with
  | nil => simp [loadAll]
  | cons item rest ih =>
    simp only [List.cons_append, loadAll, bind_ok, pure_ok, ih]
    constructor
    · rintro ⟨r, loads, _, ⟨first, later, hfirst, hlater, rfl⟩, rfl⟩
      exact ⟨r :: first, later, ⟨r, loads, first, hfirst, rfl⟩, hlater, rfl⟩
    · rintro ⟨_, later, ⟨r, loads, first, hfirst, rfl⟩, hlater, rfl⟩
      exact ⟨r, loads, first ++ later, ⟨first, later, hfirst, hlater, rfl⟩, rfl⟩

/-- The items cannot all be read, and the first one that cannot is refused with `e`. -/
def Refuses (t : Table) (items : List Item) (e : MapperError) : Prop :=
  ∃ before item after records, items = before ++ item :: after ∧
    List.Forall₂ t.Loads before records ∧ Record.load t.schema item = .error e

theorem refuses_cons : t.Refuses (item :: rest) e ↔
    Record.load t.schema item = .error e ∨ ∃ r, t.Loads item r ∧ t.Refuses rest e := by
  constructor
  · rintro ⟨before, bad, after, records, split, loaded, refused⟩
    cases loaded with
    | nil =>
      obtain ⟨rfl, rfl⟩ := List.cons.inj split
      exact .inl refused
    | cons loads others =>
      obtain ⟨rfl, rfl⟩ := List.cons.inj split
      exact .inr ⟨_, loads, _, bad, after, _, rfl, others, refused⟩
  · rintro (refused | ⟨r, loads, before, bad, after, records, rfl, loaded, refused⟩)
    · exact ⟨[], item, rest, [], rfl, .nil, refused⟩
    · exact ⟨item :: before, bad, after, r :: records, rfl, .cons loads loaded, refused⟩

theorem loadAll_error : t.loadAll items = .error e ↔ t.Refuses items e := by
  induction items with
  | nil => simp [loadAll, Refuses]
  | cons item rest ih => simp [loadAll, bind_error, pure, Except.pure, ih, refuses_cons, Loads]

end WideColumn.Table

namespace WideColumn.Orders

/-- A table to try statements on. -/
def table : Table where
  schema := schema
  config := { batchSize := 2, maxRetries := 2 }

def busy : Answer := .error (.ofCode .throttling)

def laterItem : Item :=
  NameMap.ofList [("at", .number "8"), ("kindAtKey", .string "~8"), ("pk", .string "a1")]

end WideColumn.Orders
