import WideColumn.Expression
import WideColumn.Proofs.Condition.Names
import WideColumn.Proofs.Condition.Reader
import WideColumn.Proofs.Expression.Placeholder
import WideColumn.Proofs.Schema.Valid

/-! An expression says the condition that it was compiled from. Its text is read as the
condition over placeholders, and resolving these through its tables gives back every name,
as it is stored, and every operand, as it is stored, each in its place. -/
namespace WideColumn

open Outcome Placeholder

theorem Value.serializeList_eq_mapM (xs : List Value) : serializeList xs = xs.mapM serialize := by
  induction xs with
  | nil => rfl
  | cons x xs ih => simp only [serializeList, ih, List.mapM_cons]

theorem Value.serializeList_append {xs ys : List Value} {stored : List WireValue} :
    serializeList (xs ++ ys) = .ok stored ↔ ∃ first second, serializeList xs = .ok first ∧
      serializeList ys = .ok second ∧ stored = first ++ second := by
  simp only [serializeList_eq_mapM, List.mapM_append, bind_ok, pure_ok]
  constructor
  · rintro ⟨first, hfirst, second, hsecond, rfl⟩
    exact ⟨first, second, hfirst, hsecond, rfl⟩
  · rintro ⟨first, second, hfirst, hsecond, rfl⟩
    exact ⟨first, hfirst, second, hsecond, rfl⟩

theorem Value.length_serializeList {xs : List Value} {stored : List WireValue}
    (done : serializeList xs = .ok stored) : stored.length = xs.length := by
  induction xs generalizing stored with
  | nil => cases done; rfl
  | cons x xs ih =>
    simp only [serializeList, bind_ok, pure_ok] at done
    obtain ⟨w, -, rest, hrest, rfl⟩ := done
    simp [ih hrest]

theorem Test.traverse_map [Monad m] [LawfulMonad m] (f : β → m γ) (g : α → β) (test : Test α) :
    (test.map g).traverse f = test.traverse fun x => f (g x) := by
  cases test <;> simp [map, traverse, List.mapM_map, Function.comp_def]

theorem Condition.traverse_map [Monad m] [LawfulMonad m] (renameAgain : String → m String)
    (f : β → m γ) (rename : String → String) (g : α → β) (c : Condition α) :
    (c.map rename g).traverse renameAgain f =
      c.traverse (fun name => renameAgain (rename name)) fun x => f (g x) := by
  induction c with
  | leaf name test => simp [map, traverse, Test.traverse_map]
  | and left right ihl ihr => simp [map, traverse, ihl, ihr]
  | or left right ihl ihr => simp [map, traverse, ihl, ihr]
  | not inner ih => simp [map, traverse, ih]

/-- Looking the numbers of a test up gives what its operands are stored as. -/
theorem Test.traverse_number (test : Test Value) {stored : List WireValue}
    (done : Value.serializeList test.operands = .ok stored) (serves : Serves lookup next stored) :
    ∃ storedTest, test.traverse Value.serialize = .ok storedTest ∧
      (test.number next).traverse lookup = some storedTest := by
  have single (x : Value) (only : Value.serializeList [x] = .ok stored) :
      ∃ w, x.serialize = .ok w ∧ lookup next = some w := by
    simp only [Value.serializeList, bind_ok, pure_ok] at only
    obtain ⟨w, hw, _, nothing, rfl⟩ := only
    exact ⟨w, hw, serves 0 (Nat.zero_lt_succ _)⟩
  cases test with
  | compare op x =>
    obtain ⟨w, hw, found⟩ := single x done
    exact ⟨.compare op w, by simp [traverse, hw], by simp [number, traverse, found]⟩
  | between low high =>
    simp only [operands, Value.serializeList, bind_ok, pure_ok] at done
    obtain ⟨first, hfirst, _, ⟨second, hsecond, _, nothing, rfl⟩, rfl⟩ := done
    cases nothing
    have foundFirst : lookup next = some first := serves 0 (by simp)
    have foundSecond : lookup (next + 1) = some second := serves 1 (by simp)
    exact ⟨.between first second, by simp [traverse, hfirst, hsecond],
      by simp [number, traverse, foundFirst, foundSecond]⟩
  | beginsWith x =>
    obtain ⟨w, hw, found⟩ := single x done
    exact ⟨.beginsWith w, by simp [traverse, hw], by simp [number, traverse, found]⟩
  | contains x =>
    obtain ⟨w, hw, found⟩ := single x done
    exact ⟨.contains w, by simp [traverse, hw], by simp [number, traverse, found]⟩
  | isIn xs =>
    have length : stored.length = xs.length := Value.length_serializeList done
    have found := mapM_range' serves
    rw [length] at found
    rw [operands, Value.serializeList_eq_mapM] at done
    exact ⟨.isIn stored, by simp [traverse, done], by simp [number, traverse, found]⟩
  | present => exact ⟨.present, rfl, rfl⟩
  | absent => exact ⟨.absent, rfl, rfl⟩

/-- The operands of the left condition come first. -/
theorem serves_operands {left right : Condition Value} {stored : List WireValue}
    (done : Value.serializeList (left.operands ++ right.operands) = .ok stored)
    (serves : Serves lookup next stored) :
    ∃ first second, Value.serializeList left.operands = .ok first ∧
      Value.serializeList right.operands = .ok second ∧ Serves lookup next first ∧
      Serves lookup (next + left.operands.length) second := by
  obtain ⟨first, second, hfirst, hsecond, rfl⟩ := Value.serializeList_append.1 done
  obtain ⟨here, there⟩ := serves_append serves
  rw [Value.length_serializeList hfirst] at there
  exact ⟨first, second, hfirst, hsecond, here, there⟩

/-- The names are looked up apart from the numbers. -/
theorem Condition.traverse_number (c : Condition Value) {find : String → Option String}
    {rename : String → String}
    (named : ∀ name ∈ c.leafNames, find name = some (rename name)) {stored : List WireValue}
    (done : Value.serializeList c.operands = .ok stored) (serves : Serves lookup next stored) :
    ∃ storedCondition, c.traverse (fun name => .ok (rename name)) Value.serialize =
        .ok storedCondition ∧ (c.number next).traverse find lookup = some storedCondition := by
  induction c generalizing next stored with
  | leaf name test =>
    obtain ⟨storedTest, htest, found⟩ := test.traverse_number done serves
    have here := named name List.mem_cons_self
    exact ⟨.leaf (rename name) storedTest, by simp [traverse, htest], by
      simp [number, traverse, here, found]⟩
  | and left right ihl ihr =>
    obtain ⟨first, second, hfirst, hsecond, here, there⟩ := serves_operands done serves
    obtain ⟨l, hl, foundl⟩ := ihl (fun n h => named n (List.mem_append_left _ h)) hfirst here
    obtain ⟨r, hr, foundr⟩ := ihr (fun n h => named n (List.mem_append_right _ h)) hsecond there
    exact ⟨.and l r, by simp [traverse, hl, hr], by simp [number, traverse, foundl, foundr]⟩
  | or left right ihl ihr =>
    obtain ⟨first, second, hfirst, hsecond, here, there⟩ := serves_operands done serves
    obtain ⟨l, hl, foundl⟩ := ihl (fun n h => named n (List.mem_append_left _ h)) hfirst here
    obtain ⟨r, hr, foundr⟩ := ihr (fun n h => named n (List.mem_append_right _ h)) hsecond there
    exact ⟨.or l r, by simp [traverse, hl, hr], by simp [number, traverse, foundl, foundr]⟩
  | not inner ih =>
    obtain ⟨storedInner, hinner, found⟩ := ih named done serves
    exact ⟨.not storedInner, by simp [traverse, hinner], by simp [number, traverse, found]⟩

/-- Where the attributes of a condition are stored: those of a key condition in the key of the
index that serves it, the others under their own name or in the key stored in their place. -/
def Schema.Renames (s : Schema) (c : Condition Value) (kind : ExpressionKind)
    (explicit : Option String) (rename : String → String) : Prop :=
  match kind with
  | .keyCondition => ∃ key b, c.keyNames = .ok key ∧ s.resolve key.toList explicit = .ok b ∧
      rename key.partition = b.index.partition ∧
      (∀ sort, key.sort = some sort → b.index.sort = some (rename sort)) ∧
      ∀ name ∈ c.names, name = key.partition ∨ key.sort = some name
  | .filter | .writeCondition => rename = s.storedName

namespace Expression

variable {s : Schema} {c : Condition Value} {kind : ExpressionKind} {explicit : Option String}
  {e : Expression}

/-- Reads the text and resolves its placeholders through the tables. -/
def read (e : Expression) : Option (Condition WireValue) := do
  let symbolic ← Condition.read e.text
  symbolic.traverse e.names.get? e.values.get?

theorem get?_names (stem : String) (rename : String → String) {names : List String}
    (member : name ∈ names) :
    (Placeholder.table stem (names.map rename)).get? (Placeholder.numbered stem (names.idxOf name)) =
      some (rename name) := by
  have bound := List.idxOf_lt_length_of_mem member
  rw [Placeholder.get?_table, List.getElem?_map, List.getElem?_eq_getElem bound,
    List.getElem_idxOf bound, Option.map_some]

theorem read_ofCondition (done : ofCondition kind addressing c = .ok e) :
    ∃ stored, c.traverse (fun name => .ok (addressing.rename name)) Value.serialize = .ok stored ∧
      e.read = some stored := by
  simp only [ofCondition, bind_ok, pure_ok] at done
  obtain ⟨operands, hoperands, rfl⟩ := done
  obtain ⟨stored, hstored, found⟩ := c.traverse_number
    (fun name member => get?_names kind.nameStem addressing.rename (Condition.mem_names.2 member))
    hoperands (serves_table kind.valueStem operands)
  have text : Condition.read (c.symbolic kind).text = some (c.symbolic kind) :=
    Condition.read_text (fun _ => Placeholder.isName_numbered (Placeholder.isName_stem kind) _)
      (fun _ => Placeholder.isOperand_numbered (Placeholder.isOperand_stem kind) _) (c.number 0)
  refine ⟨stored, hstored, ?_⟩
  simp only [read, text, Option.bind_eq_bind, Option.bind_some]
  rw [Condition.symbolic, Condition.traverse_map, found]

theorem address_ok (covers : c.Addresses key)
    (done : s.address key explicit = .ok addressing) :
    ∃ b, s.resolve key.toList explicit = .ok b ∧
      addressing.rename key.partition = b.index.partition ∧
      ∀ sort, key.sort = some sort → b.index.sort = some (addressing.rename sort) := by
  simp only [Schema.address, bind_ok] at done
  obtain ⟨b, resolved, done⟩ := done
  refine ⟨b, resolved, ?_⟩
  split at done
  · next noSort =>
    obtain rfl := pure_ok.1 done
    exact ⟨rfl, fun sort named => by rw [noSort] at named; cases named⟩
  · next name sortKey hname hsort =>
    obtain rfl := pure_ok.1 done
    refine ⟨if_pos rfl, fun sort named => ?_⟩
    have ne := (covers.sort sort named).2
    simp [hsort, ne]
  · simp [throw_ok] at done

/-- A compiled expression says its condition: over the stored names, and over the stored operands. -/
theorem read_compile (compiled : compile s c kind explicit = .ok e) :
    ∃ rename stored, s.Renames c kind explicit rename ∧
      c.traverse (fun name => .ok (rename name)) Value.serialize = .ok stored ∧
      e.read = some stored := by
  cases kind with
  | keyCondition =>
    simp only [compile, bind_ok, mapError_ok] at compiled
    obtain ⟨key, hkey, addressing, haddressing, done⟩ := compiled
    have covers := Condition.keyNames_ok hkey
    obtain ⟨b, resolved, atPartition, atSort⟩ := address_ok covers haddressing
    obtain ⟨stored, hstored, reads⟩ := read_ofCondition done
    exact ⟨addressing.rename, stored,
      ⟨key, b, hkey, resolved, atPartition, atSort, covers.only⟩, hstored, reads⟩
  | filter =>
    obtain ⟨stored, hstored, reads⟩ := read_ofCondition compiled
    exact ⟨s.storedName, stored, rfl, hstored, reads⟩
  | writeCondition =>
    obtain ⟨stored, hstored, reads⟩ := read_ofCondition compiled
    exact ⟨s.storedName, stored, rfl, hstored, reads⟩

end Expression

namespace Orders

def recent : Condition Value :=
  .and (.leaf "account" (.compare .eq (.string "a1"))) (.leaf "at" (.between (.int 1) (.int 5)))

def recentExpression : Expression where
  kind := .keyCondition
  text := "(#key_name0 = :key_value0 AND #key_name1 BETWEEN :key_value1 AND :key_value2)"
  names := NameMap.ofList [("#key_name0", "pk"), ("#key_name1", "at")]
  values := NameMap.ofList
    [(":key_value0", .string "a1"), (":key_value1", .number "1"), (":key_value2", .number "5")]
  index := none

end Orders

theorem Expression.read_compile_recent :
    Expression.compile Orders.schema Orders.recent .keyCondition none = .ok Orders.recentExpression ∧
      ∃ rename stored, Orders.schema.Renames Orders.recent .keyCondition none rename ∧
        Orders.recent.traverse (fun name => .ok (rename name)) Value.serialize = .ok stored ∧
        Orders.recentExpression.read = some stored := by
  have compiled : Expression.compile Orders.schema Orders.recent .keyCondition none =
      .ok Orders.recentExpression := rfl
  exact ⟨compiled, Expression.read_compile compiled⟩

end WideColumn
