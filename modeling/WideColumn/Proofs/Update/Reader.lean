import WideColumn.Proofs.Expression.Placeholder
import WideColumn.Update

/-! A reader of update texts and the meaning of what it reads. A patch sets attributes to
values and removes others; it reads nothing of the item that it changes. The text of an
update is read as the patch over placeholders that it was written for. -/
namespace WideColumn

open Placeholder

structure Patch (α : Type) where
  sets : List (String × α)
  removals : List String

namespace Patch

/-- The attributes that the actions are about. -/
def targets (p : Patch α) : List String := p.sets.map Prod.fst ++ p.removals

def apply (p : Patch α) (m : NameMap α) : NameMap α :=
  p.removals.foldl NameMap.erase (p.sets.foldl (fun m entry => m.insert entry.1 entry.2) m)

/-- Replaces the symbols of a patch by what they stand for. -/
def resolve (names : String → Option String) (values : String → Option α) (p : Patch String) :
    Option (Patch α) := do
  let sets ← p.sets.mapM fun (name, value) => do return (← names name, ← values value)
  let removals ← p.removals.mapM names
  return ⟨sets, removals⟩

end Patch

namespace Update

def readRemovals : List Token → Option (List String)
  | [.name n] => some [n]
  | .name n :: .comma :: rest => (readRemovals rest).map (n :: ·)
  | _ => none

/-- Assignments, and the removals that may stand behind them. -/
def readSets : List Token → Option (Patch String)
  | [.name n, .word "=", .operand x] => some ⟨[(n, x)], []⟩
  | .name n :: .word "=" :: .operand x :: .comma :: rest =>
    (readSets rest).map fun p => ⟨(n, x) :: p.sets, p.removals⟩
  | .name n :: .word "=" :: .operand x :: .word "REMOVE" :: rest =>
    (readRemovals rest).map fun removals => ⟨[(n, x)], removals⟩
  | _ => none

def readTokens : List Token → Option (Patch String)
  | .word "SET" :: rest => readSets rest
  | .word "REMOVE" :: rest => (readRemovals rest).map fun removals => ⟨[], removals⟩
  | _ => none

/-- The patch that a text says, if it says one. -/
def read (text : String) : Option (Patch String) := readTokens (Token.ofText text)

/-- A keyword and its actions, with commas between them; without actions nothing. -/
def clauseTokens (keyword : String) : List (List Token) → List Token
  | [] => []
  | actions => .word keyword :: Token.commas actions

def setTokens (sets : List (String × String)) : List Token :=
  clauseTokens "SET" (sets.map fun (n, x) => [.name n, .word "=", .operand x])

def removeTokens (removals : List String) : List Token :=
  clauseTokens "REMOVE" (removals.map fun n => [.name n])

theorem readRemovals_tokens (n : String) (ns : List String) :
    readRemovals (Token.commas ((n :: ns).map fun n => [.name n])) = some (n :: ns) := by
  induction ns generalizing n with
  | nil => rfl
  | cons m ms ih =>
    have later := ih m
    simp only [List.map_cons] at later ⊢
    rw [Token.commas_cons, List.singleton_append, readRemovals, later, Option.map_some]

theorem readSets_tokens (set : String × String) (sets : List (String × String))
    (removals : List String) :
    readSets (Token.commas ((set :: sets).map fun (n, x) => [.name n, .word "=", .operand x]) ++
        removeTokens removals) =
      some ⟨set :: sets, removals⟩ := by
  induction sets generalizing set with
  | nil =>
    cases removals with
    | nil => rfl
    | cons n ns =>
      have behind := readRemovals_tokens n ns
      simp only [List.map_cons] at behind
      simp [removeTokens, clauseTokens, readSets, behind]
  | cons next rest ih =>
    have later := ih next
    simp only [List.map_cons] at later ⊢
    simp [Token.commas_cons, readSets, later]

/-- A text without actions says no patch, and no such text is ever sent. -/
theorem readTokens_tokens {p : Patch String} (some : p.targets ≠ []) :
    readTokens (setTokens p.sets ++ removeTokens p.removals) = .some p := by
  obtain ⟨sets, removals⟩ := p
  cases sets with
  | cons set sets => exact readSets_tokens set sets removals
  | nil =>
    cases removals with
    | cons n ns =>
      have only := readRemovals_tokens n ns
      simp only [List.map_cons] at only
      simp [setTokens, removeTokens, clauseTokens, readTokens, only]
    | nil => exact absurd rfl some

open Token

theorem isName_nameStem : IsName nameStem := ⟨solid_of_all rfl, rfl⟩

theorem isOperand_valueStem : IsOperand valueStem := ⟨solid_of_all rfl, rfl⟩

theorem plain_nameStem : Plain nameStem := plain_of_all rfl

theorem plain_valueStem : Plain valueStem := plain_of_all rfl

theorem spells_assignment (n : Nat) : Spells (assignment n)
    [.name (numbered nameStem n), .word "=", .operand (numbered valueStem n)] := by
  intro rest stops
  have name (rest : List Char) :=
    spells_name (isName_numbered isName_nameStem n) (' ' :: rest) rfl
  have value := spells_operand (isOperand_numbered isOperand_valueStem n) rest stops
  simp [assignment, name, value, scan, separator?, ofWord]

theorem spells_removal (n : Nat) : Spells (numbered nameStem n) [.name (numbered nameStem n)] :=
  spells_name (isName_numbered isName_nameStem n)

theorem spells_clause {keyword : String} (word : Spells keyword [.word keyword])
    {phrase : α → String} {tokens : α → List Token} (each : ∀ x, Spells (phrase x) (tokens x))
    (x : α) (xs : List α) :
    Spells (keyword ++ " " ++ ", ".intercalate ((x :: xs).map phrase))
      (clauseTokens keyword ((x :: xs).map tokens)) :=
  spells_blank word (spells_commas each (x :: xs))

/-- The clauses of a text are read one after the other, and a missing one is not missed. -/
theorem spells_clauses {set : α → String} {remove : β → String} {setToken : α → List Token}
    {removeToken : β → List Token} (eachSet : ∀ x, Spells (set x) (setToken x))
    (eachRemove : ∀ x, Spells (remove x) (removeToken x)) (sets : List α) (removals : List β) :
    Spells (" ".intercalate (clause "SET" (sets.map set) ++ clause "REMOVE" (removals.map remove)))
      (clauseTokens "SET" (sets.map setToken) ++
        clauseTokens "REMOVE" (removals.map removeToken)) := by
  have wordSet : Spells "SET" [.word "SET"] := spells_one (solid_of_all rfl) rfl
  have wordRemove : Spells "REMOVE" [.word "REMOVE"] := spells_one (solid_of_all rfl) rfl
  cases sets with
  | nil =>
    cases removals with
    | nil => exact fun rest _ => rfl
    | cons y ys =>
      have only := spells_clause wordRemove eachRemove y ys
      simpa [clause, clauseTokens] using only
  | cons x xs =>
    have first := spells_clause wordSet eachSet x xs
    cases removals with
    | nil => simpa [clause, clauseTokens] using first
    | cons y ys =>
      have second := spells_clause wordRemove eachRemove y ys
      exact spells_blank first second

/-- The patch over placeholders that the text of an update is about. -/
def symbolic (assigned removed : Nat) : Patch String where
  sets := (List.range assigned).map fun n => (numbered nameStem n, numbered valueStem n)
  removals := (List.range' assigned removed).map (numbered nameStem)

theorem ofText_text (assigned removed : Nat) : Token.ofText (text assigned removed) =
    setTokens (symbolic assigned removed).sets ++ removeTokens (symbolic assigned removed).removals := by
  have spells := spells_clauses spells_assignment spells_removal (List.range assigned)
    (List.range' assigned removed)
  simpa [text, setTokens, removeTokens, symbolic, Function.comp_def] using spells.ofText

theorem read_text {assigned removed : Nat} (some : assigned + removed ≠ 0) :
    read (text assigned removed) = .some (symbolic assigned removed) := by
  have targets : (symbolic assigned removed).targets ≠ [] := by
    intro empty
    have length := congrArg List.length empty
    simp [Patch.targets, symbolic] at length
    omega
  rw [read, ofText_text, readTokens_tokens targets]

/-- The numbers of the names run through both clauses, those of the values through the first. -/
theorem resolve_symbolic {names : String → Option String} {values : String → Option α}
    {sets : List (String × α)} {removals : List String}
    (named : Serves (fun n => names (numbered nameStem n)) 0 (sets.map Prod.fst ++ removals))
    (valued : Serves (fun n => values (numbered valueStem n)) 0 (sets.map Prod.snd)) :
    (symbolic sets.length removals.length).resolve names values = some ⟨sets, removals⟩ := by
  obtain ⟨namedSets, namedRemovals⟩ := serves_append named
  have served : Serves (fun n => do
      return (← names (numbered nameStem n), ← values (numbered valueStem n))) 0 sets := by
    intro i below
    have name := namedSets i (by simpa using below)
    have value := valued i (by simpa using below)
    simp only [Nat.zero_add] at name value ⊢
    simp [name, value, List.getElem?_eq_getElem below]
  have first := mapM_range' served
  have second := mapM_range' namedRemovals
  simp only [Nat.zero_add, List.length_map] at second
  simp only [Patch.resolve, symbolic, List.mapM_map, List.range_eq_range', Function.comp_def]
  rw [first, second]
  rfl

end Update

end WideColumn
