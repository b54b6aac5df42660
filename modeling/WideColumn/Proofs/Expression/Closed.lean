import WideColumn.Proofs.Expression.Faithful
import WideColumn.Proofs.Update.Reader

/-! The placeholders that a text uses. A phrase is closed when its tables hold exactly the
placeholders of its text, each of one family: a stem and a number. Stems hold no digits, so two
families have no placeholder in common; phrases of different families can share the tables of a
request, and each of them is resolved there as it is on its own. -/
namespace WideColumn

open Outcome Placeholder

namespace Token

/-- The placeholder of a name, if the token is one. -/
def names : Token → List String
  | .name symbol => [symbol]
  | _ => []

/-- The placeholder of a value, if the token is one. -/
def values : Token → List String
  | .operand symbol => [symbol]
  | _ => []

/-- Commas are no placeholders, whatever kind is asked for. -/
theorem flatMap_commas {kind : Token → List String} (noComma : kind .comma = [])
    (tokens : α → List Token) (xs : List α) :
    (commas (xs.map tokens)).flatMap kind = xs.flatMap fun x => (tokens x).flatMap kind := by
  induction xs with
  | nil => rfl
  | cons x rest ih =>
    cases rest with
    | nil => simp
    | cons y rest =>
      simp only [List.map_cons] at ih
      simp [commas_cons, noComma, ih]

theorem names_operands (xs : List String) : (operands xs).flatMap names = [] := by
  rw [operands, flatMap_commas rfl]
  exact List.flatMap_eq_nil_iff.2 fun x _ => rfl

theorem values_operands (xs : List String) : (operands xs).flatMap values = xs := by
  rw [operands, flatMap_commas rfl]
  exact List.flatMap_singleton' xs

end Token

theorem Test.names_tokens (name : String) (test : Test String) :
    (test.tokens name).flatMap Token.names = [name] := by
  cases test with
  | isIn xs => simp [tokens, Token.names_operands, Token.names]
  | _ => rfl

theorem Test.values_tokens (name : String) (test : Test String) :
    (test.tokens name).flatMap Token.values = test.operands := by
  cases test with
  | isIn xs => simp [tokens, operands, Token.values_operands, Token.values]
  | _ => rfl

namespace Condition

theorem names_tokens (c : Condition String) : c.tokens.flatMap Token.names = c.leafNames := by
  induction c with
  | leaf name test => exact test.names_tokens name
  | and left right ihl ihr => simp [tokens, leafNames, Token.names, ihl, ihr]
  | or left right ihl ihr => simp [tokens, leafNames, Token.names, ihl, ihr]
  | not inner ih => simp [tokens, leafNames, Token.names, ih]

theorem values_tokens (c : Condition String) :
    c.tokens.flatMap Token.values = c.operands := by
  induction c with
  | leaf name test => exact test.values_tokens name
  | and left right ihl ihr => simp [tokens, operands, Token.values, ihl, ihr]
  | or left right ihl ihr => simp [tokens, operands, Token.values, ihl, ihr]
  | not inner ih => simp [tokens, operands, Token.values, ih]

theorem leafNames_map (rename : String → String) (f : α → β) (c : Condition α) :
    (c.map rename f).leafNames = c.leafNames.map rename := by
  induction c with
  | leaf name test => rfl
  | and left right ihl ihr => simp [map, leafNames, ihl, ihr]
  | or left right ihl ihr => simp [map, leafNames, ihl, ihr]
  | not inner ih => exact ih

theorem leafNames_number (next : Nat) (c : Condition α) : (c.number next).leafNames = c.leafNames := by
  induction c generalizing next with
  | leaf name test => rfl
  | and left right ihl ihr => simp [number, leafNames, ihl, ihr]
  | or left right ihl ihr => simp [number, leafNames, ihl, ihr]
  | not inner ih => exact ih next

theorem ofText_symbolic (kind : ExpressionKind) (c : Condition α) :
    Token.ofText (c.symbolic kind).text = (c.symbolic kind).tokens :=
  (spells_text (fun _ => isName_numbered (isName_stem kind) _)
    (fun _ => isOperand_numbered (isOperand_stem kind) _) (c.number 0)).ofText

/-- Every number of a name is used: each name has its own, by first appearance. -/
theorem mem_names_symbolic (kind : ExpressionKind) (c : Condition α) (symbol : String) :
    symbol ∈ (c.symbolic kind).leafNames ↔
      ∃ n < c.names.length, symbol = numbered kind.nameStem n := by
  rw [symbolic, leafNames_map, leafNames_number, List.mem_map]
  constructor
  · rintro ⟨name, member, rfl⟩
    exact ⟨_, List.idxOf_lt_length_of_mem (mem_names.2 member), rfl⟩
  · rintro ⟨n, below, rfl⟩
    refine ⟨c.names[n], mem_names.1 (List.getElem_mem below), ?_⟩
    rw [c.nodup_names.idxOf_getElem n below]

theorem mem_operands_symbolic (kind : ExpressionKind) (c : Condition α) (symbol : String) :
    symbol ∈ (c.symbolic kind).operands ↔
      ∃ n < c.operands.length, symbol = numbered kind.valueStem n := by
  rw [symbolic, operands_map, operands_number, ← List.range_eq_range', List.mem_map]
  simp only [List.mem_range, eq_comm]

end Condition

/-- The placeholders that a text uses of one kind, and the table that it is sent with. -/
structure Usage (α : Type) where
  symbols : List String
  table : NameMap α

/-- Several texts share a table: it holds what they use and nothing else, no placeholder is used
by two of them, and each is what it is in the table of its own text. -/
structure Merged (usages : List (Usage α)) (all : NameMap α) : Prop where
  held : ∀ symbol, all.contains symbol ↔ ∃ u ∈ usages, symbol ∈ u.symbols
  apart : usages.Pairwise fun u v => ∀ symbol ∈ u.symbols, symbol ∉ v.symbols
  resolved : ∀ u ∈ usages, ∀ symbol ∈ u.symbols, all.get? symbol = u.table.get? symbol

namespace Usage

/-- The table holds what the text uses and nothing else, and all of it has one stem. -/
structure Closed (u : Usage α) (stem : String) : Prop where
  plain : Plain stem
  held : ∀ symbol, u.table.contains symbol ↔ symbol ∈ u.symbols
  family : ∀ symbol ∈ u.symbols, ∃ n, symbol = numbered stem n

variable {u v : Usage α} {stem other : String}

theorem closed_table {symbols : List String} {xs : List α} (plain : Plain stem)
    (first : ∀ symbol, symbol ∈ symbols ↔ ∃ n < xs.length, symbol = numbered stem n) :
    Closed ⟨symbols, Placeholder.table stem xs⟩ stem := by
  constructor
  case plain => exact plain
  case held => exact fun symbol => (contains_table stem xs symbol).trans (first symbol).symm
  case family =>
    intro symbol member
    obtain ⟨n, -, same⟩ := (first symbol).1 member
    exact ⟨n, same⟩

theorem Closed.apart (closed : u.Closed stem) (closedOther : v.Closed other) (ne : stem ≠ other) :
    ∀ symbol ∈ u.symbols, symbol ∉ v.symbols := by
  intro symbol here there
  obtain ⟨n, rfl⟩ := closed.family symbol here
  obtain ⟨m, same⟩ := closedOther.family _ there
  exact ne (stem_inj closed.plain closedOther.plain same)

theorem Closed.merged (closed : u.Closed stem) : Merged [u] u.table := by
  constructor
  case held => simpa using closed.held
  case apart => exact List.pairwise_singleton _ _
  case resolved => simp

end Usage

theorem Merged.nil : Merged [] (∅ : NameMap α) := by
  constructor
  case held =>
    intro symbol
    have absent : (∅ : NameMap α).get? symbol = none := rfl
    simp [NameMap.contains, absent]
  case apart => exact List.Pairwise.nil
  case resolved => simp

/-- A text that uses other placeholders than those before it may share their table. -/
theorem Merged.add {usages : List (Usage α)} {all : NameMap α} {u : Usage α}
    (merged : Merged usages all) (closed : u.Closed stem)
    (apart : ∀ v ∈ usages, ∀ symbol ∈ v.symbols, symbol ∉ u.symbols) :
    Merged (usages ++ [u]) (all.union u.table) := by
  have present (symbol : String) : (all.union u.table).contains symbol ↔
      all.contains symbol ∨ u.table.contains symbol := by
    simp [NameMap.contains, NameMap.get?_union]
  constructor
  case held =>
    intro symbol
    rw [present, merged.held, closed.held]
    simp [or_and_right, exists_or]
  case apart =>
    refine List.pairwise_append.2 ⟨merged.apart, List.pairwise_singleton _ _, ?_⟩
    simpa using apart
  case resolved =>
    intro v member symbol used
    rw [NameMap.get?_union]
    rcases List.mem_append.1 member with before | last
    · obtain ⟨value, found⟩ := NameMap.contains_iff.1 ((merged.held symbol).2 ⟨v, before, used⟩)
      rw [← merged.resolved v before symbol used, found, Option.some_or]
    · obtain rfl := List.mem_singleton.1 last
      have absent : all.get? symbol = none := by
        rw [← Option.not_isSome_iff_eq_none]
        intro held
        obtain ⟨w, before, usedBefore⟩ := (merged.held symbol).1 held
        exact apart w before symbol usedBefore used
      rw [absent, Option.none_or]

/-- A text and the tables of its placeholders. -/
structure Phrase where
  text : String
  nameTable : NameMap String
  valueTable : NameMap WireValue

namespace Phrase

def names (p : Phrase) : Usage String := ⟨(Token.ofText p.text).flatMap Token.names, p.nameTable⟩

def values (p : Phrase) : Usage WireValue :=
  ⟨(Token.ofText p.text).flatMap Token.values, p.valueTable⟩

structure Closed (p : Phrase) (nameStem valueStem : String) : Prop where
  names : p.names.Closed nameStem
  values : p.values.Closed valueStem

/-- The tables of a request stand for those of its texts. -/
structure Assembled (phrases : List Phrase) (nameTable : NameMap String)
    (valueTable : NameMap WireValue) : Prop where
  names : Merged (phrases.map names) nameTable
  values : Merged (phrases.map values) valueTable

theorem assembled_nil : Assembled [] ∅ ∅ := ⟨.nil, .nil⟩

theorem Closed.assembled {p : Phrase} (closed : p.Closed nameStem valueStem) :
    Assembled [p] p.nameTable p.valueTable :=
  ⟨closed.names.merged, closed.values.merged⟩

/-- Texts of different families may be sent in one request. -/
theorem Closed.assembled_pair {p q : Phrase} (closed : p.Closed nameStem valueStem)
    (more : q.Closed otherNameStem otherValueStem)
    (names : nameStem ≠ otherNameStem) (values : valueStem ≠ otherValueStem) :
    Assembled [p, q] (p.nameTable.union q.nameTable) (p.valueTable.union q.valueTable) := by
  have apartNames := closed.names.apart more.names names
  have apartValues := closed.values.apart more.values values
  constructor
  case names => exact closed.names.merged.add more.names (by simpa using apartNames)
  case values => exact closed.values.merged.add more.values (by simpa using apartValues)

end Phrase

namespace Expression

def phrase (e : Expression) : Phrase := ⟨e.text, e.names, e.values⟩

variable {s : Schema} {c : Condition Value} {kind : ExpressionKind} {explicit : Option String}
  {e : Expression}

theorem closed_ofCondition (done : ofCondition kind addressing c = .ok e) :
    e.phrase.Closed kind.nameStem kind.valueStem := by
  simp only [ofCondition, bind_ok, pure_ok] at done
  obtain ⟨operands, hoperands, rfl⟩ := done
  constructor
  case names =>
    apply Usage.closed_table (plain_nameStem kind)
    intro symbol
    rw [phrase, c.ofText_symbolic kind, Condition.names_tokens, List.length_map]
    exact c.mem_names_symbolic kind symbol
  case values =>
    apply Usage.closed_table (plain_valueStem kind)
    intro symbol
    rw [phrase, c.ofText_symbolic kind, Condition.values_tokens,
      Value.length_serializeList hoperands]
    exact c.mem_operands_symbolic kind symbol

theorem closed_compile (done : compile s c kind explicit = .ok e) :
    e.phrase.Closed kind.nameStem kind.valueStem := by
  cases kind with
  | keyCondition =>
    simp only [compile, bind_ok, mapError_ok] at done
    obtain ⟨key, -, addressing, -, done⟩ := done
    exact closed_ofCondition done
  | filter => exact closed_ofCondition done
  | writeCondition => exact closed_ofCondition done

end Expression

namespace Update

theorem flatMap_clause {kind : Token → List String} (noWord : ∀ text, kind (.word text) = [])
    (noComma : kind .comma = []) (keyword : String) (tokens : α → List Token) (xs : List α) :
    (clauseTokens keyword (xs.map tokens)).flatMap kind =
      xs.flatMap fun x => (tokens x).flatMap kind := by
  cases xs with
  | nil => rfl
  | cons x xs =>
    have actions := Token.flatMap_commas noComma tokens (x :: xs)
    simpa [clauseTokens, noWord] using actions

/-- The names of a text are the targets of the patch that it is written for. -/
theorem names_tokens (p : Patch String) :
    (setTokens p.sets ++ removeTokens p.removals).flatMap Token.names = p.targets := by
  rw [List.flatMap_append, setTokens, removeTokens, flatMap_clause (fun _ => rfl) rfl,
    flatMap_clause (fun _ => rfl) rfl, Patch.targets, List.map_eq_flatMap]
  exact congrArg _ (List.flatMap_singleton' p.removals)

theorem values_tokens (p : Patch String) :
    (setTokens p.sets ++ removeTokens p.removals).flatMap Token.values = p.sets.map Prod.snd := by
  have nothing : p.removals.flatMap (fun _ => ([] : List String)) = [] :=
    List.flatMap_eq_nil_iff.2 fun _ _ => rfl
  rw [List.flatMap_append, setTokens, removeTokens, flatMap_clause (fun _ => rfl) rfl,
    flatMap_clause (fun _ => rfl) rfl, List.map_eq_flatMap]
  exact (congrArg _ nothing).trans (List.append_nil _)

theorem targets_symbolic (assigned removed : Nat) :
    (symbolic assigned removed).targets = (List.range (assigned + removed)).map (numbered nameStem) := by
  have numbers : List.range' 0 assigned ++ List.range' assigned removed =
      List.range' 0 (assigned + removed) := by
    simpa using List.range'_append_1 (s := 0) (m := assigned) (n := removed)
  rw [List.range_eq_range', ← numbers]
  simp [Patch.targets, symbolic, List.range_eq_range', Function.comp_def]

theorem values_symbolic (assigned removed : Nat) :
    (symbolic assigned removed).sets.map Prod.snd = (List.range assigned).map (numbered valueStem) := by
  simp [symbolic, Function.comp_def]

end Update

theorem Record.closed_changesRequest {s : Schema} {r : Record} {d : Diff}
    (done : r.changesRequest s d = .ok request) :
    request.condition = none ∧ ∃ text, request.update = some text ∧
      Phrase.Closed ⟨text, request.names, request.values⟩ Update.nameStem Update.valueStem := by
  simp only [changesRequest, bind_ok, pure_ok] at done
  obtain ⟨key, -, values, hvalues, rfl⟩ := done
  refine ⟨rfl, _, rfl, ?_⟩
  constructor
  case names =>
    apply Usage.closed_table Update.plain_nameStem
    intro symbol
    rw [Update.ofText_text, Update.names_tokens, Update.targets_symbolic]
    simp [NameMap.names, NameMap.size, eq_comm]
  case values =>
    apply Usage.closed_table Update.plain_valueStem
    intro symbol
    rw [Update.ofText_text, Update.values_tokens, Update.values_symbolic,
      Value.length_serializeList hvalues]
    simp [NameMap.size, eq_comm]

end WideColumn
