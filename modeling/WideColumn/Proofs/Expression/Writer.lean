import WideColumn.Proofs.Expression.Faithful

/-! Writing a condition in one pass. The writer hands out placeholders as it comes to names and
operands, with a counter for each, and fills the tables on the way. `Expression.ofCondition` numbers
the condition as a whole; `Writer.compose_eq` says that the pass ends with the same expression. -/
namespace WideColumn.Expression

open Outcome Placeholder

structure Writer where
  placeholders : NameMap String := {}
  names : NameMap String := {}
  values : NameMap WireValue := {}
  nextName : Nat := 0
  nextValue : Nat := 0

/-- A fault ends the pass, and what was written so far is dropped. -/
abbrev Writing := StateT Writer (Except MapperError)

namespace Writer

section

variable (kind : ExpressionKind) (rename : String → String)

/-- A name keeps the placeholder that it got first. -/
def name (logical : String) : Writing String := do
  let w ← get
  match w.placeholders.get? logical with
  | some symbol => return symbol
  | none =>
    let symbol := numbered kind.nameStem w.nextName
    set { w with
      placeholders := w.placeholders.insert logical symbol
      names := w.names.insert symbol (rename logical)
      nextName := w.nextName + 1 }
    return symbol

/-- Every operand gets a placeholder of its own. -/
def value (v : Value) : Writing String := do
  let w ← get
  let symbol := numbered kind.valueStem w.nextValue
  set { w with nextValue := w.nextValue + 1 }
  let stored ← v.serialize
  modify fun w => { w with values := w.values.insert symbol stored }
  return symbol

def test (logical : String) (test : Test Value) : Writing String := do
  let n ← name kind rename logical
  match test with
  | .compare op operand => return n ++ " " ++ op.symbol ++ " " ++ (← value kind operand)
  | .between low high =>
    let low ← value kind low
    let high ← value kind high
    return n ++ " BETWEEN " ++ low ++ " AND " ++ high
  | .beginsWith start => return "begins_with(" ++ n ++ ", " ++ (← value kind start) ++ ")"
  | .contains operand => return "contains(" ++ n ++ ", " ++ (← value kind operand) ++ ")"
  | .isIn candidates =>
    let symbols ← candidates.mapM (value kind)
    return n ++ " IN (" ++ ", ".intercalate symbols ++ ")"
  | .present => return "attribute_exists(" ++ n ++ ")"
  | .absent => return "attribute_not_exists(" ++ n ++ ")"

def write : Condition Value → Writing String
  | .leaf logical t => test kind rename logical t
  | .and left right => do
    let left ← write left
    let right ← write right
    return "(" ++ left ++ " AND " ++ right ++ ")"
  | .or left right => do
    let left ← write left
    let right ← write right
    return "(" ++ left ++ " OR " ++ right ++ ")"
  | .not inner => return "(NOT " ++ (← write inner) ++ ")"

/-- All names get their placeholders before the text is begun. -/
def compose (addressing : Addressing) (c : Condition Value) : Except MapperError Expression := do
  let pass : Writing String := do
    forM c.names fun logical => discard (name kind addressing.rename logical)
    write kind addressing.rename c
  let (text, w) ← pass.run {}
  return { kind, text, names := w.names, values := w.values, index := addressing.index }

/-- The writer that has met these names and stored these operands. -/
def reached (met : List String) (stored : List WireValue) : Writer where
  placeholders :=
    .ofList (met.zipIdx.map fun (logical, n) => (logical, numbered kind.nameStem n))
  names := Placeholder.table kind.nameStem (met.map rename)
  values := Placeholder.table kind.valueStem stored
  nextName := met.length
  nextValue := stored.length

end

variable {kind : ExpressionKind} {rename : String → String} {met : List String}

theorem get?_zipIdx (symbol : Nat → String) (next : Nat) (member : logical ∈ met) :
    Entries.get? logical ((met.zipIdx next).map fun (logical, n) => (logical, symbol n)) =
      some (symbol (next + met.idxOf logical)) := by
  induction met generalizing next with
  | nil => cases member
  | cons first rest ih =>
    rw [List.zipIdx_cons, List.map_cons, Entries.get?]
    by_cases same : first = logical
    · rw [if_pos same, same, List.idxOf_cons_self, Nat.add_zero]
    · have later : logical ∈ rest := (List.mem_cons.1 member).resolve_left (Ne.symm same)
      rw [if_neg same, ih (next + 1) later, List.idxOf_cons_ne rest same, Nat.add_right_comm,
        Nat.add_assoc]

theorem get?_placeholders (distinct : met.Nodup) (stored : List WireValue) (logical : String) :
    (reached kind rename met stored).placeholders.get? logical =
      if logical ∈ met then some (numbered kind.nameStem (met.idxOf logical)) else none := by
  have names : (met.zipIdx.map fun (logical, n) => (logical, numbered kind.nameStem n)).map Prod.fst =
      met := by
    rw [List.map_map]
    exact List.zipIdx_map_fst 0 met
  rw [reached, NameMap.get?_ofList (names.symm ▸ distinct)]
  split
  · next member => rw [get?_zipIdx (numbered kind.nameStem) 0 member, Nat.zero_add]
  · next absent =>
    refine Option.eq_none_iff_forall_ne_some.2 fun symbol found => absent ?_
    rw [← names]
    exact List.mem_map_of_mem (f := Prod.fst) (Entries.mem_of_get? found)

theorem reached_name (met : List String) (stored : List WireValue) (logical : String) :
    reached kind rename (met ++ [logical]) stored =
      { reached kind rename met stored with
        placeholders := (reached kind rename met stored).placeholders.insert logical
          (numbered kind.nameStem met.length)
        names := (reached kind rename met stored).names.insert
          (numbered kind.nameStem met.length) (rename logical)
        nextName := met.length + 1 } := by
  have grown := table_concat kind.nameStem (met.map rename) (rename logical)
  rw [List.length_map] at grown
  simp only [reached, List.zipIdx_append, List.map_append, List.zipIdx_singleton, List.map_singleton,
    NameMap.ofList_concat, grown, List.length_append, List.length_singleton, Nat.zero_add]

/-- A name that was met before leaves the writer alone. -/
theorem name_run (distinct : met.Nodup) (stored : List WireValue) (logical : String) :
    (name kind rename logical).run (reached kind rename met stored) =
      .ok (numbered kind.nameStem ((Condition.appendNew met logical).idxOf logical),
        reached kind rename (Condition.appendNew met logical) stored) := by
  rw [name, StateT.run_bind, StateT.run_get, pure_bind]
  simp only [get?_placeholders distinct, Condition.appendNew, List.contains_iff_mem]
  by_cases member : logical ∈ met
  · simp only [if_pos member]
    rfl
  · -- a new name comes last, so its place is the counter
    have last : (met ++ [logical]).idxOf logical = met.length := by
      rw [List.idxOf_append_of_notMem member, List.idxOf_cons_self, Nat.add_zero]
    simp only [if_neg member, reached_name, last]
    rfl

theorem name_known (distinct : met.Nodup) (stored : List WireValue) (known : logical ∈ met) :
    (name kind rename logical).run (reached kind rename met stored) =
      .ok (numbered kind.nameStem (met.idxOf logical), reached kind rename met stored) := by
  have again : Condition.appendNew met logical = met := if_pos (List.contains_iff_mem.2 known)
  rw [name_run distinct, again]

theorem value_run (met : List String) (stored : List WireValue) (v : Value) :
    (value kind v).run (reached kind rename met stored) = v.serialize.map fun w =>
      (numbered kind.valueStem stored.length, reached kind rename met (stored ++ [w])) := by
  rw [value]
  cases v.serialize with
  | error e => rfl
  | ok w =>
    simp only [Except.map, reached, table_concat, List.length_append]
    rfl

theorem single_run (met : List String) (stored : List WireValue) (v : Value)
    (text : String → String) :
    (do return text (← value kind v) : Writing String).run (reached kind rename met stored) =
      (Value.serializeList [v]).map fun more =>
        (text (numbered kind.valueStem stored.length), reached kind rename met (stored ++ more)) := by
  simp only [StateT.run_bind, value_run, Value.serializeList]
  cases v.serialize <;> rfl

theorem mapM_value_run (met : List String) (stored : List WireValue) (vs : List Value) :
    (vs.mapM (value kind)).run (reached kind rename met stored) =
      (Value.serializeList vs).map fun more =>
        ((List.range' stored.length vs.length).map (numbered kind.valueStem),
          reached kind rename met (stored ++ more)) := by
  induction vs generalizing stored with
  | nil =>
    simp only [Value.serializeList, Except.map, List.append_nil]
    rfl
  | cons v rest ih =>
    rw [List.mapM_cons, StateT.run_bind, value_run, Value.serializeList]
    cases v.serialize with
    | error e => rfl
    | ok w =>
      simp only [Except.map, ok_bind, StateT.run_bind, ih]
      cases Value.serializeList rest with
      | error e => rfl
      | ok more =>
        simp only [ok_bind, List.length_append, List.length_singleton, List.append_assoc,
          List.singleton_append]
        rfl

theorem test_run (distinct : met.Nodup) (stored : List WireValue) (known : logical ∈ met)
    (t : Test Value) :
    (test kind rename logical t).run (reached kind rename met stored) =
      (Value.serializeList t.operands).map fun more =>
        (((t.number stored.length).map (numbered kind.valueStem)).text
            (numbered kind.nameStem (met.idxOf logical)),
          reached kind rename met (stored ++ more)) := by
  rw [test, StateT.run_bind, name_known distinct stored known, ok_bind]
  cases t with
  | compare op v => exact single_run met stored v _
  | between low high =>
    simp only [StateT.run_bind, value_run, Test.operands, Value.serializeList]
    cases low.serialize with
    | error e => rfl
    | ok w =>
      simp only [Except.map, ok_bind, value_run]
      cases high.serialize with
      | error e => rfl
      | ok w' =>
        simp only [ok_bind, List.length_append, List.length_singleton, List.append_assoc]
        rfl
  | beginsWith v => exact single_run met stored v _
  | contains v => exact single_run met stored v _
  | isIn vs =>
    simp only [StateT.run_bind, mapM_value_run, Test.operands]
    cases Value.serializeList vs <;> rfl
  | present =>
    simp only [Test.operands, Value.serializeList, Except.map, List.append_nil]
    rfl
  | absent =>
    simp only [Test.operands, Value.serializeList, Except.map, List.append_nil]
    rfl

/-- Writing the condition, by a writer that has met its names, does what numbering it as a whole
does from the first free number on. -/
def Writes (kind : ExpressionKind) (rename : String → String) (met : List String)
    (c : Condition Value) : Prop :=
  ∀ stored, (write kind rename c).run (reached kind rename met stored) =
    (Value.serializeList c.operands).map fun more =>
      (((c.number stored.length).map (fun logical => numbered kind.nameStem (met.idxOf logical))
        (numbered kind.valueStem)).text, reached kind rename met (stored ++ more))

/-- The operands on the right go on with the numbers behind those on the left. -/
theorem Writes.both (left : Writes kind rename met l) (right : Writes kind rename met r)
    (join : String → String → String) (stored : List WireValue) :
    (do return join (← write kind rename l) (← write kind rename r) : Writing String).run
        (reached kind rename met stored) =
      (Value.serializeList (l.operands ++ r.operands)).map fun more =>
        (join ((l.number stored.length).map
            (fun logical => numbered kind.nameStem (met.idxOf logical))
            (numbered kind.valueStem)).text
          ((r.number (stored.length + l.operands.length)).map
            (fun logical => numbered kind.nameStem (met.idxOf logical))
            (numbered kind.valueStem)).text, reached kind rename met (stored ++ more)) := by
  rw [StateT.run_bind, left stored, Value.serializeList_eq_mapM (_ ++ _), List.mapM_append,
    ← Value.serializeList_eq_mapM, ← Value.serializeList_eq_mapM]
  cases done : Value.serializeList l.operands with
  | error e => rfl
  | ok first =>
    simp only [Except.map, ok_bind, StateT.run_bind, right (stored ++ first), List.length_append,
      Value.length_serializeList done, List.append_assoc]
    cases Value.serializeList r.operands <;> rfl

theorem write_run (distinct : met.Nodup) (c : Condition Value)
    (known : ∀ logical ∈ c.leafNames, logical ∈ met) : Writes kind rename met c := by
  induction c with
  | leaf logical t =>
    exact fun stored => test_run distinct stored (known logical (List.mem_singleton.2 rfl)) t
  | and left right ihl ihr =>
    obtain ⟨inLeft, inRight⟩ := List.forall_mem_append.1 known
    exact (ihl inLeft).both (ihr inRight) fun l r => "(" ++ l ++ " AND " ++ r ++ ")"
  | or left right ihl ihr =>
    obtain ⟨inLeft, inRight⟩ := List.forall_mem_append.1 known
    exact (ihl inLeft).both (ihr inRight) fun l r => "(" ++ l ++ " OR " ++ r ++ ")"
  | not inner ih =>
    intro stored
    rw [write, StateT.run_bind, ih known stored, Condition.operands]
    cases Value.serializeList inner.operands <;> rfl

theorem forM_name_run (kind : ExpressionKind) (rename : String → String) (met : List String)
    (stored : List WireValue) (names : List String) (distinct : (met ++ names).Nodup) :
    (forM names fun logical => discard (name kind rename logical) : Writing Unit).run
        (reached kind rename met stored) = .ok ((), reached kind rename (met ++ names) stored) := by
  induction names generalizing met with
  | nil =>
    rw [List.append_nil]
    rfl
  | cons logical rest ih =>
    obtain ⟨before, -, apart⟩ := List.nodup_append.1 distinct
    have fresh : logical ∉ met := fun member => apart logical member logical List.mem_cons_self rfl
    have new : Condition.appendNew met logical = met ++ [logical] :=
      if_neg fun member => fresh (List.contains_iff_mem.1 member)
    have first : (discard (name kind rename logical) : Writing Unit).run
        (reached kind rename met stored) =
          .ok ((), reached kind rename (met ++ [logical]) stored) := by
      show (Function.const _ () <$> name kind rename logical).run _ = _
      rw [StateT.run_map, name_run before, new]
      rfl
    have whole : met ++ logical :: rest = met ++ [logical] ++ rest := by simp
    rw [List.forM_cons, StateT.run_bind, first, ok_bind, whole]
    exact ih (met ++ [logical]) (whole ▸ distinct)

/-- The pass ends with the expression that is numbered as a whole, or with the same fault. -/
theorem compose_eq (kind : ExpressionKind) (addressing : Addressing) (c : Condition Value) :
    compose kind addressing c = Expression.ofCondition kind addressing c := by
  have registered := forM_name_run kind addressing.rename [] [] c.names c.nodup_names
  have written : Writes kind addressing.rename c.names c :=
    write_run c.nodup_names c fun logical => Condition.mem_names.2
  have start : reached kind addressing.rename [] [] = {} := rfl
  rw [start, List.nil_append] at registered
  simp only [compose, StateT.run_bind, registered, ok_bind, written []]
  rw [Expression.ofCondition]
  cases Value.serializeList c.operands <;> rfl

end Writer

end WideColumn.Expression
