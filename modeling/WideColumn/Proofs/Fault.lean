import WideColumn.Catalog.Load
import WideColumn.Proofs.Codec.Exact
import WideColumn.Proofs.NameMap
import WideColumn.Table

/-! Which errors a computation can end with. The lemmas are about any property `p` of errors: all
errors of the computation have it as soon as the errors of the kinds that it can end with do. -/
namespace WideColumn

open Outcome

variable {p : MapperError → Prop}

theorem Outcome.Fails.ofCodec {x : Except MapperError α} (fails : Fails MapperError.IsCodec x)
    (codec : ∀ fault, p (.codec fault)) : Fails p x := by
  refine fails.mono fun e isCodec => ?_
  cases e with
  | codec fault => exact codec fault
  | _ => cases isCodec

theorem NameMap.traverse_fails {f : α → Except ε β} {p : ε → Prop} (each : ∀ a, Fails p (f a))
    (m : NameMap α) : Fails p (m.traverse f) := by
  intro e failed
  obtain ⟨_, a, -, fails⟩ := traverse_error failed
  exact each a e fails

/-! ## Values that are stored or read back -/

theorem Value.ofNumberText_fails (text : String) :
    Fails MapperError.IsCodec (Value.ofNumberText text) := by
  unfold Value.ofNumberText
  dsimp only
  split
  · exact fails_ok _
  · split
    · exact fails_ok _
    · exact fails_error trivial

theorem Value.ofNumberTexts_fails (texts : List String) :
    Fails MapperError.IsCodec (Value.ofNumberTexts texts) := by
  induction texts with
  | nil => exact fails_ok _
  | cons text rest ih =>
    exact fails_bind (ofNumberText_fails text) fun _ => fails_bind ih fun _ => fails_ok _

mutual

theorem WireValue.deserialize_fails : ∀ w : WireValue, Fails MapperError.IsCodec w.deserialize
  | .null _ => fails_ok _
  | .bool _ => fails_ok _
  | .number text => Value.ofNumberText_fails text
  | .string _ => fails_ok _
  | .binary _ => fails_ok _
  | .list items => fails_map _ (deserializeList_fails items)
  | .map fields => fails_map _ (deserializeFields_fails fields)
  | .stringSet _ => fails_ok _
  | .numberSet texts => fails_map _ (Value.ofNumberTexts_fails texts)
  | .binarySet _ => fails_ok _

theorem WireValue.deserializeList_fails : ∀ items : List WireValue,
    Fails MapperError.IsCodec (deserializeList items)
  | [] => fails_ok _
  | item :: rest =>
    fails_bind (deserialize_fails item) fun _ => fails_bind (deserializeList_fails rest) fun _ =>
      fails_ok _

theorem WireValue.deserializeFields_fails : ∀ fields : List (String × WireValue),
    Fails MapperError.IsCodec (deserializeFields fields)
  | [] => fails_ok _
  | (_, value) :: rest =>
    fails_bind (deserialize_fails value) fun _ => fails_bind (deserializeFields_fails rest) fun _ =>
      fails_ok _

end

section

variable (codec : ∀ fault, p (.codec fault))
include codec

theorem Record.load_fails (s : Schema) (item : Item) : Fails p (Record.load s item) :=
  have decoded := (NameMap.traverse_fails WireValue.deserialize_fails item).ofCodec codec
  fails_bind decoded fun _ => fails_ok _

theorem Record.toItem_fails (s : Schema) (r : Record) : Fails p (r.toItem s) :=
  (NameMap.traverse_fails Value.serialize_fails _).ofCodec codec

theorem Table.loadAll_fails (t : Table) (items : List Item) : Fails p (t.loadAll items) := by
  induction items with
  | nil => exact fails_ok _
  | cons item rest ih =>
    exact fails_bind (Record.load_fails codec t.schema item) fun _ => fails_bind ih fun _ =>
      fails_ok _

theorem Table.loadFound_fails (t : Table) (response : Response.GetItem) :
    Fails p (t.loadFound response) := by
  unfold loadFound
  split
  · exact fails_map _ (Record.load_fails codec t.schema _)
  · exact fails_ok _

theorem Table.page_fails (t : Table) (response : Response.Query) : Fails p (t.page response) :=
  fails_bind (loadAll_fails codec t _) fun _ => fails_ok _

end

/-! ## Keys and updates -/

section

variable (codec : ∀ fault, p (.codec fault)) (missing : ∀ name, p (.missingKeyValue name))
include codec missing

theorem Schema.keyEntries_fails (values : NameMap Value) (names : List String) :
    Fails p (Schema.keyEntries values names) := by
  induction names with
  | nil => exact fails_ok _
  | cons name rest ih =>
    unfold Schema.keyEntries
    split
    · next value found =>
      have here := (Value.serialize_fails value).ofCodec codec
      exact fails_bind here fun _ => fails_bind ih fun _ => fails_ok _
    · exact fails_error (missing name)

theorem Schema.keyOf_fails (s : Schema) (values : NameMap Value) : Fails p (s.keyOf values) :=
  fails_map _ (keyEntries_fails codec missing _ _)

theorem Record.changesRequest_fails (s : Schema) (r : Record) (d : Diff) :
    Fails p (r.changesRequest s d) := by
  have values := (Value.serializeList_fails (d.assigned.entries.map (·.2))).ofCodec codec
  exact fails_bind (Schema.keyOf_fails codec missing s _) fun _ => fails_bind values fun _ =>
    fails_ok _

theorem Table.key_fails (keyCondition : ∀ fault, p (.keyCondition fault)) (t : Table)
    (partition : Value) (sort : Option Value) : Fails p (t.key partition sort) := by
  refine fails_bind ((Value.serialize_fails partition).ofCodec codec) fun wire => ?_
  split
  · next value _ =>
    exact fails_bind ((Value.serialize_fails value).ofCodec codec) fun _ => fails_ok _
  · exact fails_error (missing _)
  · exact fails_error (keyCondition _)
  · exact fails_ok _

end

/-! ## Conditions -/

section

variable (index : ∀ fault, p (.index fault))
include index

/-- Whatever index is not found, nothing else is to blame. -/
theorem Schema.resolve_fails (s : Schema) (names : List String) (explicit : Option String) :
    Fails p (s.resolve names explicit) := by
  have served (partition : String) (sort : Option String) : Fails p (s.serving partition sort) := by
    unfold serving
    split
    · exact fails_ok _
    · exact fails_error (index _)
  have named (name : String) : Fails p (s.named name) := by
    refine fails_bind ?_ fun i => ?_
    · unfold Catalog.get
      split
      · exact fails_ok _
      · exact fails_error (index _)
    · split
      · exact fails_ok _
      · exact fails_error (index _)
  unfold resolve
  split
  · exact named _
  · exact served _ _
  · exact served _ _
  · exact fails_error (index _)

theorem Schema.address_fails (keyCondition : ∀ fault, p (.keyCondition fault)) (s : Schema)
    (key : KeyNames) (explicit : Option String) : Fails p (s.address key explicit) := by
  refine fails_bind (resolve_fails index s key.toList explicit) fun b => ?_
  dsimp only
  split
  · exact fails_ok _
  · exact fails_ok _
  · exact fails_error (keyCondition _)

end

theorem Expression.ofCondition_fails (codec : ∀ fault, p (.codec fault)) (kind : ExpressionKind)
    (addressing : Addressing) (c : Condition Value) : Fails p (ofCondition kind addressing c) :=
  fails_bind ((Value.serializeList_fails c.operands).ofCodec codec) fun _ => fails_ok _

theorem Expression.compile_fails (codec : ∀ fault, p (.codec fault))
    (index : ∀ fault, p (.index fault)) (keyCondition : ∀ fault, p (.keyCondition fault))
    (s : Schema) (c : Condition Value) (kind : ExpressionKind) (explicit : Option String) :
    Fails p (compile s c kind explicit) := by
  cases kind with
  | keyCondition =>
    refine fails_bind ?_ fun key => fails_bind (s.address_fails index keyCondition key explicit)
      fun addressing => ofCondition_fails codec _ addressing c
    cases c.keyNames with
    | ok key => exact fails_ok key
    | error fault => exact fails_error (keyCondition fault)
  | filter => exact ofCondition_fails codec _ _ c
  | writeCondition => exact ofCondition_fails codec _ _ c

/-! ## Descriptions of tables -/

theorem Catalog.ofResponse_fails (catalog : ∀ fault, p (.catalog fault)) (table : String)
    (response : Response.DescribeTable) : Fails p (Catalog.ofResponse table response) := by
  have ofKeys (name : String) (keys : List KeyElement) (kind : IndexKind) :
      Fails p (Index.ofKeys name keys kind) := by
    unfold Index.ofKeys
    dsimp only
    split
    · exact fails_ok _
    · exact fails_error (catalog _)
  have listed (kind : IndexKind) (descriptions : List IndexDescription) :
      Fails p (ofDescriptions kind descriptions) := by
    induction descriptions with
    | nil => exact fails_ok _
    | cons d rest ih =>
      unfold ofDescriptions
      split
      · exact fails_bind (ofKeys _ _ _) fun _ => fails_bind ih fun _ => fails_ok _
      · exact fails_error (catalog _)
  have checked (indexes : List Index) : Fails p (ofIndexes indexes) := by
    unfold ofIndexes
    cases check indexes with
    | ok c => exact fails_ok c
    | error fault => exact fails_error (catalog fault)
  unfold ofResponse
  split
  · exact fails_bind (ofKeys _ _ _) fun _ => fails_bind (listed _ _) fun _ =>
      fails_bind (listed _ _) fun _ => checked _
  · exact fails_error (catalog _)

end WideColumn
