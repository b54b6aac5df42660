import WideColumn.Proofs.Codec.Reread
import WideColumn.Proofs.Table.PrimaryKey

/-! Joined attributes and the keys they feed, before and after a record is stored and loaded again.
What is loaded of a source is what its value is read back as, whether the source itself or a key in
its place was stored. The joined text is computed from that again, so it is the stored one exactly
when all sources are steady, and the primary key follows what feeds it. -/
namespace WideColumn

open Outcome Text

/-- Both missing, or the second what the first is read back as. -/
abbrev RereadAs : Option Value → Option Value → Prop :=
  Option.Rel fun v back => ∃ w, v.serialize = .ok w ∧ Value.Reread v w back

theorem deserializeItem_reread {values : NameMap Value} (stored : serializeItem values = .ok item) :
    ∃ raw, deserializeItem item = .ok raw ∧ ∀ name, RereadAs (values.get? name) (raw.get? name) := by
  cases decoded : deserializeItem item with
  | error e =>
    obtain ⟨name, w, inItem, refused⟩ := NameMap.traverse_error decoded
    obtain ⟨v, -, written⟩ := NameMap.get?_of_traverse stored inItem
    obtain ⟨back, value⟩ := Value.reread written
    cases refused.symm.trans value.read
  | ok raw =>
    refine ⟨raw, rfl, fun name => ?_⟩
    cases held : values.get? name with
    | none =>
      have missing : raw.contains name = false := by
        rw [NameMap.contains_traverse decoded, NameMap.contains_traverse stored]
        exact NameMap.get?_eq_none_iff.1 held
      rw [NameMap.get?_eq_none_iff.2 missing]
      exact .none
    | some v =>
      obtain ⟨w, inItem, written⟩ := NameMap.traverse_get?_ok stored held
      obtain ⟨back, found, read⟩ := NameMap.traverse_get?_ok decoded inItem
      obtain ⟨again, value⟩ := Value.reread written
      obtain rfl := Except.ok.inj (value.read.symm.trans read)
      rw [found]
      exact .some ⟨w, written, value⟩

namespace RereadAs

theorem or (first : RereadAs a b) (second : RereadAs c d) : RereadAs (a.or c) (b.or d) := by
  cases first with
  | some value => exact .some value
  | none => simpa using second

theorem findSome? {f g : String → Option Value} (each : ∀ name, RereadAs (f name) (g name))
    (names : List String) : RereadAs (names.findSome? f) (names.findSome? g) := by
  induction names with
  | nil => exact .none
  | cons name rest ih =>
    rw [List.findSome?_cons, List.findSome?_cons]
    have here := each name
    cases found : f name <;> cases found' : g name <;> rw [found, found'] at here
    · exact ih
    · cases here
    · cases here
    · exact here

end RereadAs

namespace Joined

variable {values others : NameMap Value}

theorem segment_reread (reread : RereadAs (values.get? source) (others.get? source)) :
    SameIff Value.Open (∀ v, values.get? source = some v → v.Steady)
      (segment others source).toList (segment values source).toList := by
  unfold segment
  cases held : values.get? source <;> cases found : others.get? source <;> rw [held, found] at reread
  · exact .refl (by simp) _
  · cases reread
  · cases reread
  · cases reread with
    | some value =>
      obtain ⟨w, -, value⟩ := value
      exact value.segment.congr (by simp)

/-- The text of a joined attribute is the same exactly when each source has the same segment. -/
theorem compute_reread {j : Joined}
    (reread : ∀ source ∈ j.sources, RereadAs (values.get? source) (others.get? source)) :
    j.compute others = j.compute values ↔
      ∀ source ∈ j.sources, ∀ v, values.get? source = some v → v.Steady := by
  have each : List.Forall₂ (fun source other => SameIff Value.Open
      (∀ v, values.get? source = some v → v.Steady) (segment others other).toList
      (segment values source).toList) j.sources j.sources :=
    List.forall₂_same.2 fun source named => segment_reread (reread source named)
  have whole := SameIff.intercalate j.separator.toList (fun _ => trivial) each
  have nothing : Value.Open [] := trivial
  rw [compute, compute, Value.string.injEq, ← String.toList_inj, String.toList_intercalate,
    String.toList_intercalate, List.map_map, List.map_map]
  exact whole.eq_iff nothing

end Joined

namespace Schema

variable {s : Schema} {values raw : NameMap Value}

/-- A declared attribute is loaded as its value is read back, from its own place or from a key. -/
theorem restore_reread (valid : s.Valid) (inStep : s.InStep values)
    (noOrphans : s.storeAliases = false → s.NoOrphans values)
    (reread : ∀ name, RereadAs ((s.persisted values).get? name) (raw.get? name))
    (declared : s.isDeclared name) : RereadAs (values.get? name) ((s.restore raw).get? name) := by
  have itself : values.get? name = (s.recovered (s.persisted values)).get? name := by
    rw [← restore_declared valid _ declared, restore_persisted valid inStep noOrphans]
  rw [itself, restore_declared valid raw declared, get?_recovered, get?_recovered, if_pos declared,
    if_pos declared]
  refine (reread name).or ?_
  split
  · exact .none
  · exact .findSome? reread _

end Schema

namespace Record

def Steady (r : Record) (j : Joined) : Prop :=
  ∀ source ∈ j.sources, ∀ v, r.get? source = some v → v.Steady

/-- What the source of a key needs for the key to be the same: steady sources when it is joined,
and no negative zero when it is declared. -/
structure KeepsKey (s : Schema) (r : Record) (source : String) : Prop where
  joined : ∀ j ∈ s.joined, j.target = source → r.Steady j
  declared : s.isDeclared source → ∀ v, r.get? source = some v → ∀ x ∈ v.doubles, x ≠ .negativeZero

variable {s : Schema} {r : Record} {raw : NameMap Value} (valid : s.Valid)
  (inStep : s.InStep r.values) (noOrphans : s.NoOrphans r.values)
  (reread : ∀ name, RereadAs ((s.persisted r.values).get? name) (raw.get? name))
include valid inStep noOrphans reread

theorem restore_joined_reread (member : j ∈ s.joined) :
    ∃ text again, r.get? j.target = some (.string text) ∧
      (s.restore raw).get? j.target = some (.string again) ∧ (again = text ↔ r.Steady j) := by
  have same := Joined.compute_reread (j := j) fun source named =>
    Schema.restore_reread valid inStep (fun _ => noOrphans) reread
      (valid.sourcesDeclared j member source named)
  rw [Joined.compute, Joined.compute, Value.string.injEq] at same
  exact ⟨_, _, inStep.joined j member, Schema.restore_joined valid raw member, same⟩

theorem restore_key_reread (pair : (name, source) ∈ s.keys.pairs) (found : r.get? name = some value)
    (serialized : value.serialize = .ok wire) :
    ∃ back again, (s.restore raw).get? name = some back ∧ back.serialize = .ok again ∧
      (again = wire ↔ KeepsKey s r source) := by
  have fed : r.values.get? source = some value := by
    rw [← inStep.get?_key noOrphans pair]
    exact found
  have restored := Schema.restore_key valid raw pair
  rcases valid.keySource _ _ pair with declared | joined
  · have rel := Schema.restore_reread valid inStep (fun _ => noOrphans) reread declared
    rw [fed] at rel
    generalize loaded : (s.restore raw).get? source = here at rel
    cases rel with
    | @some _ back rel =>
      obtain ⟨w, written, rereads⟩ := rel
      obtain rfl := Except.ok.inj (serialized.symm.trans written)
      obtain ⟨again, stored, same⟩ := rereads.again
      rw [loaded, Option.some_or] at restored
      refine ⟨back, again, restored, stored, same.trans ⟨fun clean => ⟨?_, ?_⟩, fun keeps => ?_⟩⟩
      · rintro j member rfl
        exact absurd declared (valid.targetUndeclared j member)
      · intro _ v held
        obtain rfl := Option.some.inj (fed.symm.trans held)
        exact clean
      · exact keeps.declared declared _ fed
  · obtain ⟨j, member, rfl⟩ := Schema.isJoined_iff.1 joined
    obtain ⟨text, again, own, loaded, same⟩ :=
      restore_joined_reread valid inStep noOrphans reread member
    obtain rfl := Option.some.inj (fed.symm.trans own)
    cases serialized
    rw [loaded, Option.some_or] at restored
    refine ⟨_, _, restored, rfl, ?_⟩
    rw [WireValue.string.injEq, same]
    refine ⟨fun steady => ⟨?_, ?_⟩, fun keeps => keeps.joined j member rfl⟩
    · intro k other target
      rwa [valid.joined_unique other member target]
    · exact fun declared => absurd declared (valid.targetUndeclared j member)

theorem restore_primaryKey_reread (built : s.Built) (made : r.primaryKey s = .ok key) :
    ∃ again, s.keyOf (s.restore raw) = .ok again ∧
      (again = key ↔ ∀ name source, (name, source) ∈ s.primary.keySources → r.KeepsKey s source) := by
  have held {name source : String} (fed : (name, source) ∈ s.primary.keySources) :
      ∃ wire back again, key.get? name = some wire ∧ (s.restore raw).get? name = some back ∧
        back.serialize = .ok again ∧ (again = wire ↔ r.KeepsKey s source) := by
    obtain ⟨value, wire, found, serialized, inKey⟩ :=
      (Schema.keyOf_ok made).2 name (BoundIndex.mem_keyAttributes fed)
    obtain ⟨back, again, loaded, stored, same⟩ := restore_key_reread valid inStep noOrphans reread
      (built.primary_pair fed) found serialized
    exact ⟨wire, back, again, inKey, loaded, stored, same⟩
  have whole : ∀ name ∈ s.primary.index.keyAttributes, ∃ back again,
      (s.restore raw).get? name = some back ∧ back.serialize = .ok again := by
    intro name member
    obtain ⟨source, fed⟩ := built.primary_fed member
    obtain ⟨-, back, again, -, loaded, stored, -⟩ := held fed
    exact ⟨back, again, loaded, stored⟩
  obtain ⟨again, remade⟩ := Schema.keyOf_total whole
  have agrees {name source : String} (fed : (name, source) ∈ s.primary.keySources) :
      again.get? name = key.get? name ↔ r.KeepsKey s source := by
    obtain ⟨wire, back, w, inKey, loaded, stored, same⟩ := held fed
    obtain ⟨value, w', found, serialized, inAgain⟩ :=
      (Schema.keyOf_ok remade).2 name (BoundIndex.mem_keyAttributes fed)
    obtain rfl := Option.some.inj (loaded.symm.trans found)
    obtain rfl := Except.ok.inj (stored.symm.trans serialized)
    rw [inKey, inAgain, Option.some.injEq, same]
  refine ⟨again, remade, ?_⟩
  rw [Schema.keyOf_eq_iff made remade]
  constructor
  · exact fun agree name source fed => (agrees fed).1 (agree name (BoundIndex.mem_keyAttributes fed))
  · intro keeps name member
    obtain ⟨source, fed⟩ := built.primary_fed member
    exact (agrees fed).2 (keeps name source fed)

end Record

/-- Every record that was created and can be stored is loaded again. A joined attribute and the
keys that it feeds have the same text then exactly when all its sources are steady, and the primary
key is the one that the item was stored under exactly when what feeds it keeps it. -/
theorem Record.load_rejoined {s : Schema} (built : s.Built) (reached : Reached s (.created inputs) r)
    (stored : r.toItem s = .ok item) :
    ∃ loaded, Record.load s item = .ok loaded ∧
      (∀ j ∈ s.joined, ∃ text again, r.get? j.target = some (.string text) ∧
        loaded.get? j.target = some (.string again) ∧ (again = text ↔ r.Steady j) ∧
        ∀ key, (key, j.target) ∈ s.bindings.flatMap BoundIndex.keySources →
          r.get? key = some (.string text) ∧ item.get? key = some (.string text) ∧
          loaded.get? key = some (.string again)) ∧
      ∀ key, r.primaryKey s = .ok key →
        (∀ name ∈ s.primary.index.keyAttributes, item.get? name = key.get? name) ∧
        ∃ again, loaded.primaryKey s = .ok again ∧
          (again = key ↔ ∀ name source, (name, source) ∈ s.primary.keySources → r.KeepsKey s source) := by
  have valid := built.valid
  have inStep := reached.inStep valid
  have noOrphans := reached.noOrphans valid trivial
  obtain ⟨raw, decoded, reread⟩ := deserializeItem_reread stored
  refine ⟨⟨s.restore raw, s.restore raw⟩, by simp [load, decoded, pure, Except.pure], ?_, ?_⟩
  · intro j member
    obtain ⟨text, again, own, loaded, same⟩ := restore_joined_reread valid inStep noOrphans reread member
    refine ⟨text, again, own, loaded, same, fun key bound => ?_⟩
    have pair := (valid.bound _).2 bound
    have held := inStep.keys _ _ _ pair own
    refine ⟨held, ?_, (Schema.restore_inStep valid raw).keys _ _ _ pair loaded⟩
    have inItem := get?_toItem stored key
    rw [Schema.get?_persisted_key _ pair, held] at inItem
    simpa [Value.serialize] using inItem
  · intro key made
    refine ⟨fun name member => ?_, restore_primaryKey_reread valid inStep noOrphans reread built made⟩
    obtain ⟨wire, inKey, inItem⟩ := toItem_primaryKey built made stored member
    rw [inItem, inKey]

/-! A schema whose primary key is fed by a joined attribute. -/
namespace Ledger

def catalog : Catalog := ⟨[.primary "pk" none], .primary "pk" none⟩

def draft : Draft where
  table := "ledger"
  catalog := catalog
  attributes := ["account", "amount"]
  joined := [⟨"entry", ["account", "amount"], "~"⟩]
  bindings := [⟨"table", some "entry", none⟩]

def schema : Schema where
  table := "ledger"
  catalog := catalog
  attributes := ["account", "amount"]
  required := []
  primary := ⟨.primary "pk" none, "entry", none⟩
  secondary := []
  joined := [⟨"entry", ["account", "amount"], "~"⟩]
  mutators := []
  immutable := []
  storeAliases := true
  keys := ⟨[("pk", "entry")]⟩

theorem built : schema.Built := ⟨catalog.indexes, draft, rfl, rfl⟩

def inputs (amount : Value) : NameMap Value :=
  NameMap.ofList [("account", .string "a1"), ("amount", amount)]

end Ledger

theorem Record.load_rejoined_tenth : ∃ r item key,
    Reached Ledger.schema (.created (Ledger.inputs (.list [.float .tenth]))) r ∧
      r.toItem Ledger.schema = .ok item ∧ r.primaryKey Ledger.schema = .ok key ∧
      ∃ loaded, Record.load Ledger.schema item = .ok loaded ∧
        loaded.get? "entry" = r.get? "entry" ∧ loaded.primaryKey Ledger.schema = .ok key := by
  obtain ⟨r, item, key, reached, stored, made, account, amount⟩ : ∃ r item key,
      Reached Ledger.schema (.created (Ledger.inputs (.list [.float .tenth]))) r ∧
      r.toItem Ledger.schema = .ok item ∧ r.primaryKey Ledger.schema = .ok key ∧
      r.get? "account" = some (.string "a1") ∧ r.get? "amount" = some (.list [.float .tenth]) :=
    ⟨_, _, _, .start rfl, rfl, rfl, rfl, rfl⟩
  have entry : (⟨"entry", ["account", "amount"], "~"⟩ : Joined) ∈ Ledger.schema.joined :=
    List.mem_cons_self
  have fraction : Double.tenth.toInt? = none := by decide +kernel
  have steady : r.Steady ⟨"entry", ["account", "amount"], "~"⟩ := by
    intro source named v found
    simp only [List.mem_cons, List.not_mem_nil, or_false] at named
    rcases named with rfl | rfl
    · obtain rfl := Option.some.inj (account.symm.trans found)
      simp [Value.Steady, Value.doubles]
    · obtain rfl := Option.some.inj (amount.symm.trans found)
      simp [Value.Steady, Value.doubles, Value.doublesOf, Double.Integral64, fraction]
  obtain ⟨loaded, hload, texts, keys⟩ := Record.load_rejoined Ledger.built reached stored
  obtain ⟨text, again, own, there, same, -⟩ := texts _ entry
  obtain ⟨-, again', remade, keeps⟩ := keys key made
  have kept : again' = key := by
    refine keeps.2 fun name source fed => ?_
    obtain ⟨rfl, rfl⟩ : name = "pk" ∧ source = "entry" := by
      simpa [Ledger.schema, BoundIndex.keySources, Index.primary] using fed
    refine ⟨fun j member _ => ?_, fun declared => ?_⟩
    · obtain rfl := List.mem_singleton.1 member
      exact steady
    · cases declared
  refine ⟨r, item, key, reached, stored, made, loaded, hload, ?_, kept ▸ remade⟩
  rw [own, there, same.2 steady]

/-- Not every joined attribute has the same text when it is loaded again: the sign of a zero is
lost, and the primary key is another one. -/
theorem Record.not_load_rejoined : ¬∀ (s : Schema) (inputs : NameMap Value) (r : Record) (item : Item),
    s.Built → Reached s (.created inputs) r → r.toItem s = .ok item →
    ∃ loaded, Record.load s item = .ok loaded ∧
      (∀ j ∈ s.joined, loaded.get? j.target = r.get? j.target) ∧
      loaded.primaryKey s = r.primaryKey s := by
  intro always
  obtain ⟨r, item, back, reached, stored, made, loadedBack, again⟩ : ∃ r item back,
      Reached Ledger.schema (.created (Ledger.inputs (.float .negativeZero))) r ∧
      r.toItem Ledger.schema = .ok item ∧ r.primaryKey Ledger.schema =
        .ok (NameMap.empty.insert "pk" (.string "a1~-0")) ∧
      Record.load Ledger.schema item = .ok back ∧ back.primaryKey Ledger.schema =
        .ok (NameMap.empty.insert "pk" (.string "a1~0")) :=
    ⟨_, _, _, .start rfl, rfl, rfl, rfl, rfl⟩
  obtain ⟨loaded, hload, -, same⟩ := always Ledger.schema _ r item Ledger.built reached stored
  obtain rfl := Except.ok.inj (hload.symm.trans loadedBack)
  have keys := congrArg (fun key : Key => key.get? "pk") (Except.ok.inj (again.symm.trans (same.trans made)))
  have texts := WireValue.string.inj (Option.some.inj keys)
  exact absurd texts (by decide)

end WideColumn
