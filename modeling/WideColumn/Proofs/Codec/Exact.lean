import WideColumn.Proofs.Codec.Decimal
import WideColumn.Proofs.NameMap

/-! Values without doubles go to the store and come back unchanged: every number is an
integer, and its text is read back as the same integer. Without doubles equality is also
reflexive, since what is not a number is a double. A value that cannot be stored is refused
for its own sake and for nothing else. -/
namespace WideColumn

open Outcome

namespace Value

mutual

/-- No double at any depth. -/
def floatFree : Value → Bool
  | .float _ => false
  | .list items => floatFreeItems items
  | .map fields => floatFreeFields fields
  | .numberSet items => floatFreeItems items
  | _ => true

def floatFreeItems : List Value → Bool
  | [] => true
  | item :: rest => item.floatFree && floatFreeItems rest

def floatFreeFields : List (String × Value) → Bool
  | [] => true
  | (_, value) :: rest => value.floatFree && floatFreeFields rest

end

/-- A member of a stored number set is an integer when it is no double. -/
theorem memberText_back {v : Value} (exact : v.floatFree) (done : v.memberText = .ok text) :
    ofNumberText text = .ok v := by
  cases v with
  | int n => cases done; exact ofNumberText_toString n
  | float x => cases exact
  | _ => cases done

theorem memberTexts_back {items : List Value} (exact : floatFreeItems items)
    (done : memberTexts items = .ok texts) : ofNumberTexts texts = .ok items := by
  induction items generalizing texts with
  | nil => cases done; rfl
  | cons item rest ih =>
    obtain ⟨here, there⟩ := Bool.and_eq_true_iff.1 exact
    simp only [memberTexts, bind_ok, pure_ok] at done
    obtain ⟨text, htext, others, hrest, rfl⟩ := done
    simp only [ofNumberTexts, bind_ok, pure_ok]
    exact ⟨item, memberText_back here htext, rest, ih there hrest, rfl⟩

mutual

theorem deserialize_serialize : ∀ {v : Value} {w : WireValue}, v.floatFree → v.serialize = .ok w →
    w.deserialize = .ok v
  | .null, _, _, done => by cases done; rfl
  | .bool _, _, _, done => by cases done; rfl
  | .int n, _, _, done => by cases done; exact ofNumberText_toString n
  | .float _, _, exact, _ => by cases exact
  | .string _, _, _, done => by cases done; rfl
  | .bytes _, _, _, done => by cases done; rfl
  | .stringSet _, _, _, done => by cases done; rfl
  | .binarySet _, _, _, done => by cases done; rfl
  | .list items, _, exact, done => by
    obtain ⟨stored, hitems, rfl⟩ := map_ok.1 done
    exact map_ok.2 ⟨items, deserializeList_serializeList exact hitems, rfl⟩
  | .map fields, _, exact, done => by
    obtain ⟨stored, hfields, rfl⟩ := map_ok.1 done
    exact map_ok.2 ⟨fields, deserializeFields_serializeFields exact hfields, rfl⟩
  | .numberSet items, _, exact, done => by
    obtain ⟨texts, hitems, rfl⟩ := map_ok.1 done
    exact map_ok.2 ⟨items, memberTexts_back exact hitems, rfl⟩

theorem deserializeList_serializeList : ∀ {items : List Value} {stored : List WireValue},
    floatFreeItems items → serializeList items = .ok stored →
    WireValue.deserializeList stored = .ok items
  | [], _, _, done => by cases done; rfl
  | item :: rest, _, exact, done => by
    obtain ⟨here, there⟩ := Bool.and_eq_true_iff.1 exact
    simp only [serializeList, bind_ok, pure_ok] at done
    obtain ⟨first, hfirst, others, hrest, rfl⟩ := done
    simp only [WireValue.deserializeList, bind_ok, pure_ok]
    exact ⟨item, deserialize_serialize here hfirst, rest, deserializeList_serializeList there hrest,
      rfl⟩

theorem deserializeFields_serializeFields : ∀ {fields : List (String × Value)}
    {stored : List (String × WireValue)}, floatFreeFields fields →
    serializeFields fields = .ok stored → WireValue.deserializeFields stored = .ok fields
  | [], _, _, done => by cases done; rfl
  | (name, value) :: rest, _, exact, done => by
    obtain ⟨here, there⟩ := Bool.and_eq_true_iff.1 exact
    simp only [serializeFields, bind_ok, pure_ok] at done
    obtain ⟨first, hfirst, others, hrest, rfl⟩ := done
    simp only [WireValue.deserializeFields, bind_ok, pure_ok]
    exact ⟨value, deserialize_serialize here hfirst, rest,
      deserializeFields_serializeFields there hrest, rfl⟩

end

mutual

theorem same_self : ∀ {v : Value}, v.floatFree → same v v
  | .null, _ => rfl
  | .bool _, _ => by simp [same]
  | .int _, _ => by simp [same]
  | .float _, exact => by cases exact
  | .string _, _ => by simp [same]
  | .bytes _, _ => by simp [same]
  | .stringSet _, _ => by simp [same]
  | .binarySet _, _ => by simp [same]
  | .list _, exact => sameItems_self exact
  | .map _, exact => sameFields_self exact
  | .numberSet _, exact => sameItems_self exact

theorem sameItems_self : ∀ {items : List Value}, floatFreeItems items → sameItems items items
  | [], _ => rfl
  | _ :: _, exact => by
    obtain ⟨here, there⟩ := Bool.and_eq_true_iff.1 exact
    simp [sameItems, same_self here, sameItems_self there]

theorem sameFields_self : ∀ {fields : List (String × Value)}, floatFreeFields fields →
    sameFields fields fields
  | [], _ => rfl
  | (_, _) :: _, exact => by
    obtain ⟨here, there⟩ := Bool.and_eq_true_iff.1 exact
    simp [sameFields, same_self here, sameFields_self there]

end

end Value

def MapperError.IsCodec : MapperError → Prop
  | .codec _ => True
  | _ => False

namespace Value

theorem numberText_fails (x : Double) : Fails MapperError.IsCodec x.numberText := by
  unfold Double.numberText
  split
  · exact fails_ok _
  · exact fails_error trivial

theorem memberText_fails (v : Value) : Fails MapperError.IsCodec v.memberText := by
  cases v with
  | int n => exact fails_ok _
  | float x => exact numberText_fails x
  | _ => exact fails_error trivial

theorem memberTexts_fails (items : List Value) : Fails MapperError.IsCodec (memberTexts items) := by
  induction items with
  | nil => exact fails_ok _
  | cons item rest ih =>
    exact fails_bind (memberText_fails item) fun _ => fails_bind ih fun _ => fails_ok _

mutual

theorem serialize_fails : ∀ v : Value, Fails MapperError.IsCodec v.serialize
  | .null => fails_ok _
  | .bool _ => fails_ok _
  | .int _ => fails_ok _
  | .float x => fails_map _ (numberText_fails x)
  | .string _ => fails_ok _
  | .bytes _ => fails_ok _
  | .list items => fails_map _ (serializeList_fails items)
  | .map fields => fails_map _ (serializeFields_fails fields)
  | .stringSet _ => fails_ok _
  | .numberSet items => fails_map _ (memberTexts_fails items)
  | .binarySet _ => fails_ok _

theorem serializeList_fails : ∀ items : List Value, Fails MapperError.IsCodec (serializeList items)
  | [] => fails_ok _
  | item :: rest =>
    fails_bind (serialize_fails item) fun _ => fails_bind (serializeList_fails rest) fun _ =>
      fails_ok _

theorem serializeFields_fails : ∀ fields : List (String × Value),
    Fails MapperError.IsCodec (serializeFields fields)
  | [] => fails_ok _
  | (_, value) :: rest =>
    fails_bind (serialize_fails value) fun _ => fails_bind (serializeFields_fails rest) fun _ =>
      fails_ok _

end

end Value

/-- A stored object without doubles is read back as it was. -/
theorem deserializeItem_serializeItem {values : NameMap Value} {item : Item}
    (exact : ∀ name value, values.get? name = some value → value.floatFree)
    (done : serializeItem values = .ok item) : deserializeItem item = .ok values :=
  NameMap.traverse_back done fun name value found _ => Value.deserialize_serialize (exact name value found)

end WideColumn
