import WideColumn.Proofs.Diff
import WideColumn.Proofs.Fault
import WideColumn.Proofs.Record.InStep
import WideColumn.Proofs.Update.Reader

/-! What an update does to the stored object. The patch that a request says, resolved through
the tables of the request, sets what the difference assigns and removes what it removes;
from the stored snapshot it leads to what is stored of the current values. -/
namespace WideColumn

open Outcome Placeholder

namespace Diff

theorem change?_new (old new : Option Value) :
    (if old.isSome then none else new).or ((change? old new).map (·.new)) =
      if old == new then none else new := by
  rcases old with _ | old <;> rcases new with _ | new
  · rfl
  · rfl
  · rfl
  · cases equal : old == new <;> simp [change?, equal]

theorem agree_cases {old new : Option Value} (agree : old == new) :
    (old = none ∧ new = none) ∨ ∃ v w, old = some v ∧ new = some w ∧ v == w := by
  rcases old with _ | v <;> rcases new with _ | w
  · exact .inl ⟨rfl, rfl⟩
  · cases agree
  · cases agree
  · exact .inr ⟨v, w, rfl, rfl, agree⟩

theorem differ_cases {old new : Option Value} (differ : (old == new) = false) :
    (∃ w, new = some w) ∨ ∃ v, old = some v ∧ new = none := by
  rcases old with _ | v <;> rcases new with _ | w
  · cases differ
  · exact .inl ⟨w, rfl⟩
  · exact .inr ⟨v, rfl, rfl⟩
  · exact .inl ⟨w, rfl⟩

variable (snapshot current : NameMap Value) (name : String)

theorem get?_assigned : (compute snapshot current).assigned.get? name =
    if snapshot.get? name == current.get? name then none else current.get? name := by
  have added := get?_added snapshot current name
  have changed := get?_changed snapshot current name
  rw [assigned, NameMap.get?_union, NameMap.get?_map, added, changed]
  exact change?_new _ _

theorem mem_removed : name ∈ (compute snapshot current).removed.names ↔
    (snapshot.get? name).isSome ∧ current.get? name = none := by
  have removed := get?_removed snapshot current name
  rw [NameMap.mem_names, NameMap.contains, removed]
  by_cases present : current.contains name
  · have some : current.get? name ≠ none := Option.isSome_iff_ne_none.1 present
    simp [present, some]
  · have none : current.get? name = none := by simpa [NameMap.contains] using present
    simp [present, none]

/-- What is set or removed is what the two maps do not agree on. -/
theorem mem_assigned_or_removed :
    name ∈ (compute snapshot current).assigned.names ++ (compute snapshot current).removed.names ↔
      (snapshot.get? name == current.get? name) = false := by
  rw [List.mem_append, NameMap.mem_names, NameMap.contains, get?_assigned, mem_removed]
  cases agree : snapshot.get? name == current.get? name with
  | true =>
    rcases agree_cases agree with ⟨old, new⟩ | ⟨v, w, old, new, -⟩
    · simp [old]
    · simp [new]
  | false =>
    rcases differ_cases agree with ⟨w, new⟩ | ⟨v, old, new⟩
    · simp [new]
    · simp [old, new]

theorem nodup_assigned_removed :
    ((compute snapshot current).assigned.names ++ (compute snapshot current).removed.names).Nodup := by
  refine List.nodup_append.2 ⟨NameMap.nodup_names _, NameMap.nodup_names _, ?_⟩
  intro name assigned other removed same
  subst same
  have missing := ((mem_removed snapshot current name).1 removed).2
  rw [NameMap.mem_names, NameMap.contains, get?_assigned, missing, ite_self] at assigned
  cases assigned

end Diff

/-- The values alone are stored as they are behind their names. -/
theorem Value.traverse_of_serializeList {entries : List (String × Value)} {stored : List WireValue}
    (done : serializeList (entries.map Prod.snd) = .ok stored) :
    ∃ results, Entries.traverse serialize entries = .ok results ∧ results.map Prod.snd = stored := by
  induction entries generalizing stored with
  | nil => cases done; exact ⟨[], rfl, rfl⟩
  | cons entry rest ih =>
    simp only [List.map_cons, serializeList, bind_ok, pure_ok] at done
    obtain ⟨w, hw, ws, hws, rfl⟩ := done
    obtain ⟨results, hresults, rfl⟩ := ih hws
    refine ⟨(entry.1, w) :: results, ?_, rfl⟩
    simp [Entries.traverse, hw, hresults]

def Request.UpdateItem.patch (request : Request.UpdateItem) : Option (Patch WireValue) := do
  let text ← request.update
  let symbolic ← Update.read text
  symbolic.resolve request.names.get? request.values.get?

theorem Patch.get?_apply (sets : NameMap α) (removals : List String) (m : NameMap α) (name : String) :
    ((⟨sets.entries, removals⟩ : Patch α).apply m).get? name =
      if name ∈ removals then none else (sets.get? name).or (m.get? name) := by
  rw [apply, NameMap.get?_eraseAll, NameMap.get?_insertAll]

/-- The tables of the request hold the names and the values of a patch, in its order. -/
structure Request.UpdateItem.Holds (request : Request.UpdateItem) (p : Patch WireValue) : Prop where
  text : request.update = some (Update.text p.sets.length p.removals.length)
  named : Serves (fun n => request.names.get? (numbered Update.nameStem n)) 0 p.targets
  valued : Serves (fun n => request.values.get? (numbered Update.valueStem n)) 0
    (p.sets.map Prod.snd)

namespace Request.UpdateItem

theorem Holds.patch {request : UpdateItem} {p : Patch WireValue} (holds : request.Holds p)
    (some : p.targets ≠ []) : request.patch = .some p := by
  have actions : p.sets.length + p.removals.length ≠ 0 := by
    intro none
    apply some
    apply List.eq_nil_of_length_eq_zero
    simpa [Patch.targets] using none
  have resolved := Update.resolve_symbolic holds.named holds.valued
  simp [UpdateItem.patch, holds.text, Update.read_text actions, resolved]

/-- A condition adds to the tables and replaces nothing. -/
theorem Holds.onlyIf {request : UpdateItem} {p : Patch WireValue} (holds : request.Holds p)
    (e : Expression) : (request.onlyIf e).Holds p := by
  constructor
  case text => exact holds.text
  case named => exact serves_union holds.named e.names
  case valued => exact serves_union holds.valued e.values

end Request.UpdateItem

namespace Record

variable {s : Schema} {r : Record}

/-- The request for a difference sets the stored form of what it assigns. -/
theorem changesRequest_ok {d : Diff} (done : r.changesRequest s d = .ok request) :
    ∃ stored, d.assigned.traverse Value.serialize = .ok stored ∧
      request.Holds ⟨stored.entries, d.removed.names⟩ := by
  simp only [changesRequest, bind_ok, pure_ok] at done
  obtain ⟨key, -, values, hvalues, rfl⟩ := done
  obtain ⟨results, hresults, rfl⟩ := Value.traverse_of_serializeList hvalues
  obtain ⟨stored, hstored, rfl⟩ := NameMap.traverse_of_entries hresults
  have names : stored.entries.map Prod.fst = d.assigned.names := Entries.names_traverse hresults
  refine ⟨stored, hstored, ?_⟩
  constructor
  case text =>
    have sets : stored.entries.length = d.assigned.size := by
      simpa [NameMap.names, NameMap.size] using congrArg List.length names
    simp [sets, NameMap.names, NameMap.size]
  case named =>
    rw [Patch.targets, names]
    exact serves_table _ _
  case valued => exact serves_table _ _

end Record

def MapperError.IsImmutable : MapperError → Prop
  | .immutable _ _ => True
  | _ => False

namespace Record

variable {s : Schema} {r : Record}

/-- The update of the changes under a condition, whatever the key attributes are. -/
def changesUnder (s : Schema) (r : Record) (condition : Option (Condition Value)) :
    Except MapperError Request.UpdateItem := do
  let request ← r.changesRequest s (r.diff s)
  match condition with
  | none => return request
  | some c => return request.onlyIf (← Expression.compile s c .writeCondition none)

theorem changesUnder_ok {condition : Option (Condition Value)}
    (done : r.changesUnder s condition = .ok request) :
    ∃ stored, (r.diff s).assigned.traverse Value.serialize = .ok stored ∧
      request.Holds ⟨stored.entries, (r.diff s).removed.names⟩ := by
  simp only [changesUnder, bind_ok] at done
  obtain ⟨base, hbase, done⟩ := done
  obtain ⟨stored, hstored, holds⟩ := changesRequest_ok hbase
  refine ⟨stored, hstored, ?_⟩
  cases condition with
  | none =>
    obtain rfl := pure_ok.1 done
    exact holds
  | some c =>
    simp only [bind_ok, pure_ok] at done
    obtain ⟨e, -, rfl⟩ := done
    exact holds.onlyIf e

theorem changesUnder_fails {p : MapperError → Prop} (codec : ∀ fault, p (.codec fault))
    (missing : ∀ name, p (.missingKeyValue name)) (s : Schema) (r : Record)
    (condition : Option (Condition Value)) : Fails p (r.changesUnder s condition) := by
  apply fails_bind (changesRequest_fails codec missing s r _)
  intro request
  cases condition with
  | none => exact fails_ok _
  | some c => exact fails_bind (Expression.ofCondition_fails codec _ _ c) fun _ => fails_ok _

theorem updateRequest_eq (condition : Option (Condition Value)) :
    r.updateRequest s condition =
      if (r.diff s).hasChanged then
        match s.primary.index.keyAttributes.find? (r.diff s).touches with
        | some name => .error (.immutable name .primaryKey)
        | none => (r.changesUnder s condition).map some
      else .ok none := by
  unfold updateRequest
  dsimp only
  cases changed : (r.diff s).hasChanged with
  | false => rfl
  | true =>
    cases s.primary.index.keyAttributes.find? (r.diff s).touches with
    | some name => rfl
    | none =>
      unfold changesUnder
      cases r.changesRequest s (r.diff s) with
      | error e => rfl
      | ok request =>
        cases condition with
        | none => rfl
        | some c =>
          simp only [ok_bind]
          cases Expression.compile s c .writeCondition none with
          | error e => rfl
          | ok e => rfl

end Record

section Effect

variable {snapshot current : NameMap Value} {item stored : Item}
  (before : serializeItem snapshot = .ok item)
  (assigned : (Diff.compute snapshot current).assigned.traverse Value.serialize = .ok stored)
include before assigned

/-- What the patch of a difference makes of the stored snapshot, attribute by attribute. -/
theorem Patch.effect (name : String) :
    let after := ((⟨stored.entries, (Diff.compute snapshot current).removed.names⟩ :
      Patch WireValue).apply item).get? name
    after.isSome = (current.get? name).isSome ∧
    ∀ value wire, current.get? name = some value → after = some wire →
      value.serialize = .ok wire ∨
        (item.get? name = some wire ∧ ∃ old, snapshot.get? name = some old ∧ old == value) := by
  intro after
  have stays := NameMap.get?_traverse before name
  have sets := NameMap.get?_traverse assigned name
  have removed := Diff.mem_removed snapshot current name
  have result : after = if name ∈ (Diff.compute snapshot current).removed.names then none
      else (stored.get? name).or (item.get? name) := Patch.get?_apply stored _ item name
  rw [Diff.get?_assigned] at sets
  cases agree : snapshot.get? name == current.get? name with
  | true =>
    -- Nothing is set and nothing is removed, so what is stored stays.
    have unset : stored.get? name = none := by simpa [agree] using sets
    rcases Diff.agree_cases agree with ⟨old, new⟩ | ⟨v, w, old, new, same⟩
    · have kept : name ∉ (Diff.compute snapshot current).removed.names := by simp [removed, old]
      have absent : item.get? name = none := by simpa [old] using stays
      rw [if_neg kept, unset, absent, Option.none_or] at result
      rw [result, new]
      exact ⟨rfl, fun _ _ none _ => by cases none⟩
    · have kept : name ∉ (Diff.compute snapshot current).removed.names := by simp [removed, new]
      rcases wire : item.get? name with _ | wire'
      · simp [old, wire] at stays
      · rw [if_neg kept, unset, wire, Option.none_or] at result
        rw [result, new, old]
        refine ⟨rfl, ?_⟩
        rintro value other ⟨⟩ ⟨⟩
        exact .inr ⟨rfl, v, rfl, same⟩
  | false =>
    simp only [agree, Bool.false_eq_true, if_false] at sets
    rcases Diff.differ_cases agree with ⟨w, new⟩ | ⟨v, old, new⟩
    · have kept : name ∉ (Diff.compute snapshot current).removed.names := by simp [removed, new]
      rcases wire : stored.get? name with _ | wire'
      · simp [new, wire] at sets
      · have form : w.serialize = .ok wire' := by simpa [new, wire] using sets.symm
        rw [if_neg kept, wire, Option.some_or] at result
        rw [result, new]
        refine ⟨rfl, ?_⟩
        rintro value other ⟨⟩ ⟨⟩
        exact .inl form
    · rw [if_pos (removed.2 ⟨by simp [old], new⟩)] at result
      rw [result, new]
      exact ⟨rfl, fun _ _ none _ => by cases none⟩

end Effect

namespace Record

variable {s : Schema} {r : Record}

theorem updateRequest_none_iff (condition : Option (Condition Value)) :
    r.updateRequest s condition = .ok none ↔ (r.diff s).hasChanged = false := by
  rw [updateRequest_eq]
  cases (r.diff s).hasChanged with
  | false => simp
  | true =>
    cases s.primary.index.keyAttributes.find? (r.diff s).touches with
    | some name => simp
    | none => simp [map_ok]

/-- A changed key attribute is the only reason to refuse an update as one of something immutable. -/
theorem updateRequest_immutable_iff (condition : Option (Condition Value)) :
    (∃ name fault, r.updateRequest s condition = .error (.immutable name fault)) ↔
      ∃ name ∈ s.primary.index.keyAttributes, (r.diff s).touches name := by
  rw [updateRequest_eq]
  constructor
  · rintro ⟨name, fault, refused⟩
    split at refused
    · cases found : s.primary.index.keyAttributes.find? (r.diff s).touches with
      | some key => exact ⟨key, List.mem_of_find?_eq_some found, List.find?_some found⟩
      | none =>
        simp only [found] at refused
        have unrelated : Fails (¬·.IsImmutable) (r.changesUnder s condition) :=
          changesUnder_fails (fun _ => id) (fun _ => id) s r condition
        exact absurd trivial (fails_map some unrelated _ refused)
    · cases refused
  · rintro ⟨name, member, touched⟩
    have changed : (r.diff s).hasChanged := by
      by_contra unchanged
      have untouched := Diff.not_hasChanged_iff_untouched.1 (Bool.not_eq_true _ ▸ unchanged) name
      simp [touched] at untouched
    cases found : s.primary.index.keyAttributes.find? (r.diff s).touches with
    | some key => exact ⟨key, .primaryKey, by simp [changed]⟩
    | none => exact absurd touched (List.find?_eq_none.1 found name member)

theorem updateRequest_some {condition : Option (Condition Value)}
    (done : r.updateRequest s condition = .ok (some request)) :
    (r.diff s).hasChanged ∧ s.primary.index.keyAttributes.find? (r.diff s).touches = none ∧
      r.changesUnder s condition = .ok request := by
  rw [updateRequest_eq] at done
  split at done
  · next changed =>
    split at done
    · cases done
    · next untouched =>
      obtain ⟨sent, hsent, ⟨⟩⟩ := map_ok.1 done
      exact ⟨changed, untouched, hsent⟩
  · cases done

/-- An update is refused for its key, is not needed, or brings the stored object up to date:
with the actions of its text on what was stored, every attribute is there that has a value, and
holds that value or one equal to it that it held before. -/
theorem updateRequest_effect (condition : Option (Condition Value))
    (before : serializeItem (s.persisted r.snapshot) = .ok item) :
    (r.updateRequest s condition = .ok none ↔
      ∀ name, (s.persisted r.snapshot).get? name == (s.persisted r.values).get? name) ∧
    ((∃ name fault, r.updateRequest s condition = .error (.immutable name fault)) ↔
      ∃ name ∈ s.primary.index.keyAttributes,
        ((s.persisted r.snapshot).get? name == (s.persisted r.values).get? name) = false) ∧
    ∀ request, r.updateRequest s condition = .ok (some request) →
      ∃ patch, request.patch = some patch ∧
        (∀ name, (patch.apply item).contains name = (s.persisted r.values).contains name) ∧
        (∀ name value wire, (s.persisted r.values).get? name = some value →
          (patch.apply item).get? name = some wire →
          value.serialize = .ok wire ∨ (item.get? name = some wire ∧
            ∃ old, (s.persisted r.snapshot).get? name = some old ∧ old == value)) ∧
        (∀ name ∈ s.primary.index.keyAttributes, name ∉ patch.targets) ∧ patch.targets.Nodup := by
  have touches (name : String) : (r.diff s).touches name =
      !((s.persisted r.snapshot).get? name == (s.persisted r.values).get? name) :=
    Diff.touches_eq _ _ name
  refine ⟨?_, ?_, ?_⟩
  · rw [updateRequest_none_iff, diff, Diff.not_hasChanged_iff]
  · simp only [updateRequest_immutable_iff, touches, Bool.not_eq_true']
  · intro request done
    obtain ⟨changed, untouched, made⟩ := updateRequest_some done
    obtain ⟨stored, assigned, holds⟩ := changesUnder_ok made
    have names : stored.names = (r.diff s).assigned.names :=
      Entries.names_traverse (NameMap.traverse_ok.1 assigned)
    have targets (name : String) :
        name ∈ (⟨stored.entries, (r.diff s).removed.names⟩ : Patch WireValue).targets ↔
          (r.diff s).touches name := by
      rw [Patch.targets, ← NameMap.names, names, touches, Bool.not_eq_true']
      exact Diff.mem_assigned_or_removed _ _ name
    have some : (⟨stored.entries, (r.diff s).removed.names⟩ : Patch WireValue).targets ≠ [] := by
      intro none
      have unchanged : (r.diff s).hasChanged = false := by
        rw [Diff.not_hasChanged_iff_untouched]
        intro name
        have untouched := (targets name).not.1 (by simp [none])
        simpa using untouched
      simp [unchanged] at changed
    have effect := Patch.effect before assigned
    refine ⟨_, holds.patch some, fun name => (effect name).1, fun name => (effect name).2, ?_, ?_⟩
    · intro name member target
      exact List.find?_eq_none.1 untouched name member ((targets name).1 target)
    · rw [Patch.targets, ← NameMap.names, names]
      exact Diff.nodup_assigned_removed _ _

end Record

namespace Orders

def itemCreated : Item :=
  NameMap.ofList [("at", .number "7"), ("kindAtKey", .string "new~7"), ("kindKey", .string "new"),
    ("pk", .string "a1")]

def unnoted : Condition Value := .leaf "note" .absent

end Orders

theorem Record.updateRequest_effect_withoutKind :
    serializeItem (Orders.schema.persisted Orders.withoutKind.snapshot) = .ok Orders.itemCreated ∧
      ∃ request patch,
        Orders.withoutKind.updateRequest Orders.schema (some Orders.unnoted) = .ok (some request) ∧
        request.update = some "SET #update_name0 = :update_value0 REMOVE #update_name1" ∧
        request.patch = some patch ∧ "pk" ∉ patch.targets ∧
        (patch.apply Orders.itemCreated).contains "kindKey" = false ∧
        (patch.apply Orders.itemCreated).contains "kindAtKey" = true := by
  have before : serializeItem (Orders.schema.persisted Orders.withoutKind.snapshot) =
      .ok Orders.itemCreated := rfl
  have sent : ∃ request,
      Orders.withoutKind.updateRequest Orders.schema (some Orders.unnoted) = .ok (some request) ∧
      request.update = some "SET #update_name0 = :update_value0 REMOVE #update_name1" := ⟨_, rfl, rfl⟩
  obtain ⟨request, sent, text⟩ := sent
  obtain ⟨-, -, effect⟩ := Record.updateRequest_effect (some Orders.unnoted) before
  obtain ⟨patch, reads, names, -, keys, -⟩ := effect request sent
  exact ⟨before, request, patch, sent, text, reads, keys "pk" (by decide), names "kindKey",
    names "kindAtKey"⟩

end WideColumn
