import WideColumn.Proofs.Expression.Closed
import WideColumn.Proofs.Update.Effect
import Mathlib.Logic.Relator

/-! Texts carry no data. What is written of a condition depends on its shape and on which of its
tests are about the same attribute, and what is written of an update on how many attributes it
sets and removes. So no name and no value can change what a text says. -/
namespace WideColumn

open Outcome Placeholder

theorem Test.map_number_of_shape {t : Test α} {u : Test β}
    (same : t.map (fun _ => ()) = u.map (fun _ => ())) (f : Nat → γ) (next : Nat) :
    (t.number next).map f = (u.number next).map f := by
  cases t <;> cases u <;> simp_all [map, number]

namespace Condition

/-- The constructors and operators of a condition, and how many candidates its tests have. -/
def shape (c : Condition α) : Condition Unit := c.map (fun _ => "") (fun _ => ())

/-- Conditions that differ in names and operands only, and whose tests are about one attribute at
the same places. -/
structure Alike (c : Condition α) (d : Condition β) : Prop where
  shape : c.shape = d.shape
  sameName : ∀ i j : Nat, c.leafNames[i]? = c.leafNames[j]? ↔ d.leafNames[i]? = d.leafNames[j]?

section Shape

variable {c : Condition α} {d : Condition β} (same : c.shape = d.shape)
include same

theorem length_leafNames_of_shape : c.leafNames.length = d.leafNames.length := by
  have lengths := congrArg (fun shape => shape.leafNames.length) same
  simpa [shape, leafNames_map] using lengths

theorem length_operands_of_shape : c.operands.length = d.operands.length := by
  have lengths := congrArg (fun shape => shape.operands.length) same
  simpa [shape, operands_map] using lengths

theorem map_number_of_shape {f g : String → String}
    (names : c.leafNames.map f = d.leafNames.map g) (symbol : Nat → γ) (next : Nat) :
    (c.number next).map f symbol = (d.number next).map g symbol := by
  induction c generalizing d next with
  | leaf name test =>
    cases d with
    | leaf other test' =>
      obtain ⟨-, tests⟩ := leaf.inj same
      have name : f name = g other := by simpa [leafNames] using names
      simp only [number, map, name, Test.map_number_of_shape tests]
    | _ => cases same
  | and left right ihl ihr =>
    cases d with
    | and left' right' =>
      obtain ⟨sameLeft, sameRight⟩ := and.inj same
      have lengths : (left.leafNames.map f).length = (left'.leafNames.map g).length := by
        simpa using length_leafNames_of_shape sameLeft
      simp only [leafNames, List.map_append] at names
      obtain ⟨namesLeft, namesRight⟩ := List.append_inj names lengths
      simp only [number, map, length_operands_of_shape sameLeft, ihl sameLeft namesLeft,
        ihr sameRight namesRight]
    | _ => cases same
  | or left right ihl ihr =>
    cases d with
    | or left' right' =>
      obtain ⟨sameLeft, sameRight⟩ := or.inj same
      have lengths : (left.leafNames.map f).length = (left'.leafNames.map g).length := by
        simpa using length_leafNames_of_shape sameLeft
      simp only [leafNames, List.map_append] at names
      obtain ⟨namesLeft, namesRight⟩ := List.append_inj names lengths
      simp only [number, map, length_operands_of_shape sameLeft, ihl sameLeft namesLeft,
        ihr sameRight namesRight]
    | _ => cases same
  | not inner ih =>
    cases d with
    | not inner' => simp only [number, map, ih (not.inj same) names]
    | _ => cases same

end Shape

theorem collectNames_eq_foldl (c : Condition α) (names : List String) :
    c.collectNames names = c.leafNames.foldl appendNew names := by
  induction c generalizing names with
  | leaf name test => rfl
  | and left right ihl ihr => simp [collectNames, leafNames, ihl, ihr]
  | or left right ihl ihr => simp [collectNames, leafNames, ihl, ihr]
  | not inner ih => exact ih names

section Numbering

/-- Lists in which names that correspond have the same place, or none. -/
structure Numbered (R : String → String → Prop) (names others : List String) : Prop where
  length : names.length = others.length
  place : ∀ a b, R a b → names.idxOf a = others.idxOf b

variable {R : String → String → Prop} {names others : List String}

theorem Numbered.mem_iff (numbered : Numbered R names others) (related : R a b) :
    a ∈ names ↔ b ∈ others := by
  rw [← List.idxOf_lt_length_iff, ← List.idxOf_lt_length_iff, numbered.place a b related,
    numbered.length]

variable (unique : Relator.BiUnique R)
include unique

theorem Numbered.appendNew (numbered : Numbered R names others) (related : R a b) :
    Numbered R (appendNew names a) (appendNew others b) := by
  have known := numbered.mem_iff related
  unfold Condition.appendNew
  by_cases member : b ∈ others
  · simpa [known.2 member, member] using numbered
  · have fresh : a ∉ names := mt known.1 member
    simp only [List.contains_iff_mem, fresh, member, if_false]
    constructor
    case length => simp [numbered.length]
    case place =>
      intro x y relatedToo
      have same : a = x ↔ b = y := by
        constructor
        · rintro rfl
          exact unique.2 related relatedToo
        · rintro rfl
          exact unique.1 related relatedToo
      have last : [a].idxOf x = [b].idxOf y := by
        by_cases here : a = x
        · simp [here, same.1 here]
        · simp [here, mt same.2 here]
      simp only [List.idxOf_append, numbered.mem_iff relatedToo, numbered.place x y relatedToo,
        numbered.length, last]

theorem Numbered.foldl (related : List.Forall₂ R xs ys) (numbered : Numbered R names others) :
    Numbered R (xs.foldl Condition.appendNew names) (ys.foldl Condition.appendNew others) := by
  induction related generalizing names others with
  | nil => exact numbered
  | cons here _ ih => exact ih (numbered.appendNew unique here)

end Numbering

namespace Alike

variable {c : Condition α} {d : Condition β}

/-- Names that some test has in the one condition and in the other. -/
def Corresponds (c : Condition α) (d : Condition β) (a b : String) : Prop :=
  ∃ i : Nat, c.leafNames[i]? = some a ∧ d.leafNames[i]? = some b

theorem biUnique (alike : c.Alike d) : Relator.BiUnique (Corresponds c d) := by
  constructor
  · rintro a b x ⟨i, first, second⟩ ⟨j, first', second'⟩
    have same := (alike.sameName i j).2 (second.trans second'.symm)
    exact Option.some.inj (first.symm.trans (same.trans first'))
  · rintro x a b ⟨i, first, second⟩ ⟨j, first', second'⟩
    have same := (alike.sameName i j).1 (first.trans first'.symm)
    exact Option.some.inj (second.symm.trans (same.trans second'))

theorem leafNames (alike : c.Alike d) :
    List.Forall₂ (Corresponds c d) c.leafNames d.leafNames := by
  rw [List.forall₂_iff_get]
  refine ⟨length_leafNames_of_shape alike.shape, fun i inside inside' => ⟨i, ?_, ?_⟩⟩
  · exact List.getElem?_eq_getElem inside
  · exact List.getElem?_eq_getElem inside'

/-- The names of alike conditions have the same numbers. -/
theorem idxOf_names (alike : c.Alike d) (related : Corresponds c d a b) :
    c.names.idxOf a = d.names.idxOf b := by
  have start : Numbered (Corresponds c d) [] [] := ⟨rfl, fun _ _ _ => rfl⟩
  have numbered := start.foldl alike.biUnique alike.leafNames
  rw [← collectNames_eq_foldl, ← collectNames_eq_foldl] at numbered
  exact numbered.place a b related

theorem symbolic (alike : c.Alike d) (kind : ExpressionKind) :
    c.symbolic kind = d.symbolic kind := by
  apply map_number_of_shape alike.shape
  apply List.forall₂_eq_eq_eq ▸ List.forall₂_map_left_iff.2 (List.forall₂_map_right_iff.2 _)
  exact alike.leafNames.imp fun a b related => by rw [alike.idxOf_names related]

end Alike

end Condition

namespace Expression

variable {kind : ExpressionKind}

theorem text_ofCondition (done : ofCondition kind addressing c = .ok e) :
    e.text = (c.symbolic kind).text := by
  simp only [ofCondition, bind_ok, pure_ok] at done
  obtain ⟨operands, -, rfl⟩ := done
  rfl

theorem text_compile (done : compile s c kind explicit = .ok e) :
    e.text = (c.symbolic kind).text := by
  cases kind with
  | keyCondition =>
    simp only [compile, bind_ok, mapError_ok] at done
    obtain ⟨key, -, addressing, -, done⟩ := done
    exact text_ofCondition done
  | filter => exact text_ofCondition done
  | writeCondition => exact text_ofCondition done

end Expression

/-- The request of an update says a patch, and its text is that of the patch's numbers. -/
theorem Record.updateRequest_patch {s : Schema} {r : Record}
    (done : r.updateRequest s condition = .ok (some request)) :
    ∃ p, request.patch = some p ∧
      request.update = some (Update.text p.sets.length p.removals.length) := by
  obtain ⟨changed, -, made⟩ := updateRequest_some done
  obtain ⟨stored, assigned, holds⟩ := changesUnder_ok made
  have names : stored.names = (r.diff s).assigned.names :=
    Entries.names_traverse (NameMap.traverse_ok.1 assigned)
  refine ⟨_, holds.patch fun none => ?_, holds.text⟩
  rw [Patch.targets, ← NameMap.names, names] at none
  -- without a target the two views agree on every name, and then nothing has changed
  have unchanged : (r.diff s).hasChanged = false := by
    rw [diff, Diff.not_hasChanged_iff]
    intro name
    have untouched : name ∉ (r.diff s).assigned.names ++ (r.diff s).removed.names := by simp [none]
    simpa using mt (Diff.mem_assigned_or_removed _ _ name).2 untouched
  rw [unchanged] at changed
  cases changed

/-- Conditions that differ in names and operands only have the same text, whatever schemas they are
compiled for, and updates that set equally many attributes and remove equally many have the same
text, whatever records they are of. -/
theorem Expression.text_eq_of_alike :
    (∀ (s s' : Schema) (c d : Condition Value) (kind : ExpressionKind)
      (explicit explicit' : Option String) (e e' : Expression), c.Alike d →
      compile s c kind explicit = .ok e → compile s' d kind explicit' = .ok e' → e.text = e'.text) ∧
    ∀ (s s' : Schema) (r r' : Record) (condition condition' : Option (Condition Value))
      (request request' : Request.UpdateItem),
      r.updateRequest s condition = .ok (some request) →
      r'.updateRequest s' condition' = .ok (some request') →
      ∃ p p', request.patch = some p ∧ request'.patch = some p' ∧
        (p.sets.length = p'.sets.length → p.removals.length = p'.removals.length →
          request.update = request'.update) := by
  constructor
  · intro s s' c d kind explicit explicit' e e' alike compiled compiled'
    rw [text_compile compiled, text_compile compiled', alike.symbolic kind]
  · intro s s' r r' condition condition' request request' sent sent'
    obtain ⟨p, reads, text⟩ := Record.updateRequest_patch sent
    obtain ⟨p', reads', text'⟩ := Record.updateRequest_patch sent'
    exact ⟨p, p', reads, reads', fun sets removals => by rw [text, text', sets, removals]⟩

namespace Orders

def plain : Condition Value :=
  .or (.leaf "kind" (.compare .eq (.string "new")))
    (.and (.leaf "note" (.isIn [.null, .string "a"])) (.leaf "kind" .absent))

/-- A name and operands that are written like parts of a text. -/
def hostile : Condition Value :=
  .or (.leaf "#a) OR attribute_exists(#b" (.compare .eq (.string ":v OR :v = :v")))
    (.and (.leaf "kind" (.isIn [.string ") OR (", .int 1])) (.leaf "#a) OR attribute_exists(#b" .absent))

theorem plain_alike_hostile : plain.Alike hostile := by
  refine ⟨rfl, ?_⟩
  rintro (_ | _ | _ | i) (_ | _ | _ | j) <;> simp [plain, hostile, Condition.leafNames]

def noted (value : Value) : Record := created.attempt schema ⟨"note", some value⟩

end Orders

theorem Expression.text_eq_of_alike_hostile :
    Orders.plain.Alike Orders.hostile ∧
      (∃ e e', compile Orders.schema Orders.plain .filter none = .ok e ∧
        compile Orders.schema Orders.hostile .filter none = .ok e' ∧ e.text = e'.text ∧
        e'.names.get? "#attribute_name0" = some "#a) OR attribute_exists(#b") ∧
      ∃ request request',
        (Orders.noted (.int 1)).updateRequest Orders.schema none = .ok (some request) ∧
        (Orders.noted (.string "REMOVE #pk")).updateRequest Orders.schema (some Orders.hostile) =
          .ok (some request') ∧
        request.update = request'.update := by
  obtain ⟨conditions, updates⟩ := text_eq_of_alike
  refine ⟨Orders.plain_alike_hostile, ⟨_, _, rfl, rfl, ?_, rfl⟩, ?_⟩
  · exact conditions Orders.schema Orders.schema _ _ .filter none none _ _ Orders.plain_alike_hostile
      rfl rfl
  · have sent : ∃ request,
        (Orders.noted (.int 1)).updateRequest Orders.schema none = .ok (some request) ∧
        request.patch.map (fun p => (p.sets.length, p.removals.length)) = some (1, 0) :=
      ⟨_, rfl, rfl⟩
    have sent' : ∃ request, (Orders.noted (.string "REMOVE #pk")).updateRequest Orders.schema
          (some Orders.hostile) = .ok (some request) ∧
        request.patch.map (fun p => (p.sets.length, p.removals.length)) = some (1, 0) :=
      ⟨_, rfl, rfl⟩
    obtain ⟨request, sent, size⟩ := sent
    obtain ⟨request', sent', size'⟩ := sent'
    obtain ⟨p, p', reads, reads', same⟩ := updates _ _ _ _ _ _ _ _ sent sent'
    rw [reads] at size
    rw [reads'] at size'
    obtain ⟨sets, removals⟩ := Prod.mk.inj (Option.some.inj size)
    obtain ⟨sets', removals'⟩ := Prod.mk.inj (Option.some.inj size')
    exact ⟨request, request', sent, sent',
      same (sets.trans sets'.symm) (removals.trans removals'.symm)⟩

end WideColumn
