import WideColumn.Proofs.Record.Reload
import WideColumn.Proofs.Record.Immutable

/-! Writes to different attributes commute, as long as no mutator looks at the rest of the record.
Whether a write is accepted depends on its own attribute alone, and the declared attributes and
leftover keys, which determine values in step, end the same either way. -/
namespace WideColumn

open Outcome

namespace Schema

/-- No mutator looks at the record that it is applied in. -/
def OwnerFree (s : Schema) : Prop :=
  ∀ m ∈ s.mutators, ∀ value r r', m.apply value r = m.apply value r'

theorem OwnerFree.mutate {s : Schema} (ownerFree : s.OwnerFree) (name : String) (value : Value)
    (r r' : Record) : s.mutate name value r = s.mutate name value r' := by
  unfold Schema.mutate
  cases found : s.mutator? name with
  | none => rfl
  | some m => exact ownerFree m (by simpa using List.mem_of_find?_eq_some found) value r r'

section Commit

variable {s : Schema} (valid : s.Valid)
include valid

/-- A key of a declared attribute moves with the attribute alone. -/
theorem commit_key (declared : s.isDeclared name) (value : Option Value) (values : NameMap Value)
    (pair : (key, source) ∈ s.keys.pairs) (declaredSource : s.isDeclared source) :
    (s.commit name value values).get? key = if source = name then value else values.get? key := by
  by_cases own : source = name
  · subst own
    rw [if_pos rfl, commit_carried valid declared value values (.inr pair)]
  · rw [if_neg own]
    apply commit_frame
    · rintro (rfl | pair')
      · exact own (valid.ownSource _ _ pair declared)
      · exact own (valid.source_unique pair pair')
    · rintro j member - (rfl | pair')
      · exact valid.joined_noKey (isJoined_iff.2 ⟨j, member, rfl⟩) pair
      · exact valid.targetUndeclared j member (valid.source_unique pair pair' ▸ declaredSource)

theorem commit_comm (declaredA : s.isDeclared a) (declaredB : s.isDeclared b) (apart : a ≠ b)
    (x y : Option Value) {values : NameMap Value} (inStep : s.InStep values) :
    s.commit b y (s.commit a x values) = s.commit a x (s.commit b y values) := by
  have inStepAB := commit_inStep valid declaredB y (commit_inStep valid declaredA x inStep)
  have inStepBA := commit_inStep valid declaredA x (commit_inStep valid declaredB y inStep)
  apply InStep.ext valid inStepAB inStepBA
  case declared =>
    intro name declared
    simp only [commit_declared valid declaredA _ _ declared,
      commit_declared valid declaredB _ _ declared]
    by_cases isA : name = a
    · simp [isA, apart]
    · simp [isA]
  case leftover =>
    intro key source pair missing
    rcases valid.keySource _ _ pair with declared | joined
    · simp only [commit_key valid declaredA _ _ pair declared,
        commit_key valid declaredB _ _ pair declared]
      by_cases isA : source = a
      · simp [isA, apart]
      · simp [isA]
    · -- a joined attribute is never missing
      obtain ⟨j, member, rfl⟩ := isJoined_iff.1 joined
      rw [inStepAB.joined j member] at missing
      cases missing

end Commit

end Schema

namespace Record

variable {s : Schema}

/-- What the caller of a write is told. -/
def verdict (s : Schema) (r : Record) (w : Write) : Except MapperError Unit :=
  (r.write s w.name w.value).map fun _ => ()

def verdicts (s : Schema) : Record → List Write → List (Write × Except MapperError Unit)
  | _, [] => []
  | r, w :: rest => (w, r.verdict s w) :: verdicts s (r.attempt s w) rest

def assigned (s : Schema) (r : Record) (w : Write) : Option Value :=
  w.value.map fun v => s.mutate w.name v r

theorem assigned_congr (ownerFree : s.OwnerFree) (r r' : Record) (w : Write) :
    r.assigned s w = r'.assigned s w := by
  unfold assigned
  cases w.value with
  | none => rfl
  | some value => exact congrArg some (ownerFree.mutate w.name value r r')

theorem assign_eq (r : Record) (w : Write) : r.assign s w.name w.value =
    match r.admission s w.name (r.assigned s w) with
    | .write => .ok { r with values := s.commit w.name (r.assigned s w) r.values }
    | .keep => .ok r
    | .refuse => .error (.immutable w.name .setBefore) := rfl

/-- The write is accepted and something is left to be written. -/
def Accepts (s : Schema) (r : Record) (w : Write) : Prop :=
  s.isDeclared w.name ∧ r.admission s w.name (r.assigned s w) = .write

instance (s : Schema) (r : Record) (w : Write) : Decidable (r.Accepts s w) :=
  inferInstanceAs (Decidable (_ ∧ _))

theorem admission_congr {r r' : Record} (same : r.get? name = r'.get? name) (value : Option Value) :
    r.admission s name value = r'.admission s name value := by
  unfold get? at same
  simp only [admission, same]

theorem write_declared (valid : s.Valid) (r : Record) (declared : s.isDeclared name)
    (value : Option Value) : r.write s name value = r.assign s name value := by
  have plain : ¬s.isJoined name := fun joined => valid.joined_undeclared joined declared
  simp only [write, if_neg plain, checkWritable_ok.2 declared]
  rfl

theorem verdict_congr (ownerFree : s.OwnerFree) {r r' : Record} {w : Write}
    (same : s.isDeclared w.name → r.get? w.name = r'.get? w.name) :
    r.verdict s w = r'.verdict s w := by
  unfold verdict write
  cases s.isJoined w.name with
  | true => rfl
  | false =>
    cases writable : s.checkWritable w.name with
    | error e => rfl
    | ok =>
      have assignedSame : r.assigned s w = r'.assigned s w := assigned_congr ownerFree r r' w
      show (r.assign s w.name w.value).map _ = (r'.assign s w.name w.value).map _
      simp only [assign_eq, assignedSame, admission_congr (same (checkWritable_ok.1 writable))]
      cases r'.admission s w.name (r'.assigned s w) <;> rfl

section Valid

variable (valid : s.Valid)
include valid

theorem attempt_eq (r : Record) (w : Write) :
    r.attempt s w =
      if r.Accepts s w then { r with values := s.commit w.name (r.assigned s w) r.values }
      else r := by
  unfold attempt
  by_cases declared : s.isDeclared w.name
  · rw [write_declared valid r declared, assign_eq]
    cases admitted : r.admission s w.name (r.assigned s w) <;> simp [Accepts, declared, admitted]
  · rw [if_neg fun accepts => declared accepts.1]
    split
    · next done => exact absurd (write_ok done).1 declared
    · rfl

/-- A write reaches no declared attribute but its own. -/
theorem get?_attempt (r : Record) (w : Write) (declared : s.isDeclared name)
    (apart : name ≠ w.name) :
    (r.attempt s w).get? name = r.get? name := by
  rw [attempt_eq valid]
  split
  · next accepts =>
    exact (Schema.commit_declared valid accepts.1 _ _ declared).trans (if_neg apart)
  · rfl

theorem attempt_inStep {r : Record} (inStep : s.InStep r.values) (w : Write) :
    s.InStep (r.attempt s w).values := by
  rw [attempt_eq valid]
  split
  · next accepts => exact Schema.commit_inStep valid accepts.1 _ inStep
  · exact inStep

variable (ownerFree : s.OwnerFree)
include ownerFree

theorem verdict_attempt (r : Record) {v w : Write} (apart : w.name ≠ v.name) :
    (r.attempt s v).verdict s w = r.verdict s w :=
  verdict_congr ownerFree fun declared => get?_attempt valid r v declared apart

theorem accepts_attempt (r : Record) {v w : Write} (apart : w.name ≠ v.name) :
    (r.attempt s v).Accepts s w ↔ r.Accepts s w := by
  refine and_congr_right fun declared => ?_
  rw [assigned_congr ownerFree (r.attempt s v) r w,
    admission_congr (get?_attempt valid r v declared apart)]

/-- One order of two writes to different attributes is as good as the other. -/
theorem attempt_comm {r : Record} (inStep : s.InStep r.values) {v w : Write}
    (apart : v.name ≠ w.name) :
    (r.attempt s v).attempt s w = (r.attempt s w).attempt s v := by
  rw [attempt_eq valid (r.attempt s v) w, attempt_eq valid (r.attempt s w) v,
    assigned_congr ownerFree (r.attempt s v) r w, assigned_congr ownerFree (r.attempt s w) r v]
  simp only [accepts_attempt valid ownerFree r apart, accepts_attempt valid ownerFree r apart.symm]
  by_cases acceptsV : r.Accepts s v <;> by_cases acceptsW : r.Accepts s w
  · simp only [attempt_eq valid, acceptsV, acceptsW, if_true]
    rw [Schema.commit_comm valid acceptsV.1 acceptsW.1 apart _ _ inStep]
  · simp only [attempt_eq valid, acceptsV, acceptsW, if_true, if_false]
  · simp only [attempt_eq valid, acceptsV, acceptsW, if_true, if_false]
  · simp only [attempt_eq valid, acceptsV, acceptsW, if_false]

/-- With different names every write is told what it would be told first. -/
theorem verdicts_eq (r : Record) {writes : List Write} (apart : (writes.map Write.name).Nodup) :
    r.verdicts s writes = writes.map fun w => (w, r.verdict s w) := by
  induction writes generalizing r with
  | nil => rfl
  | cons v rest ih =>
    obtain ⟨fresh, apart⟩ := List.nodup_cons.1 apart
    rw [verdicts, List.map_cons, ih _ apart]
    refine congrArg _ (List.map_congr_left fun w member => ?_)
    rw [verdict_attempt valid ownerFree r]
    rintro same
    exact fresh (same ▸ List.mem_map_of_mem member)

theorem attemptAll_perm {r : Record} (inStep : s.InStep r.values) {writes others : List Write}
    (perm : writes.Perm others) (apart : (writes.map Write.name).Nodup) :
    r.attemptAll s writes = r.attemptAll s others := by
  induction perm generalizing r with
  | nil => rfl
  | cons w _ ih => exact ih (attempt_inStep valid inStep w) (List.nodup_cons.1 apart).2
  | swap v w rest =>
    have ne : w.name ≠ v.name := by
      intro same
      simp [same] at apart
    show (((r.attempt s w).attempt s v).attemptAll s rest) =
      (((r.attempt s v).attempt s w).attemptAll s rest)
    rw [attempt_comm valid ownerFree inStep ne]
  | trans first _ ih ih' =>
    exact (ih inStep apart).trans (ih' inStep (((first.map Write.name).nodup_iff).1 apart))

end Valid

/-- Writes to different attributes may come in any order: each of them is accepted or refused
with the same error, and the record ends the same. -/
theorem attemptAll_reorder (built : s.Built) (ownerFree : s.OwnerFree) (reached : Reached s origin r)
    {writes others : List Write} (apart : (writes.map Write.name).Nodup)
    (perm : writes.Perm others) :
    (r.verdicts s writes).Perm (r.verdicts s others) ∧
      r.attemptAll s writes = r.attemptAll s others := by
  have valid := built.valid
  constructor
  · rw [verdicts_eq valid ownerFree r apart,
      verdicts_eq valid ownerFree r (((perm.map Write.name).nodup_iff).1 apart)]
    exact perm.map _
  · exact attemptAll_perm valid ownerFree (reached.inStep valid) perm apart

end Record

namespace Orders

def aliased : Schema := { schema with storeAliases := true }

theorem built_aliased : aliased.Built :=
  ⟨catalog.indexes, { draft with storeAliases := true }, rfl, rfl⟩

theorem ownerFree_aliased : aliased.OwnerFree := by
  intro m member value r r'
  obtain rfl : m = ⟨"note", fun _ value _ => .list [value]⟩ := by
    simpa [aliased, schema] using member
  rfl

def itemWithKindKey : Item :=
  NameMap.ofList [("account", .string "a1"), ("at", .number "7"), ("kindKey", .string "old")]

def withKindKey : Record :=
  ⟨aliased.restore ((deserializeItem itemWithKindKey).toOption.getD {}),
    aliased.restore ((deserializeItem itemWithKindKey).toOption.getD {})⟩

/-- Two attributes of one joined attribute, a refused account, a key and an unknown name. -/
def mixedWrites : List Write :=
  [⟨"kind", none⟩, ⟨"account", some (.string "a2")⟩, ⟨"at", some (.int 8)⟩,
    ⟨"kindAtKey", some (.string "new~8")⟩, ⟨"colour", none⟩, ⟨"note", some (.string "n")⟩]

end Orders

theorem Record.attemptAll_reorder_withKindKey :
    Reached Orders.aliased (.loaded Orders.itemWithKindKey) Orders.withKindKey ∧
      Orders.withKindKey.get? "kind" = none ∧
      Orders.withKindKey.get? "kindKey" = some (.string "old") ∧
      (Orders.mixedWrites.map Write.name).Nodup ∧
      (⟨"account", some (.string "a2")⟩, .error (.immutable "account" .setBefore)) ∈
        Orders.withKindKey.verdicts Orders.aliased Orders.mixedWrites.reverse ∧
      (Orders.withKindKey.attemptAll Orders.aliased Orders.mixedWrites.reverse).get? "kindAtKey" =
        some (.string "~8") := by
  have reached : Reached Orders.aliased (.loaded Orders.itemWithKindKey) Orders.withKindKey :=
    .start rfl
  have apart : (Orders.mixedWrites.map Write.name).Nodup := by decide
  obtain ⟨verdicts, same⟩ := Record.attemptAll_reorder Orders.built_aliased Orders.ownerFree_aliased
    reached apart Orders.mixedWrites.reverse_perm.symm
  refine ⟨reached, rfl, rfl, apart, verdicts.mem_iff.1 ?_, same ▸ rfl⟩
  exact List.mem_cons_of_mem _ List.mem_cons_self

end WideColumn
