import WideColumn.Proofs.Record.InStep

/-! Immutable attributes over whole runs. Such an attribute, once it has a value that is not
null, is written by nothing: a direct write is refused or changes nothing, a write to another
declared attribute does not reach it, and no derivation ends in a declared attribute. Its keys
keep its value because records stay in step. -/
namespace WideColumn

open Outcome

namespace Schema

theorem Built.immutable_declared {s : Schema} (built : s.Built) (immutable : s.isImmutable name) :
    s.isDeclared name := by
  obtain ⟨indexes, d, checked, built⟩ := built
  have passed := Draft.build_ok.1 built
  have member : name ∈ d.immutable := by
    have same : s.immutable = d.immutable := by rw [passed.made]
    simpa [isImmutable, same] using immutable
  have declared := (passed.consistent checked).immutableDeclared name member
  rw [passed.made]
  simpa [isDeclared, Draft.mem_distinct] using declared

end Schema

namespace Record

variable {s : Schema}

/-- Of what is assigned to an immutable attribute with a value, nothing is written. -/
theorem assign_immutable {r r' : Record} (immutable : s.isImmutable name)
    (held : r.get? name = some value) (solid : value.isNull = false)
    (done : r.assign s name new = .ok r') : r' = r := by
  have noWrite : ∀ new, r.admission s name new ≠ .write := by
    intro new
    unfold admission
    rw [if_pos immutable, show r.values.get? name = some value from held]
    simp only [solid]
    split <;> simp
  unfold assign at done
  dsimp only at done
  split at done
  · next admitted => exact absurd admitted (noWrite _)
  · cases done; rfl
  · cases done

/-- The records that a list of attempts leads through, the last of them. -/
def attemptAll (s : Schema) (r : Record) (writes : List Write) : Record :=
  writes.foldl (attempt s) r

section Valid

variable (valid : s.Valid)
include valid

theorem attempt_held {r : Record} (declared : s.isDeclared name) (immutable : s.isImmutable name)
    (held : r.get? name = some value) (solid : value.isNull = false) (w : Write) :
    (r.attempt s w).get? name = some value := by
  unfold attempt
  split
  · next written done =>
    obtain ⟨declaredWritten, done⟩ := write_ok done
    by_cases same : w.name = name
    · subst same
      rw [assign_immutable immutable held solid done]
      exact held
    · rcases assign_ok done with rfl | rfl
      · exact held
      · have still := Schema.commit_declared valid declaredWritten
          (w.value.map fun v => s.mutate w.name v r) r.values declared
        rw [if_neg (Ne.symm same)] at still
        exact still.trans held
  · exact held

theorem attemptAll_held {r : Record} (declared : s.isDeclared name) (immutable : s.isImmutable name)
    (held : r.get? name = some value) (solid : value.isNull = false) (writes : List Write) :
    (r.attemptAll s writes).get? name = some value := by
  induction writes generalizing r with
  | nil => exact held
  | cons w rest ih => exact ih (attempt_held valid declared immutable held solid w)

end Valid

end Record

theorem Reached.attemptAll {s : Schema} {origin : Origin} {r : Record} (reached : Reached s origin r)
    (writes : List Write) : Reached s origin (r.attemptAll s writes) := by
  induction writes generalizing r with
  | nil => exact reached
  | cons w rest ih => exact ih reached.attempt

/-- Once an immutable attribute of a record has a value other than null, it has this value
after every run of writes, refused ones included, and so have the keys that it feeds. -/
theorem Record.immutable_held {s : Schema} (built : s.Built) (reached : Reached s origin r)
    (immutable : s.isImmutable name) (held : r.get? name = some value)
    (solid : value.isNull = false) (writes : List Write) :
    (r.attemptAll s writes).get? name = some value ∧
      ∀ key, (key, name) ∈ s.bindings.flatMap BoundIndex.keySources →
        (r.attemptAll s writes).get? key = some value := by
  have valid := built.valid
  have declared := built.immutable_declared immutable
  have still := attemptAll_held valid declared immutable held solid writes
  refine ⟨still, fun key bound => ?_⟩
  have inStep := (reached.attemptAll writes).inStep valid
  exact inStep.keys key name value ((valid.bound _).2 bound) still

namespace Orders

def accountWrites : List Write :=
  [⟨"account", some (.string "a2")⟩, ⟨"account", some (.string "a1")⟩, ⟨"account", none⟩,
    ⟨"account", some .null⟩, ⟨"kind", some (.string "old")⟩, ⟨"pk", some (.string "a2")⟩]

end Orders

theorem Record.immutable_held_account :
    Orders.schema.isImmutable "account" ∧
      Orders.withoutKind.get? "account" = some (.string "a1") ∧
      ("pk", "account") ∈ Orders.schema.bindings.flatMap BoundIndex.keySources ∧
      (Orders.withoutKind.attemptAll Orders.schema Orders.accountWrites).get? "account" =
        some (.string "a1") ∧
      (Orders.withoutKind.attemptAll Orders.schema Orders.accountWrites).get? "pk" =
        some (.string "a1") := by
  obtain ⟨still, keys⟩ := Record.immutable_held Orders.built Orders.reached_withoutKind
    (show Orders.schema.isImmutable "account" from rfl) (show _ = some (Value.string "a1") from rfl)
    rfl Orders.accountWrites
  have bound : ("pk", "account") ∈ Orders.schema.bindings.flatMap BoundIndex.keySources := by decide
  exact ⟨rfl, rfl, bound, still, keys "pk" bound⟩

end WideColumn
