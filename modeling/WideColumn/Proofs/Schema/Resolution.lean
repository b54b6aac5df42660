import WideColumn.Condition.Key
import WideColumn.Proofs.Schema.Valid
import WideColumn.Schema.Resolution

/-! The bound indexes of a built schema and the resolution of an index among them. A bound index
has a source for its sort attribute exactly when it has that attribute. An index that is resolved
from attributes has these for its sources; one that is asked for by name is not compared with
them. -/
namespace WideColumn

open Outcome

namespace Schema

/-- A bound index has a sort source exactly when it has a sort attribute. -/
theorem Built.sortSource (built : Built s) (member : b ∈ s.bindings) :
    b.index.sort.isSome = b.sortSource.isSome := by
  obtain ⟨indexes, d, checked, built⟩ := built
  have passed := Draft.build_ok.1 built
  have consistent := passed.consistent checked
  obtain ⟨-, -, source, -, -, bound⟩ := Draft.mem_bindAll checked consistent.boundOnce passed.bound
  obtain ⟨binding, given, i, known, named, rfl⟩ := (bound b).1 member
  have fits := consistent.sortSource binding given i known named
  cases hb : binding.sort <;> cases hi : i.sort <;> simp_all

end Schema

theorem BoundIndex.serves_iff {b : BoundIndex} : b.serves partition sort ↔
    b.partitionSource = partition ∧ ∀ name, sort = some name → b.sortSource = some name := by
  cases sort <;> simp [serves]

namespace Schema

variable {s : Schema}

theorem serving_ok : s.serving partition sort = .ok b ↔
    (s.bindings.find? fun b => b.serves partition sort) = some b := by
  unfold serving
  split
  · next found => simp [found]
  · next found => simp [found]

theorem serving_error : (∃ fault, s.serving partition sort = .error (.index fault)) ↔
    ∀ b ∈ s.bindings, ¬b.serves partition sort := by
  unfold serving
  split
  · next b found =>
    have serves := List.find?_some found
    simpa using ⟨b, List.mem_of_find?_eq_some found, serves⟩
  · next found => simpa using List.find?_eq_none.1 found

theorem named_ok (done : s.named index = .ok b) : b ∈ s.bindings ∧ b.index.name = index := by
  simp only [named, bind_ok] at done
  obtain ⟨i, hi, done⟩ := done
  split at done
  · next bound found =>
    obtain rfl := pure_ok.1 done
    have name : bound.index.name = i.name := by simpa using List.find?_some found
    exact ⟨List.mem_of_find?_eq_some found, name.trans (Catalog.get_ok hi).2⟩
  · simp [throw_ok] at done

theorem resolve_toList (key : KeyNames) :
    s.resolve key.toList none = s.serving key.partition key.sort := by
  obtain ⟨partition, sort⟩ := key
  cases sort <;> rfl

/-- The index of a key is a bound one. It serves the attributes of the key, unless it was asked
for by name. -/
theorem resolve_ok {key : KeyNames} (done : s.resolve key.toList explicit = .ok b) :
    b ∈ s.bindings ∧ (explicit = none → b.serves key.partition key.sort) ∧
      ∀ index, explicit = some index → b.index.name = index := by
  cases explicit with
  | some index =>
    obtain ⟨member, name⟩ := named_ok done
    exact ⟨member, nofun, fun _ same => name.trans (Option.some.inj same)⟩
  | none =>
    have found := serving_ok.1 ((resolve_toList key).symm.trans done)
    have serves := List.find?_some found
    exact ⟨List.mem_of_find?_eq_some found, fun _ => serves, nofun⟩

end Schema

end WideColumn
