import WideColumn.Condition.Key
import WideColumn.Proofs.Outcome

/-! The names of a condition and the operands behind them. `traverse` takes both through
functions that may fail, in the order of the text; it is how a condition over placeholders is
resolved and how one over native values is stored. -/
namespace WideColumn

open Outcome

/-- Takes the operands through a function that may fail. -/
def Test.traverse [Monad m] (f : α → m β) : Test α → m (Test β)
  | .compare op x => do return .compare op (← f x)
  | .between low high => do return .between (← f low) (← f high)
  | .beginsWith x => do return .beginsWith (← f x)
  | .contains x => do return .contains (← f x)
  | .isIn xs => do return .isIn (← xs.mapM f)
  | .present => return .present
  | .absent => return .absent

namespace Condition

/-- Takes the names through one function and the operands through another. -/
def traverse [Monad m] (rename : String → m String) (f : α → m β) : Condition α → m (Condition β)
  | .leaf name test => do return .leaf (← rename name) (← test.traverse f)
  | .and left right => do return .and (← left.traverse rename f) (← right.traverse rename f)
  | .or left right => do return .or (← left.traverse rename f) (← right.traverse rename f)
  | .not inner => do return .not (← inner.traverse rename f)

/-- The name of every test, from left to right. -/
def leafNames : Condition α → List String
  | .leaf name _ => [name]
  | .and left right => left.leafNames ++ right.leafNames
  | .or left right => left.leafNames ++ right.leafNames
  | .not inner => inner.leafNames

theorem mem_appendNew {names : List String} :
    other ∈ appendNew names name ↔ other ∈ names ∨ other = name := by
  unfold appendNew
  split
  · next known =>
    have member : name ∈ names := by simpa using known
    constructor
    · exact .inl
    · rintro (h | rfl)
      · exact h
      · exact member
  · simp

theorem mem_collectNames (c : Condition α) (names : List String) :
    name ∈ c.collectNames names ↔ name ∈ names ∨ name ∈ c.leafNames := by
  induction c generalizing names with
  | leaf other test => simp [collectNames, leafNames, mem_appendNew]
  | and left right ihl ihr => simp [collectNames, leafNames, ihl, ihr, or_assoc]
  | or left right ihl ihr => simp [collectNames, leafNames, ihl, ihr, or_assoc]
  | not inner ih => exact ih names

theorem mem_names {c : Condition α} : name ∈ c.names ↔ name ∈ c.leafNames := by
  simp [names, mem_collectNames]

theorem nodup_collectNames (c : Condition α) {names : List String} (distinct : names.Nodup) :
    (c.collectNames names).Nodup := by
  induction c generalizing names with
  | leaf name test =>
    unfold collectNames appendNew
    split
    · exact distinct
    · next fresh =>
      have fresh : name ∉ names := by simpa using fresh
      refine List.nodup_append.2 ⟨distinct, by simp, ?_⟩
      rintro other member _ only rfl
      obtain rfl := List.mem_singleton.1 only
      exact fresh member
  | and left right ihl ihr => exact ihr (ihl distinct)
  | or left right ihl ihr => exact ihr (ihl distinct)
  | not inner ih => exact ih distinct

theorem nodup_names (c : Condition α) : c.names.Nodup := c.nodup_collectNames List.nodup_nil

theorem conjuncts?_names {c : Condition α} {tests : List (String × Test α)}
    (pure : c.conjuncts? = some tests) : tests.map Prod.fst = c.leafNames := by
  induction c generalizing tests with
  | leaf name test => cases pure; rfl
  | and left right ihl ihr =>
    obtain ⟨first, hfirst, pure⟩ := Option.bind_eq_some_iff.1 pure
    obtain ⟨second, hsecond, pure⟩ := Option.bind_eq_some_iff.1 pure
    cases pure
    simp [leafNames, ihl hfirst, ihr hsecond]
  | or left right ihl ihr => cases pure
  | not inner ih => cases pure

theorem find?_other {names : List String} (few : names.length ≤ 2) (distinct : names.Nodup)
    (first : a ∈ names) (second : b ∈ names) (ne : b ≠ a) : names.find? (· != a) = some b := by
  match names with
  | [] => cases first
  | [x] => simp_all
  | [x, y] =>
    rcases List.mem_cons.1 first with rfl | first
    · have same : b = y := by simpa [ne] using second
      simpa [same] using same ▸ ne
    · obtain rfl := List.mem_singleton.1 first
      have same : b = x := by simpa [ne] using second
      simpa [same] using same ▸ ne

/-- A key condition is about the partition and at most one name besides. -/
structure Addresses (c : Condition α) (key : KeyNames) : Prop where
  partition : key.partition ∈ c.names
  sort : ∀ name, key.sort = some name → name ∈ c.names ∧ name ≠ key.partition
  only : ∀ name ∈ c.names, name = key.partition ∨ key.sort = some name

theorem keyNames_ok {c : Condition α} (done : c.keyNames = .ok key) : c.Addresses key := by
  unfold keyNames at done
  split at done
  · next tests pure =>
    simp only [check_ok] at done
    obtain ⟨few, -, done⟩ := done
    split at done
    · simp [throw_ok, bind_ok] at done
    · split at done
      · next partition test found =>
        obtain rfl := pure_ok.1 done
        have member : partition ∈ c.names := by
          rw [mem_names, ← conjuncts?_names pure]
          exact List.mem_map_of_mem (List.mem_of_find?_eq_some found)
        refine ⟨member, fun name other => ?_, fun name named => ?_⟩
        · have ne : name ≠ partition := by simpa using List.find?_some other
          exact ⟨List.mem_of_find?_eq_some other, ne⟩
        · by_cases same : name = partition
          · exact .inl same
          · exact .inr (find?_other (by omega) c.nodup_names member named same)
      · simp [throw_ok] at done
  · simp [throw_ok] at done

end Condition

end WideColumn
