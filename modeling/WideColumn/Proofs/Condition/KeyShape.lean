import Mathlib.Data.List.Perm.Subperm
import WideColumn.Proofs.Condition.Names

/-! Which conditions address a key: conjunctions, however they are associated, of one or two
tests of different names that the store can look a key up by, one of them an equality. The check
collects names and tests apart and compares their numbers; names are collected once each, so the
numbers agree exactly when no name is tested twice. -/
namespace WideColumn

open Outcome

namespace Test

/-- The store can look a key up by any comparison but inequality, by a range and by a start. -/
inductive LooksUp : Test α → Prop where
  | compare (op : Comparison) (operand : α) : op ≠ .ne → LooksUp (.compare op operand)
  | between (low high : α) : LooksUp (.between low high)
  | beginsWith (start : α) : LooksUp (.beginsWith start)

theorem addressesKey_iff {test : Test α} : test.addressesKey ↔ test.LooksUp := by
  constructor
  · intro addresses
    cases test with
    | compare op x => exact .compare op x (by simpa [addressesKey] using addresses)
    | between low high => exact .between low high
    | beginsWith x => exact .beginsWith x
    | _ => cases addresses
  · rintro (⟨op, x, ne⟩ | _ | _)
    · simpa [addressesKey] using ne
    · rfl
    · rfl

theorem isEquality_iff {test : Test α} : test.isEquality ↔ ∃ x, test = .compare .eq x := by
  constructor
  · intro equality
    unfold isEquality at equality
    split at equality
    · exact ⟨_, rfl⟩
    · cases equality
  · rintro ⟨x, rfl⟩
    rfl

end Test

namespace Condition

inductive Conjoins : Condition α → List (String × Test α) → Prop where
  | leaf (name : String) (test : Test α) : Conjoins (.leaf name test) [(name, test)]
  | and : Conjoins left first → Conjoins right second → Conjoins (.and left right) (first ++ second)

theorem conjuncts?_iff {c : Condition α} {tests : List (String × Test α)} :
    c.conjuncts? = some tests ↔ c.Conjoins tests := by
  constructor
  · intro pure
    induction c generalizing tests with
    | leaf name test => cases pure; exact .leaf name test
    | and left right ihl ihr =>
      obtain ⟨first, hfirst, pure⟩ := Option.bind_eq_some_iff.1 pure
      obtain ⟨second, hsecond, pure⟩ := Option.bind_eq_some_iff.1 pure
      cases pure
      exact .and (ihl hfirst) (ihr hsecond)
    | or left right => cases pure
    | not inner => cases pure
  · intro conjoins
    induction conjoins with
    | leaf name test => rfl
    | and _ _ ihl ihr => simp [conjuncts?, ihl, ihr]

theorem Conjoins.unique {c : Condition α} {tests others : List (String × Test α)}
    (conjoins : c.Conjoins tests) (again : c.Conjoins others) : tests = others :=
  Option.some.inj ((conjuncts?_iff.2 conjoins).symm.trans (conjuncts?_iff.2 again))

theorem Conjoins.names {c : Condition α} {tests : List (String × Test α)}
    (conjoins : c.Conjoins tests) : tests.map Prod.fst = c.leafNames :=
  conjuncts?_names (conjuncts?_iff.2 conjoins)

theorem collectNames_of_nodup (c : Condition α) (names : List String)
    (distinct : (names ++ c.leafNames).Nodup) : c.collectNames names = names ++ c.leafNames := by
  induction c generalizing names with
  | leaf name test =>
    have fresh : name ∉ names := by
      intro member
      exact (List.nodup_append.1 distinct).2.2 name member name List.mem_cons_self rfl
    simp [collectNames, appendNew, leafNames, fresh]
  | and left right ihl ihr =>
    rw [leafNames, ← List.append_assoc] at distinct
    rw [collectNames, ihl _ (List.nodup_append.1 distinct).1, ihr _ distinct, leafNames,
      List.append_assoc]
  | or left right ihl ihr =>
    rw [leafNames, ← List.append_assoc] at distinct
    rw [collectNames, ihl _ (List.nodup_append.1 distinct).1, ihr _ distinct, leafNames,
      List.append_assoc]
  | not inner ih => exact ih _ distinct

theorem names_of_nodup {c : Condition α} (distinct : c.leafNames.Nodup) : c.names = c.leafNames :=
  c.collectNames_of_nodup [] distinct

/-- As many names as tests are there only if no name is tested twice. -/
theorem nodup_leafNames_iff {c : Condition α} :
    c.leafNames.Nodup ↔ c.leafNames.length = c.names.length := by
  constructor
  · exact fun distinct => by rw [names_of_nodup distinct]
  · intro count
    have within : c.names.Subperm c.leafNames :=
      c.nodup_names.subperm fun name member => mem_names.1 member
    exact (within.perm_of_length_le (Nat.le_of_eq count)).nodup_iff.1 c.nodup_names

theorem names_ne_nil (c : Condition α) : c.names ≠ [] := by
  have some_leaf : c.leafNames ≠ [] := by
    induction c with
    | leaf name test => exact List.cons_ne_nil _ _
    | and left right ihl => exact List.append_ne_nil_of_left_ne_nil ihl _
    | or left right ihl => exact List.append_ne_nil_of_left_ne_nil ihl _
    | not inner ih => exact ih
  obtain ⟨name, member⟩ := List.exists_mem_of_ne_nil _ some_leaf
  exact List.ne_nil_of_mem (mem_names.2 member)

structure KeyTests (tests : List (String × Test α)) : Prop where
  count : tests.length = 1 ∨ tests.length = 2
  distinct : (tests.map Prod.fst).Nodup
  lookUp : ∀ entry ∈ tests, entry.2.LooksUp
  equality : ∃ name operand, (name, .compare .eq operand) ∈ tests

/-- The name is compared with `=`, and none before it is. -/
def FirstEqual (tests : List (String × Test α)) (name : String) : Prop :=
  ∃ before operand after, tests = before ++ (name, .compare .eq operand) :: after ∧
    ∀ other x, (other, .compare .eq x) ∉ before

/-- A conjunction, associated in any way, of the tests of a key. -/
def KeyShaped (c : Condition α) : Prop := ∃ tests, c.Conjoins tests ∧ KeyTests tests

theorem find?_isEquality_iff {tests : List (String × Test α)} :
    (∃ test, tests.find? (fun entry => entry.2.isEquality) = some (name, test)) ↔
      FirstEqual tests name := by
  simp only [List.find?_eq_some_iff_append, FirstEqual]
  constructor
  · rintro ⟨test, equality, before, after, rfl, none⟩
    obtain ⟨x, rfl⟩ := Test.isEquality_iff.1 equality
    refine ⟨before, x, after, rfl, fun other y member => ?_⟩
    simpa [Test.isEquality] using none _ member
  · rintro ⟨before, x, after, rfl, none⟩
    refine ⟨_, rfl, before, after, rfl, fun ⟨other, test⟩ member => ?_⟩
    rw [Bool.not_eq_true', ← Bool.not_eq_true]
    intro equality
    obtain ⟨y, rfl⟩ := Test.isEquality_iff.1 equality
    exact none other y member

theorem Addresses.perm {c : Condition α} {key : KeyNames} (addresses : c.Addresses key) :
    key.toList.Perm c.names := by
  obtain ⟨partition, sort⟩ := key
  have distinct : (KeyNames.toList ⟨partition, sort⟩).Nodup := by
    cases sort with
    | none => simp [KeyNames.toList]
    | some name => simpa [KeyNames.toList, eq_comm] using (addresses.sort name rfl).2
  refine (List.perm_ext_iff_of_nodup distinct c.nodup_names).2 fun name => ?_
  constructor <;> intro member
  · rcases List.mem_cons.1 member with rfl | other
    · exact addresses.partition
    · exact (addresses.sort name (by simpa using other)).1
  · rcases addresses.only name member with rfl | other
    · exact List.mem_cons_self
    · exact List.mem_cons_of_mem _ (by simpa using other)

theorem Addresses.unique {c : Condition α} {d : Condition β} {key other : KeyNames}
    (addresses : c.Addresses key) (again : d.Addresses other)
    (names : ∀ name, name ∈ c.names ↔ name ∈ d.names) (first : key.partition = other.partition) :
    key = other := by
  have same : c.names.Perm d.names := (List.perm_ext_iff_of_nodup c.nodup_names d.nodup_names).2 names
  have perm := (addresses.perm.trans same).trans again.perm.symm
  obtain ⟨partition, sort⟩ := key
  obtain ⟨_, otherSort⟩ := other
  obtain rfl : partition = _ := first
  have rest : sort.toList.Perm otherSort.toList := (List.perm_cons _).1 perm
  cases sort <;> cases otherSort <;> simp_all

/-- Nothing else passes the check, and the names it gives begin with the first equality. -/
theorem keyNames_shape {c : Condition α} (done : c.keyNames = .ok key) :
    ∃ tests, c.Conjoins tests ∧ KeyTests tests ∧ FirstEqual tests key.partition := by
  unfold keyNames at done
  split at done
  · next tests pure =>
    have conjoins := conjuncts?_iff.1 pure
    simp only [check_ok] at done
    obtain ⟨few, single, done⟩ := done
    have count : c.leafNames.length = c.names.length := by
      rw [← conjoins.names, List.length_map]
      exact Decidable.not_not.1 single
    split at done
    · simp [throw_ok, bind_ok] at done
    · next allowed =>
      split at done
      · next partition test found =>
        obtain rfl := pure_ok.1 done
        have first : FirstEqual tests partition := find?_isEquality_iff.1 ⟨test, found⟩
        have many := List.length_pos_iff.2 c.names_ne_nil
        have length : tests.length = c.leafNames.length := by rw [← conjoins.names, List.length_map]
        refine ⟨tests, conjoins, ⟨by omega, ?_, ?_, ?_⟩, first⟩
        · rw [conjoins.names]
          exact nodup_leafNames_iff.2 count
        · intro entry member
          have refused := List.find?_eq_none.1 (Option.eq_none_iff_forall_ne_some.2 fun e => by
            rintro found
            exact allowed e.1 e.2 found) entry member
          exact Test.addressesKey_iff.1 (by simpa using refused)
        · obtain ⟨before, x, after, rfl, -⟩ := first
          exact ⟨partition, x, by simp⟩
      · simp [throw_ok] at done
  · simp [throw_ok] at done

theorem keyNames_of_tests {c : Condition α} {tests : List (String × Test α)}
    (conjoins : c.Conjoins tests) (fits : KeyTests tests) (first : FirstEqual tests partition) :
    ∃ sort, c.keyNames = .ok ⟨partition, sort⟩ := by
  have distinct : c.leafNames.Nodup := conjoins.names ▸ fits.distinct
  have length : tests.length = c.names.length := by
    rw [names_of_nodup distinct, ← conjoins.names, List.length_map]
  have few : ¬c.names.length > 2 := by
    have := fits.count
    omega
  have allowed : tests.find? (fun entry => !entry.2.addressesKey) = none := by
    refine List.find?_eq_none.2 fun entry member => ?_
    simpa using Test.addressesKey_iff.2 (fits.lookUp entry member)
  obtain ⟨test, found⟩ := find?_isEquality_iff.2 first
  refine ⟨c.names.find? (· != partition), ?_⟩
  simp [keyNames, conjuncts?_iff.2 conjoins, few, length, allowed, found]
  rfl

theorem keyNames_ok_iff {c : Condition α} : (∃ key, c.keyNames = .ok key) ↔ c.KeyShaped := by
  constructor
  · rintro ⟨key, done⟩
    obtain ⟨tests, conjoins, fits, -⟩ := keyNames_shape done
    exact ⟨tests, conjoins, fits⟩
  · rintro ⟨tests, conjoins, fits⟩
    obtain ⟨name, x, member⟩ := fits.equality
    have equality : (tests.find? fun entry => entry.2.isEquality).isSome :=
      List.find?_isSome.2 ⟨_, member, rfl⟩
    obtain ⟨⟨partition, test⟩, found⟩ := Option.isSome_iff_exists.1 equality
    obtain ⟨sort, passed⟩ := keyNames_of_tests conjoins fits (find?_isEquality_iff.1 ⟨test, found⟩)
    exact ⟨_, passed⟩

/-- With one equality among two tests their order does not matter. -/
theorem keyNames_swap {a b : String} {t u : Test α} (single : t.isEquality ≠ u.isEquality)
    (done : keyNames (.and (.leaf a t) (.leaf b u)) = .ok key) :
    keyNames (.and (.leaf b u) (.leaf a t)) = .ok key := by
  obtain ⟨tests, conjoins, fits, first⟩ := keyNames_shape done
  obtain rfl : tests = [(a, t), (b, u)] := conjoins.unique (.and (.leaf a t) (.leaf b u))
  have distinct : a ≠ b := by simpa using fits.distinct
  have swapped : Conjoins (.and (.leaf b u) (.leaf a t)) [(b, u), (a, t)] :=
    .and (.leaf b u) (.leaf a t)
  have fits : KeyTests [(b, u), (a, t)] := by
    constructor
    case count => exact .inr rfl
    case distinct => simpa using distinct.symm
    case lookUp => exact fun entry member => fits.lookUp entry (by simpa [or_comm] using member)
    case equality =>
      obtain ⟨name, x, member⟩ := fits.equality
      exact ⟨name, x, by simpa [or_comm] using member⟩
  have first : FirstEqual [(b, u), (a, t)] key.partition := by
    rw [← find?_isEquality_iff] at first ⊢
    cases isFirst : t.isEquality <;> cases isSecond : u.isEquality <;> simp_all
  obtain ⟨sort, passed⟩ := keyNames_of_tests swapped fits first
  rw [passed, (keyNames_ok done).unique (keyNames_ok passed) _ rfl]
  intro name
  simp [mem_names, leafNames, or_comm]

end Condition

end WideColumn
