import Mathlib.Data.List.Nodup
import WideColumn.Proofs.Outcome
import WideColumn.NameMap

/-! More on the look-ups of name maps: which names a map has, what a transformation of all
values leaves behind each name, and what the union of two maps holds. -/
namespace WideColumn

open Outcome

/-- Where names are distinct, a search by name finds what has the name. -/
theorem find?_name_iff {name : α → String} {xs : List α} (distinct : (xs.map name).Nodup) :
    (xs.find? fun x => name x == wanted) = some x ↔ x ∈ xs ∧ name x = wanted := by
  constructor
  · intro found
    exact ⟨List.mem_of_find?_eq_some found, by simpa using List.find?_some found⟩
  · rintro ⟨member, rfl⟩
    cases found : xs.find? fun y => name y == name x with
    | none => exact absurd (List.find?_eq_none.1 found x member) (by simp)
    | some y =>
      have same : name y = name x := by simpa using List.find?_some found
      have listed := List.mem_of_find?_eq_some found
      rw [List.inj_on_of_nodup_map distinct listed member same]

namespace Entries

theorem get?_traverse {f : α → Except ε β} {entries : List (String × α)} {results : List (String × β)}
    (done : traverse f entries = .ok results) (name : String) :
    (get? name results).map .ok = (get? name entries).map f := by
  induction entries generalizing results with
  | nil => cases done; rfl
  | cons entry rest ih =>
    obtain ⟨other, value⟩ := entry
    simp only [traverse, bind_ok, pure_ok] at done
    obtain ⟨transformed, hvalue, others, hrest, rfl⟩ := done
    by_cases same : other = name
    · simp [get?, same, hvalue]
    · simp [get?, same, ih hrest]

/-- A transformation fails at one of the values. -/
theorem traverse_error {f : α → Except ε β} {entries : List (String × α)}
    (failed : traverse f entries = .error e) : ∃ entry ∈ entries, f entry.2 = .error e := by
  induction entries with
  | nil => cases failed
  | cons entry rest ih =>
    rcases bind_error.1 failed with here | ⟨b, -, failed⟩
    · exact ⟨entry, List.mem_cons_self, here⟩
    · rcases bind_error.1 failed with there | ⟨others, -, failed⟩
      · obtain ⟨other, member, fails⟩ := ih there
        exact ⟨other, List.mem_cons_of_mem _ member, fails⟩
      · cases failed

/-- A transformation is undone by one that undoes it on every value. -/
theorem traverse_back {f : α → Except ε β} {g : β → Except ε α} {entries : List (String × α)}
    {results : List (String × β)} (done : traverse f entries = .ok results)
    (back : ∀ entry ∈ entries, ∀ b, f entry.2 = .ok b → g b = .ok entry.2) :
    traverse g results = .ok entries := by
  induction entries generalizing results with
  | nil => cases done; rfl
  | cons entry rest ih =>
    obtain ⟨name, value⟩ := entry
    simp only [traverse, bind_ok, pure_ok] at done
    obtain ⟨transformed, hvalue, others, hrest, rfl⟩ := done
    have here := back (name, value) List.mem_cons_self transformed hvalue
    have there := ih hrest fun e h => back e (List.mem_cons_of_mem _ h)
    simp only [traverse, bind_ok, pure_ok]
    exact ⟨value, here, rest, there, rfl⟩

/-- Without two entries of one name it does not matter which one stays. -/
theorem get?_insertAll {entries : List (String × α)} (distinct : (entries.map Prod.fst).Nodup)
    (sorted : List (String × α)) (name : String) :
    get? name (entries.foldl (fun sorted entry => insert entry.1 entry.2 sorted) sorted) =
      (get? name entries).or (get? name sorted) := by
  induction entries generalizing sorted with
  | nil => rfl
  | cons entry rest ih =>
    obtain ⟨other, value⟩ := entry
    obtain ⟨fresh, later⟩ := List.nodup_cons.1 distinct
    rw [List.foldl_cons, ih later, get?_insert]
    by_cases same : other = name
    · subst same
      have absent : get? other rest = none := by
        rw [← Option.not_isSome_iff_eq_none]
        intro present
        obtain ⟨old, found⟩ := Option.isSome_iff_exists.1 present
        exact fresh (List.mem_map.2 ⟨(other, old), mem_of_get? found, rfl⟩)
      simp [get?, absent]
    · simp [get?, same]

theorem insert_perm {name : String} {value : α} {entries : List (String × α)}
    (fresh : name ∉ entries.map Prod.fst) : (insert name value entries).Perm ((name, value) :: entries) := by
  induction entries with
  | nil => rfl
  | cons entry rest ih =>
    obtain ⟨other, old⟩ := entry
    simp only [List.map_cons, List.mem_cons, not_or] at fresh
    unfold insert
    split
    · rfl
    · rw [if_neg (Ne.symm fresh.1)]
      exact ((ih fresh.2).cons _).trans (.swap _ _ _)

/-- Sorting entries of distinct names only moves them. -/
theorem ofList_perm {entries : List (String × α)} (distinct : (entries.map Prod.fst).Nodup) :
    (ofList entries).Perm entries := by
  have step : ∀ sorted : List (String × α), ((sorted ++ entries).map Prod.fst).Nodup →
      (entries.foldl (fun sorted entry => insert entry.1 entry.2 sorted) sorted).Perm
        (sorted ++ entries) := by
    clear distinct
    induction entries with
    | nil => simp
    | cons entry rest ih =>
      obtain ⟨name, value⟩ := entry
      intro sorted distinct
      have moved : (sorted ++ (name, value) :: rest).Perm ((name, value) :: (sorted ++ rest)) :=
        List.perm_middle
      have fresh : name ∉ sorted.map Prod.fst := by
        have apart := (List.nodup_cons.1 ((moved.map Prod.fst).nodup_iff.1 distinct)).1
        simp_all
      have whole : (insert name value sorted ++ rest).Perm (sorted ++ (name, value) :: rest) :=
        ((insert_perm fresh).append_right rest).trans moved.symm
      exact (ih _ ((whole.map Prod.fst).nodup_iff.2 distinct)).trans whole
  exact step [] distinct

end Entries

namespace NameMap

theorem get?_ofList {entries : List (String × α)} (distinct : (entries.map Prod.fst).Nodup)
    (name : String) : (ofList entries).get? name = Entries.get? name entries :=
  (Entries.get?_insertAll distinct [] name).trans (Option.or_none)

theorem ofList_concat (entries : List (String × α)) (name : String) (value : α) :
    ofList (entries ++ [(name, value)]) = (ofList entries).insert name value := by
  simp only [ofList, insert, Entries.ofList, List.foldl_append, List.foldl_cons, List.foldl_nil]

/-- A list that repeats an entry of a function only with the same value. -/
theorem get?_ofList_of_all {f : String → Option α} {entries : List (String × α)}
    (all : ∀ entry ∈ entries, f entry.1 = some entry.2) (name : String) :
    (ofList entries).get? name = if name ∈ entries.map Prod.fst then f name else none := by
  have step : ∀ sorted, Entries.get? name
      (entries.foldl (fun sorted entry => Entries.insert entry.1 entry.2 sorted) sorted) =
        if name ∈ entries.map Prod.fst then f name else Entries.get? name sorted := by
    induction entries with
    | nil => exact fun sorted => rfl
    | cons entry rest ih =>
      intro sorted
      have here := all entry List.mem_cons_self
      rw [List.foldl_cons, ih fun e h => all e (List.mem_cons_of_mem _ h), Entries.get?_insert]
      by_cases same : entry.1 = name
      · simp [same, ← here]
      · simp only [List.map_cons, List.mem_cons, Ne.symm same, same, false_or, if_false]
  exact step []

theorem contains_iff {m : NameMap α} : m.contains name ↔ ∃ value, m.get? name = some value := by
  simp [contains, Option.isSome_iff_exists]

theorem get?_eq_none_iff {m : NameMap α} : m.get? name = none ↔ m.contains name = false := by
  simp [contains]

theorem traverse_ok {f : α → Except ε β} {m : NameMap α} {n : NameMap β} :
    m.traverse f = .ok n ↔ Entries.traverse f m.entries = .ok n.entries := by
  unfold traverse
  split
  · next entries done => cases n; simp [done]
  · next e done => simp [done]

theorem traverse_of_entries {f : α → Except ε β} {m : NameMap α} {entries : List (String × β)}
    (done : Entries.traverse f m.entries = .ok entries) :
    ∃ n, m.traverse f = .ok n ∧ n.entries = entries := by
  have ordered := Entries.ordered_of_names (Entries.names_traverse done) m.ordered
  exact ⟨⟨entries, ordered⟩, traverse_ok.2 done, rfl⟩

theorem get?_traverse {f : α → Except ε β} {m : NameMap α} {n : NameMap β}
    (done : m.traverse f = .ok n) (name : String) :
    (n.get? name).map .ok = (m.get? name).map f :=
  Entries.get?_traverse (traverse_ok.1 done) name

theorem traverse_error {f : α → Except ε β} {m : NameMap α} (failed : m.traverse f = .error e) :
    ∃ name a, m.get? name = some a ∧ f a = .error e := by
  unfold traverse at failed
  split at failed
  · cases failed
  · next e done =>
    cases failed
    obtain ⟨entry, member, fails⟩ := Entries.traverse_error done
    exact ⟨entry.1, entry.2, get?_eq_some_iff.2 member, fails⟩

theorem traverse_get?_ok {f : α → Except ε β} {m : NameMap α} {n : NameMap β}
    (done : m.traverse f = .ok n) (found : m.get? name = some a) :
    ∃ b, n.get? name = some b ∧ f a = .ok b := by
  have each := get?_traverse done name
  rw [found, Option.map_some, Option.map_eq_some_iff] at each
  obtain ⟨b, there, same⟩ := each
  exact ⟨b, there, same.symm⟩

theorem get?_of_traverse {f : α → Except ε β} {m : NameMap α} {n : NameMap β}
    (done : m.traverse f = .ok n) (found : n.get? name = some b) :
    ∃ a, m.get? name = some a ∧ f a = .ok b := by
  have each := get?_traverse done name
  rw [found, Option.map_some] at each
  exact Option.map_eq_some_iff.1 each.symm

theorem contains_traverse {f : α → Except ε β} {m : NameMap α} {n : NameMap β}
    (done : m.traverse f = .ok n) : n.contains = m.contains := by
  funext name
  simpa [contains] using congrArg Option.isSome (get?_traverse done name)

theorem traverse_back {f : α → Except ε β} {g : β → Except ε α} {m : NameMap α} {n : NameMap β}
    (done : m.traverse f = .ok n)
    (back : ∀ name a, m.get? name = some a → ∀ b, f a = .ok b → g b = .ok a) :
    n.traverse g = .ok m := by
  apply traverse_ok.2
  apply Entries.traverse_back (traverse_ok.1 done)
  exact fun entry member => back entry.1 entry.2 (get?_eq_some_iff.2 member)

theorem mem_names {m : NameMap α} : name ∈ m.names ↔ m.contains name := by
  rw [contains_iff]
  constructor
  · intro member
    obtain ⟨⟨other, value⟩, entry, rfl⟩ := List.mem_map.1 member
    exact ⟨value, get?_eq_some_iff.2 entry⟩
  · rintro ⟨value, found⟩
    exact List.mem_map.2 ⟨(name, value), get?_eq_some_iff.1 found, rfl⟩

theorem nodup_names (m : NameMap α) : m.names.Nodup := by
  apply List.pairwise_map.2
  apply m.ordered.imp
  intro a b below same
  exact String.lt_irrefl _ (same ▸ below)

/-- The order that a map is given in does not matter. -/
theorem ofList_eq_of_perm {m : NameMap α} {entries : List (String × α)}
    (perm : entries.Perm m.entries) : ofList entries = m := by
  have distinct : (entries.map Prod.fst).Nodup := (perm.map Prod.fst).nodup_iff.2 m.nodup_names
  apply ext_get?
  intro name
  ext value
  rw [get?_eq_some_iff, get?_eq_some_iff]
  exact ((Entries.ofList_perm distinct).trans perm).mem_iff

theorem get?_insertAll (m n : NameMap α) (name : String) :
    (n.entries.foldl (fun m entry => m.insert entry.1 entry.2) m).get? name =
      (n.get? name).or (m.get? name) := by
  have entries : ∀ (list : List (String × α)) (m : NameMap α),
      (list.foldl (fun m entry => m.insert entry.1 entry.2) m).entries =
        list.foldl (fun sorted entry => Entries.insert entry.1 entry.2 sorted) m.entries := by
    intro list
    induction list with
    | nil => exact fun _ => rfl
    | cons entry rest ih => exact fun m => ih (m.insert entry.1 entry.2)
  rw [get?, entries, Entries.get?_insertAll n.nodup_names]
  rfl

theorem get?_eraseAll (names : List String) (m : NameMap α) (name : String) :
    (names.foldl NameMap.erase m).get? name = if name ∈ names then none else m.get? name := by
  induction names generalizing m with
  | nil => simp
  | cons first rest ih =>
    rw [List.foldl_cons, ih, get?_erase]
    by_cases same : first = name
    · simp [same]
    · simp [same, Ne.symm same]

/-- The values of the first map go before those of the second. -/
theorem get?_union (m n : NameMap α) (name : String) :
    (m.union n).get? name = (m.get? name).or (n.get? name) := by
  have step : ∀ (list : List (String × α)) (m : NameMap α),
      (list.foldl (fun all entry => if all.contains entry.1 then all
        else all.insert entry.1 entry.2) m).get? name =
        (m.get? name).or (Entries.get? name list) := by
    intro list
    induction list with
    | nil => simp [Entries.get?]
    | cons entry rest ih =>
      obtain ⟨other, value⟩ := entry
      intro m
      rw [List.foldl_cons, ih]
      cases present : m.get? other with
      | some old =>
        by_cases same : other = name
        · subst same; simp [contains, present]
        · simp [contains, present, Entries.get?, same]
      | none =>
        by_cases same : other = name
        · subst same; simp [contains, present, get?_insert, Entries.get?]
        · simp [contains, present, get?_insert, Entries.get?, same]
  exact step n.entries m

@[simp] theorem empty_union (m : NameMap α) : (∅ : NameMap α).union m = m :=
  ext_get? fun name => (get?_union ∅ m name).trans Option.none_or

theorem isEmpty_iff {m : NameMap α} : m.isEmpty ↔ ∀ name, m.get? name = none := by
  obtain ⟨entries, ordered⟩ := m
  cases entries with
  | nil => simp [isEmpty, get?, Entries.get?]
  | cons entry rest =>
    constructor
    · intro empty
      cases empty
    · intro absent
      have := absent entry.1
      simp [get?, Entries.get?] at this

@[simp] theorem isEmpty_empty : (∅ : NameMap α).isEmpty :=
  isEmpty_iff.2 get?_empty

end NameMap

end WideColumn
