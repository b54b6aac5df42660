import WideColumn.Proofs.Update.Effect
import WideColumn.Proofs.Value.Equality

/-! A difference as a patch. Applied to the first map it leads to the second one, up to equality of
values: a name that the maps agree on keeps the value it has, which may be held in another way, and
every other name gets the value of the second map, or loses its own. The way back undoes it part by
part. A value that does not equal itself counts as changed in both directions. -/
namespace WideColumn

/-- The change of the way back. -/
def Change.swap (c : Change) : Change := ⟨c.new, c.old⟩

namespace Diff

/-- Takes the removed names away and gives the added and the changed ones their new values. -/
def apply (d : Diff) (m : NameMap Value) : NameMap Value :=
  let kept := d.removed.names.foldl NameMap.erase m
  let grown := d.added.entries.foldl (fun m entry => m.insert entry.1 entry.2) kept
  (d.changed.map (·.new)).entries.foldl (fun m entry => m.insert entry.1 entry.2) grown

/-- The difference of the way back. -/
def reverse (d : Diff) : Diff := ⟨d.removed, d.changed.map Change.swap, d.added⟩

/-- No name is in two parts. -/
structure Apart (d : Diff) : Prop where
  addedChanged : d.added.names.Disjoint d.changed.names
  addedRemoved : d.added.names.Disjoint d.removed.names
  changedRemoved : d.changed.names.Disjoint d.removed.names

theorem get?_apply (d : Diff) (m : NameMap Value) (name : String) :
    (d.apply m).get? name = ((d.changed.get? name).map (·.new)).or
      ((d.added.get? name).or (if d.removed.contains name then none else m.get? name)) := by
  simp only [apply, NameMap.get?_insertAll, NameMap.get?_eraseAll, NameMap.get?_map,
    NameMap.mem_names]

theorem change?_swap (old new : Option Value) :
    change? new old = (change? old new).map Change.swap := by
  rcases old with _ | v <;> rcases new with _ | w
  · rfl
  · rfl
  · rfl
  · have turned : (w == v) = (v == w) := by
      rw [Bool.eq_iff_iff, Value.beq_iff, Value.beq_iff, Shared.comm]
    cases same : v == w <;> simp [change?, turned, same, Change.swap]

section

variable (snapshot current : NameMap Value)

theorem mem_added : name ∈ (compute snapshot current).added.names ↔
    snapshot.get? name = none ∧ (current.get? name).isSome := by
  rw [NameMap.mem_names, NameMap.contains, get?_added, NameMap.contains]
  cases snapshot.get? name <;> simp

theorem mem_changed : name ∈ (compute snapshot current).changed.names ↔
    ∃ v w, snapshot.get? name = some v ∧ current.get? name = some w ∧ (v == w) = false := by
  rw [NameMap.mem_names, NameMap.contains, get?_changed]
  rcases snapshot.get? name with _ | v <;> rcases current.get? name with _ | w <;>
    simp [change?]

theorem compute_apart : (compute snapshot current).Apart where
  addedChanged := by
    intro name added changed
    obtain ⟨v, _, old, -, -⟩ := (mem_changed snapshot current).1 changed
    rw [((mem_added snapshot current).1 added).1] at old
    cases old
  addedRemoved := by
    intro name added removed
    have old := ((mem_removed snapshot current name).1 removed).1
    rw [((mem_added snapshot current).1 added).1] at old
    cases old
  changedRemoved := by
    intro name changed removed
    obtain ⟨_, w, -, new, -⟩ := (mem_changed snapshot current).1 changed
    rw [((mem_removed snapshot current name).1 removed).2] at new
    cases new

/-- Name by name the patched map is the second one, but what the maps agree on stays as it is. -/
theorem get?_patched (name : String) :
    ((compute snapshot current).apply snapshot).get? name =
      if snapshot.get? name == current.get? name then snapshot.get? name
      else current.get? name := by
  rw [get?_apply, get?_changed, get?_added, NameMap.contains, NameMap.contains, get?_removed,
    NameMap.contains]
  rcases snapshot.get? name with _ | v <;> rcases current.get? name with _ | w
  · rfl
  · rfl
  · rfl
  · cases same : v == w <;> simp [change?, same]

theorem contains_patched (name : String) :
    ((compute snapshot current).apply snapshot).contains name = current.contains name := by
  rw [NameMap.contains, NameMap.contains, get?_patched]
  cases agree : snapshot.get? name == current.get? name with
  | false => rfl
  | true =>
    rcases agree_cases agree with ⟨old, new⟩ | ⟨v, w, old, new, -⟩
    · rw [old, new, ite_self]
    · rw [old, new]
      rfl

theorem compute_reverse : compute current snapshot = (compute snapshot current).reverse := by
  have changed : (compute current snapshot).changed =
      (compute snapshot current).changed.map Change.swap := by
    apply NameMap.ext_get?
    intro name
    rw [NameMap.get?_map, get?_changed, get?_changed, change?_swap]
  rw [reverse, ← changed]
  rfl

end

/-- The parts of a difference have no name in common. Applied to the first map it gives a map with
the names of the second one, whose values are those of the second one or equal to them, so equal
wherever a value equals itself; and it touches no name on which the maps agree. The difference of
the way back adds what this one removes, removes what it adds and changes the new values into the
old ones. -/
theorem compute_patch (snapshot current : NameMap Value) :
    (compute snapshot current).Apart ∧
    (∀ name, ((compute snapshot current).apply snapshot).contains name = current.contains name) ∧
    (∀ name value, current.get? name = some value →
      ∃ patched, ((compute snapshot current).apply snapshot).get? name = some patched ∧
        (patched = value ∨ snapshot.get? name = some patched ∧ patched == value) ∧
        (value == value → patched == value)) ∧
    (∀ name, (compute snapshot current).touches name =
      !(snapshot.get? name == current.get? name)) ∧
    compute current snapshot = (compute snapshot current).reverse := by
  refine ⟨compute_apart snapshot current, contains_patched snapshot current, ?values,
    touches_eq snapshot current, compute_reverse snapshot current⟩
  case values =>
    intro name value new
    rw [get?_patched, new]
    cases agree : snapshot.get? name == some value with
    | false => exact ⟨value, rfl, .inl rfl, id⟩
    | true =>
      rcases agree_cases agree with ⟨-, none⟩ | ⟨kept, _, old, same, equal⟩
      · cases none
      · cases same
        exact ⟨kept, old, .inr ⟨old, equal⟩, fun _ => equal⟩

def yesterday : NameMap Value :=
  NameMap.ofList [("balance", .int 0), ("price", .int 2), ("ratio", .float .nan), ("spare", .null)]

def today : NameMap Value :=
  NameMap.ofList [("balance", .float .negativeZero), ("note", .string "dear"), ("price", .int 3),
    ("ratio", .float .nan)]

theorem compute_patch_prices :
    today.get? "balance" = some (.float .negativeZero) ∧
    Value.float .negativeZero == .float .negativeZero ∧
    (∃ patched, ((compute yesterday today).apply yesterday).get? "balance" = some patched ∧
      patched == .float .negativeZero) ∧
    (compute yesterday today).touches "balance" = false ∧
    (compute yesterday today).touches "ratio" = true ∧
    ((compute yesterday today).apply yesterday).contains "spare" = false ∧
    compute today yesterday = (compute yesterday today).reverse := by
  obtain ⟨-, names, values, touched, back⟩ := compute_patch yesterday today
  have held : today.get? "balance" = some (.float .negativeZero) := rfl
  have itself : Value.float .negativeZero == .float .negativeZero := by decide
  obtain ⟨patched, found, -, equal⟩ := values "balance" _ held
  refine ⟨held, itself, ⟨patched, found, equal itself⟩, ?_, ?_, ?_, back⟩
  · rw [touched]
    decide +kernel
  · rw [touched]
    decide +kernel
  · exact (names "spare").trans rfl

end Diff

end WideColumn
