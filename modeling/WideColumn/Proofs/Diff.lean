import WideColumn.Proofs.NameMap
import WideColumn.Diff

/-! A difference name by name. Two maps agree on a name when both have equal values behind it
or none has any; a name is in at most one part of the difference, and it is in one exactly
when the maps do not agree on it. -/
namespace WideColumn.Diff

theorem get?_missing (m other : NameMap Value) (name : String) :
    (missing m other).get? name = if other.contains name then none else m.get? name := by
  rw [missing, NameMap.get?_filter]
  cases other.contains name <;> rfl

/-- What a difference records for values that both maps have. -/
def change? : Option Value → Option Value → Option Change
  | some old, some new => if old == new then none else some ⟨old, new⟩
  | _, _ => none

theorem get?_changes (snapshot : NameMap Value) {entries : List (String × Value)}
    (ordered : Entries.Ordered entries) (name : String) :
    (changes snapshot entries).get? name =
      change? (snapshot.get? name) (Entries.get? name entries) := by
  induction entries with
  | nil => cases h : snapshot.get? name <;> rfl
  | cons entry rest ih =>
    obtain ⟨other, new⟩ := entry
    obtain ⟨above, tail⟩ := List.pairwise_cons.1 ordered
    have ih := ih tail
    by_cases same : other = name
    · subst same
      rw [Entries.get?_eq_none_of_lt above] at ih
      have absent : change? (snapshot.get? other) none = none := by
        cases snapshot.get? other <;> rfl
      rw [absent] at ih
      cases old : snapshot.get? other with
      | none => simp [changes, old, ih, change?]
      | some old' =>
        by_cases equal : old' == new
        · simp [changes, old, ih, change?, Entries.get?, equal]
        · simp [changes, old, change?, Entries.get?, equal, NameMap.get?_insert]
    · rw [show Entries.get? name ((other, new) :: rest) = Entries.get? name rest by
        simp [Entries.get?, same], ← ih]
      cases old : snapshot.get? other with
      | none => simp [changes, old]
      | some old' =>
        by_cases equal : old' == new
        · simp [changes, old, equal]
        · simp [changes, old, equal, NameMap.get?_insert, same]

variable (snapshot current : NameMap Value) (name : String)

theorem get?_added : (compute snapshot current).added.get? name =
    if snapshot.contains name then none else current.get? name :=
  get?_missing current snapshot name

theorem get?_changed : (compute snapshot current).changed.get? name =
    change? (snapshot.get? name) (current.get? name) :=
  get?_changes snapshot current.ordered name

theorem get?_removed : (compute snapshot current).removed.get? name =
    if current.contains name then none else snapshot.get? name :=
  get?_missing snapshot current name

theorem change?_isSome (old new : Option Value) :
    ((if old.isSome then none else new).isSome || (change? old new).isSome ||
      (if new.isSome then none else old).isSome) = !(old == new) := by
  rcases old with _ | old <;> rcases new with _ | new
  · rfl
  · rfl
  · rfl
  · cases equal : old == new <;> simp [change?, equal]

/-- A name is touched exactly when the two maps do not agree on it. -/
theorem touches_eq : (compute snapshot current).touches name =
    !(snapshot.get? name == current.get? name) := by
  have added := get?_added snapshot current name
  have changed := get?_changed snapshot current name
  have removed := get?_removed snapshot current name
  unfold touches NameMap.contains
  rw [added, changed, removed]
  exact change?_isSome _ _

theorem not_hasChanged_iff_untouched {d : Diff} :
    d.hasChanged = false ↔ ∀ name, d.touches name = false := by
  simp only [hasChanged, Bool.not_eq_false', Bool.and_eq_true, NameMap.isEmpty_iff, touches,
    Bool.or_eq_false_iff, NameMap.contains, Option.isSome_eq_false_iff, Option.isNone_iff_eq_none]
  constructor
  · rintro ⟨⟨added, changed⟩, removed⟩ name
    exact ⟨⟨added name, changed name⟩, removed name⟩
  · exact fun none => ⟨⟨fun n => (none n).1.1, fun n => (none n).1.2⟩, fun n => (none n).2⟩

/-- Nothing has changed exactly when the two maps agree on every name. -/
theorem not_hasChanged_iff : (compute snapshot current).hasChanged = false ↔
    ∀ name, snapshot.get? name == current.get? name := by
  simp [not_hasChanged_iff_untouched, touches_eq]

theorem eq_empty_of_not_hasChanged {d : Diff} (unchanged : d.hasChanged = false) : d = {} := by
  simp only [hasChanged, Bool.not_eq_false', Bool.and_eq_true, NameMap.isEmpty_iff] at unchanged
  obtain ⟨⟨added, changed⟩, removed⟩ := unchanged
  obtain ⟨a, c, r⟩ := d
  rw [show a = {} from NameMap.ext_get? added, show c = {} from NameMap.ext_get? changed,
    show r = {} from NameMap.ext_get? removed]

end WideColumn.Diff
