import WideColumn.Proofs.Schema.Valid
import WideColumn.Record.Storage

/-! What each step of assigning and loading does to the value of each name. A joined
attribute is carried by its own name and by the keys it feeds; a declared attribute is never
touched by a derivation, so all joined attributes are computed from values that stand still. -/
namespace WideColumn

namespace Joined

/-- A joined attribute depends on its sources alone. -/
theorem compute_congr {j : Joined} {m n : NameMap Value}
    (same : ∀ source ∈ j.sources, m.get? source = n.get? source) : j.compute m = j.compute n := by
  have segments : j.sources.map (segment m) = j.sources.map (segment n) := by
    apply List.map_congr_left
    intro source member
    simp only [segment, same source member]
  simp only [compute, segments]

end Joined

namespace Schema

/-- The name is the source itself or a key that the source feeds. -/
def Carries (s : Schema) (source name : String) : Prop :=
  name = source ∨ (name, source) ∈ s.keys.pairs

instance (s : Schema) (source name : String) : Decidable (s.Carries source name) :=
  inferInstanceAs (Decidable (_ ∨ _))

namespace Valid

variable {s : Schema} (valid : s.Valid)
include valid

theorem carries_undeclared (member : j ∈ s.joined) (carries : s.Carries j.target name) :
    ¬s.isDeclared name := by
  intro declared
  rcases carries with rfl | pair
  · exact valid.targetUndeclared j member declared
  · have own := valid.ownSource _ _ pair declared
    exact valid.targetUndeclared j member (own ▸ declared)

theorem carries_unique (first : j ∈ s.joined) (second : k ∈ s.joined)
    (carriesFirst : s.Carries j.target name) (carriesSecond : s.Carries k.target name) : j = k := by
  apply valid.joined_unique first second
  rcases carriesFirst with own | pair <;> rcases carriesSecond with own' | pair'
  · exact own.symm.trans own'
  · exact absurd pair' (valid.joined_noKey (isJoined_iff.2 ⟨j, first, own.symm⟩))
  · exact absurd pair (valid.joined_noKey (isJoined_iff.2 ⟨k, second, own'.symm⟩))
  · exact valid.source_unique pair pair'

end Valid

theorem get?_copies (keys : List String) (source : String) (current : Option Value)
    (values : NameMap Value) (name : String) :
    (keys.foldl (fun values key => if key = source then values else values.put key current)
      values).get? name =
      if name ∈ keys ∧ name ≠ source then current else values.get? name := by
  induction keys generalizing values with
  | nil => simp
  | cons key rest ih =>
    rw [List.foldl_cons, ih]
    by_cases own : key = source
    · rw [if_pos own]
      by_cases same : name = key
      · simp [same, own]
      · simp [same]
    · rw [if_neg own, NameMap.get?_put]
      by_cases same : name = key
      · subst same; simp [own]
      · simp [same, Ne.symm same]

theorem get?_project (s : Schema) (source : String) (values : NameMap Value) (name : String) :
    (s.project source values).get? name =
      if (name, source) ∈ s.keys.pairs then values.get? source else values.get? name := by
  rw [project, get?_copies]
  simp only [BindingTable.mem_keysOf]
  by_cases own : name = source
  · simp [own]
  · simp [own]

theorem get?_deriveJoined (s : Schema) (j : Joined) (values : NameMap Value) (name : String) :
    (s.deriveJoined values j).get? name =
      if s.Carries j.target name then some (j.compute values) else values.get? name := by
  simp only [deriveJoined, get?_project, NameMap.get?_insert, Carries, if_true]
  by_cases pair : (name, j.target) ∈ s.keys.pairs
  · simp [pair]
  · by_cases own : name = j.target
    · simp [own]
    · simp [pair, own, Ne.symm own]

theorem get?_deriveAll_of_not_carries {s : Schema} {js : List Joined} (values : NameMap Value)
    (apart : ∀ j ∈ js, ¬s.Carries j.target name) :
    (js.foldl s.deriveJoined values).get? name = values.get? name := by
  induction js generalizing values with
  | nil => rfl
  | cons first rest ih =>
    rw [List.foldl_cons, ih _ (fun j h => apart j (List.mem_cons_of_mem _ h)), get?_deriveJoined,
      if_neg (apart first List.mem_cons_self)]

section Fold

variable {s : Schema} (valid : s.Valid) {js : List Joined} (all : ∀ j ∈ js, j ∈ s.joined)
include valid all

theorem get?_deriveAll_declared (values : NameMap Value) (declared : s.isDeclared name) :
    (js.foldl s.deriveJoined values).get? name = values.get? name :=
  get?_deriveAll_of_not_carries values fun j h carries =>
    valid.carries_undeclared (all j h) carries declared

theorem compute_deriveAll (values : NameMap Value) (member : k ∈ s.joined) :
    k.compute (js.foldl s.deriveJoined values) = k.compute values :=
  Joined.compute_congr fun source named =>
    get?_deriveAll_declared valid all values (valid.sourcesDeclared k member source named)

/-- Every joined attribute of the list is computed from the values in front of the fold. -/
theorem get?_deriveAll (values : NameMap Value) (member : k ∈ js) (carries : s.Carries k.target name) :
    (js.foldl s.deriveJoined values).get? name = some (k.compute values) := by
  induction js generalizing values with
  | nil => simp at member
  | cons first rest ih =>
    have here := all first List.mem_cons_self
    have there : ∀ j ∈ rest, j ∈ s.joined := fun j h => all j (List.mem_cons_of_mem _ h)
    have still : k.compute ([first].foldl s.deriveJoined values) = k.compute values :=
      compute_deriveAll valid (by simpa using here) values (all k member)
    rw [List.foldl_cons]
    by_cases again : k ∈ rest
    · rw [ih there _ again]
      exact congrArg some still
    · have same : k = first := (List.mem_cons.1 member).resolve_right again
      subst same
      rw [get?_deriveAll_of_not_carries, get?_deriveJoined, if_pos carries]
      intro j h carries'
      exact again (valid.carries_unique (there j h) here carries' carries ▸ h)

end Fold

theorem mem_dependents {s : Schema} : j ∈ s.dependents name ↔ j ∈ s.joined ∧ name ∈ j.sources := by
  simp [dependents]

section Commit

variable {s : Schema} (valid : s.Valid) {name : String} (declared : s.isDeclared name)
  (value : Option Value) (values : NameMap Value)
include valid

omit valid in
/-- Names that neither the attribute nor a joined attribute reading it is carried by. -/
theorem commit_frame (apart : ¬s.Carries name other)
    (apartJoined : ∀ j ∈ s.joined, name ∈ j.sources → ¬s.Carries j.target other) :
    (s.commit name value values).get? other = values.get? other := by
  have noPair : (other, name) ∉ s.keys.pairs := fun pair => apart (.inr pair)
  have ne : name ≠ other := fun same => apart (.inl same.symm)
  rw [commit, get?_project, if_neg noPair, get?_deriveAll_of_not_carries, NameMap.get?_put,
    if_neg ne]
  intro j h
  obtain ⟨member, reads⟩ := mem_dependents.1 h
  exact apartJoined j member reads

include declared

theorem commit_carried (carries : s.Carries name other) :
    (s.commit name value values).get? other = value := by
  have own : ((s.dependents name).foldl s.deriveJoined (values.put name value)).get? name = value := by
    rw [get?_deriveAll_declared valid (fun j h => (mem_dependents.1 h).1) _ declared,
      NameMap.get?_put, if_pos rfl]
  rw [commit, get?_project]
  rcases carries with rfl | pair
  · rw [own, ite_self]
  · rw [if_pos pair, own]

theorem commit_joined (member : j ∈ s.joined) (reads : name ∈ j.sources)
    (carries : s.Carries j.target other) :
    (s.commit name value values).get? other = some (j.compute (values.put name value)) := by
  have noPair : (other, name) ∉ s.keys.pairs := by
    intro pair
    rcases carries with rfl | pair'
    · exact valid.joined_noKey (isJoined_iff.2 ⟨j, member, rfl⟩) pair
    · exact valid.targetUndeclared j member (valid.source_unique pair pair' ▸ declared)
  rw [commit, get?_project, if_neg noPair]
  exact get?_deriveAll valid (fun j h => (mem_dependents.1 h).1) _ (mem_dependents.2 ⟨member, reads⟩)
    carries

theorem commit_declared (declaredOther : s.isDeclared other) :
    (s.commit name value values).get? other =
      if other = name then value else values.get? other := by
  by_cases same : other = name
  · rw [if_pos same, commit_carried valid declared value values (.inl same)]
  · rw [if_neg same]
    apply commit_frame
    · rintro (own | pair)
      · exact same own
      · exact same (valid.ownSource _ _ pair declaredOther).symm
    · exact fun j member _ carries => valid.carries_undeclared member carries declaredOther

theorem compute_commit (member : j ∈ s.joined) :
    j.compute (s.commit name value values) = j.compute (values.put name value) := by
  apply Joined.compute_congr
  intro source named
  rw [commit_declared valid declared value values (valid.sourcesDeclared j member source named),
    NameMap.get?_put]
  simp only [eq_comm]

/-- A key follows its source, or neither of the two is touched. -/
theorem commit_pair (pair : (key, source) ∈ s.keys.pairs) :
    (s.commit name value values).get? key = (s.commit name value values).get? source ∨
      ((s.commit name value values).get? key = values.get? key ∧
        (s.commit name value values).get? source = values.get? source) := by
  by_cases own : source = name
  · subst own
    left
    rw [commit_carried valid declared value values (.inl rfl),
      commit_carried valid declared value values (.inr pair)]
  by_cases read : ∃ j ∈ s.joined, name ∈ j.sources ∧ j.target = source
  · obtain ⟨j, member, reads, rfl⟩ := read
    left
    rw [commit_joined valid declared value values member reads (.inl rfl),
      commit_joined valid declared value values member reads (.inr pair)]
  have apart : ∀ other, other = key ∨ other = source → ¬s.Carries name other := by
    rintro other (rfl | rfl) (h | h)
    · exact own (valid.ownSource _ _ pair (h ▸ declared) |>.trans h)
    · exact own (valid.source_unique pair h)
    · exact own h
    · exact own (valid.source_own pair h).symm
  have apartJoined : ∀ other, other = key ∨ other = source →
      ∀ j ∈ s.joined, name ∈ j.sources → ¬s.Carries j.target other := by
    rintro other same j member reads carries
    refine read ⟨j, member, reads, ?_⟩
    rcases same with rfl | rfl <;> rcases carries with h | h
    · exact absurd pair (valid.joined_noKey (isJoined_iff.2 ⟨j, member, h.symm⟩))
    · exact valid.source_unique h pair
    · exact h.symm
    · exact valid.source_own pair h
  right
  exact ⟨commit_frame value values (apart key (.inl rfl)) (apartJoined key (.inl rfl)),
    commit_frame value values (apart source (.inr rfl)) (apartJoined source (.inr rfl))⟩

end Commit

section Refresh

variable {s : Schema} (valid : s.Valid)

theorem get?_insertAll_of_not_target {js : List Joined} (values : NameMap Value)
    (apart : ∀ j ∈ js, j.target ≠ name) :
    (js.foldl (fun values j => values.insert j.target (j.compute values)) values).get? name =
      values.get? name := by
  induction js generalizing values with
  | nil => rfl
  | cons first rest ih =>
    rw [List.foldl_cons, ih _ (fun j h => apart j (List.mem_cons_of_mem _ h)), NameMap.get?_insert,
      if_neg (apart first List.mem_cons_self)]

/-- What no other name feeds stands still while sources are projected. -/
theorem get?_project_of_own (source : String) (values : NameMap Value)
    (own : ∀ source, (name, source) ∈ s.keys.pairs → source = name) :
    (s.project source values).get? name = values.get? name := by
  rw [get?_project]
  split
  · next pair => rw [own _ pair]
  · rfl

theorem get?_projectAll_of_own {pairs : List (String × String)} (values : NameMap Value)
    (own : ∀ source, (name, source) ∈ s.keys.pairs → source = name) :
    (pairs.foldl (fun values pair => s.project pair.2 values) values).get? name =
      values.get? name := by
  induction pairs generalizing values with
  | nil => rfl
  | cons first rest ih => rw [List.foldl_cons, ih, get?_project_of_own first.2 values own]

include valid

theorem get?_insertAll {js : List Joined} (all : ∀ j ∈ js, j ∈ s.joined) (values : NameMap Value)
    (member : k ∈ js) :
    (js.foldl (fun values j => values.insert j.target (j.compute values)) values).get? k.target =
      some (k.compute values) := by
  induction js generalizing values with
  | nil => simp at member
  | cons first rest ih =>
    have here := all first List.mem_cons_self
    have there : ∀ j ∈ rest, j ∈ s.joined := fun j h => all j (List.mem_cons_of_mem _ h)
    rw [List.foldl_cons]
    by_cases again : k ∈ rest
    · rw [ih there _ again]
      apply congrArg some
      apply Joined.compute_congr
      intro source named
      rw [NameMap.get?_insert, if_neg]
      rintro rfl
      exact valid.targetUndeclared first here
        (valid.sourcesDeclared k (all k member) _ named)
    · have same : k = first := (List.mem_cons.1 member).resolve_right again
      subst same
      rw [get?_insertAll_of_not_target, NameMap.get?_insert, if_pos rfl]
      intro j h same
      exact again (valid.joined_unique (there j h) here same ▸ h)

/-- A key that agrees with its source before, or whose source is among the projected ones. -/
theorem get?_projectAll {pairs : List (String × String)} (values : NameMap Value)
    (pair : (key, source) ∈ s.keys.pairs)
    (reached : values.get? key = values.get? source ∨ (key, source) ∈ pairs) :
    (pairs.foldl (fun values pair => s.project pair.2 values) values).get? key =
      values.get? source := by
  induction pairs generalizing values with
  | nil => simpa using reached
  | cons first rest ih =>
    have still := get?_project_of_own first.2 values fun _ again => valid.source_own pair again
    rw [List.foldl_cons, ih, still]
    rw [still, get?_project]
    by_cases here : first.2 = source
    · simp [here, pair]
    · rw [if_neg fun other => here (valid.source_unique other pair)]
      refine reached.imp id fun member => ?_
      rcases List.mem_cons.1 member with rfl | member
      · exact absurd rfl here
      · exact member

theorem own_of_declared (declared : s.isDeclared name) :
    ∀ source, (name, source) ∈ s.keys.pairs → source = name :=
  fun _ pair => valid.ownSource _ _ pair declared

theorem own_of_joined (joined : s.isJoined name) :
    ∀ source, (name, source) ∈ s.keys.pairs → source = name :=
  fun _ pair => absurd pair (valid.joined_noKey joined)

omit valid in
theorem refresh_frame (values : NameMap Value) (plain : ¬s.isJoined name)
    (own : ∀ source, (name, source) ∈ s.keys.pairs → source = name) :
    (s.refresh values).get? name = values.get? name := by
  rw [refresh, get?_projectAll_of_own _ own, get?_insertAll_of_not_target]
  exact fun j member same => plain (isJoined_iff.2 ⟨j, member, same⟩)

theorem refresh_declared (values : NameMap Value) (declared : s.isDeclared name) :
    (s.refresh values).get? name = values.get? name :=
  refresh_frame values (fun joined => valid.joined_undeclared joined declared)
    (own_of_declared valid declared)

theorem compute_refresh (values : NameMap Value) (member : j ∈ s.joined) :
    j.compute (s.refresh values) = j.compute values :=
  Joined.compute_congr fun source named =>
    refresh_declared valid values (valid.sourcesDeclared j member source named)

theorem refresh_joined (values : NameMap Value) (member : j ∈ s.joined) :
    (s.refresh values).get? j.target = some (j.compute values) := by
  rw [refresh, get?_projectAll_of_own _ (own_of_joined valid (isJoined_iff.2 ⟨j, member, rfl⟩)),
    get?_insertAll valid (fun _ h => h) values member]

theorem refresh_pair (values : NameMap Value) (pair : (key, source) ∈ s.keys.pairs) :
    (s.refresh values).get? key = (s.refresh values).get? source := by
  rw [refresh, get?_projectAll valid _ pair (.inr ((valid.bound _).1 pair)),
    get?_projectAll_of_own _ fun _ again => valid.source_own pair again]

end Refresh

/-- Gives a name a value unless it has one. -/
theorem get?_fill (values : NameMap Value) (target : String) (value : Option Value) (name : String) :
    (if values.contains target then values else
      match value with
      | some value => values.insert target value
      | none => values).get? name =
      (values.get? name).or (if target = name then value else none) := by
  cases present : values.get? target with
  | some old =>
    by_cases same : target = name
    · subst same; simp [NameMap.contains, present]
    · simp [NameMap.contains, present, same]
  | none =>
    rw [if_neg (by simp [NameMap.contains, present])]
    by_cases same : target = name
    · subst same; cases value <;> simp [NameMap.get?_insert, present]
    · cases value <;> simp [NameMap.get?_insert, same]

/-- Of several steps that fill a name the first one counts. -/
theorem get?_fillAll {step : NameMap Value → String × String → NameMap Value}
    (f : String × String → String → Option Value)
    (one : ∀ values pair name, (step values pair).get? name = (values.get? name).or (f pair name))
    (pairs : List (String × String)) (values : NameMap Value) (name : String) :
    (pairs.foldl step values).get? name =
      (values.get? name).or (pairs.findSome? fun pair => f pair name) := by
  induction pairs generalizing values with
  | nil => simp
  | cons first rest ih =>
    rw [List.foldl_cons, ih, one, Option.or_assoc, List.findSome?_cons]
    cases f first name <;> rfl

theorem get?_keepKeys (s : Schema) (raw values : NameMap Value) (name : String) :
    (s.keepKeys raw values).get? name =
      (values.get? name).or (if s.keys.isKey name then raw.get? name else none) := by
  unfold keepKeys
  rw [get?_fillAll (fun pair name => if pair.1 = name then raw.get? pair.1 else none)
    (by exact fun values pair => get?_fill values pair.1 (raw.get? pair.1))]
  congr 1
  cases found : s.keys.pairs.findSome? fun pair => if pair.1 = name then raw.get? pair.1 else none with
  | some value =>
    obtain ⟨pair, member, value⟩ := List.exists_of_findSome?_eq_some found
    split at value
    · next same =>
      subst same
      rw [if_pos (BindingTable.isKey_iff.2 ⟨pair.2, member⟩), value]
    · cases value
  | none =>
    split
    · next isKey =>
      obtain ⟨source, member⟩ := BindingTable.isKey_iff.1 isKey
      simpa using (List.findSome?_eq_none_iff.1 found _ member).symm
    · rfl

theorem get?_recover (s : Schema) (raw values : NameMap Value) (name : String) :
    (s.recover raw values).get? name =
      (values.get? name).or
        (if s.isDeclared name then (s.keys.keysOf name).findSome? raw.get? else none) := by
  unfold recover
  rw [get?_fillAll (fun pair name => if pair.2 = name then
    if s.isDeclared pair.2 then raw.get? pair.1 else none else none)]
  · congr 1
    by_cases declared : s.isDeclared name
    · rw [if_pos declared, BindingTable.keysOf, List.findSome?_map]
      induction s.keys.pairs with
      | nil => rfl
      | cons first rest ih =>
        rw [List.findSome?_cons]
        by_cases same : first.2 = name
        · subst same; simp [declared, ih, List.findSome?_cons]
        · simp [same, ih]
    · rw [if_neg declared, List.findSome?_eq_none_iff]
      intro pair member
      split
      · next same => rw [same, if_neg declared]
      · rfl
  · intro values pair name
    rw [← get?_fill]
    cases declared : s.isDeclared pair.2 with
    | false => simp [declared]
    | true => simp only [declared]; rfl

end Schema

end WideColumn
