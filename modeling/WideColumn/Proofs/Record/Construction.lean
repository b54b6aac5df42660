import WideColumn.Proofs.Record.Commute

/-! Creating a record and setting its attributes one by one. A record that is created gets its
joined attributes at the end, one that exists keeps them in step with every write. On the way the
two agree on the declared attributes alone, and at the end on everything, as the rest follows from
these. -/
namespace WideColumn

open Outcome

namespace Schema

variable {s : Schema}

theorem Built.nodup_attributes (built : s.Built) : s.attributes.Nodup := by
  obtain ⟨indexes, d, -, built⟩ := built
  rw [(Draft.build_ok.1 built).made]
  exact Draft.nodup_distinct d.attributes

/-- Without orphans the declared attributes determine all values. -/
theorem InStep.ext_of_noOrphans (valid : s.Valid) {m n : NameMap Value} (inStep : s.InStep m)
    (inStep' : s.InStep n) (noOrphans : s.NoOrphans m) (noOrphans' : s.NoOrphans n)
    (declared : ∀ name, s.isDeclared name → m.get? name = n.get? name) : m = n := by
  apply InStep.ext valid inStep inStep' declared
  intro key source pair missing
  rw [noOrphans key source pair missing]
  rcases valid.keySource _ _ pair with known | joined
  · rw [noOrphans' key source pair (declared source known ▸ missing)]
  · obtain ⟨j, member, rfl⟩ := isJoined_iff.1 joined
    rw [inStep.joined j member] at missing
    cases missing

def supplied (inputs : NameMap Value) (attributes : List String) : List (String × Value) :=
  attributes.filterMap fun name => (inputs.get? name).map fun value => (name, value)

end Schema

namespace Record

structure Resembles (s : Schema) (r r' : Record) : Prop where
  values : ∀ name, s.isDeclared name → r.values.get? name = r'.values.get? name
  snapshot : ∀ name, s.isDeclared name → r.snapshot.get? name = r'.snapshot.get? name

/-- Sets attributes one after the other; the first refusal is the result. -/
def setAll (s : Schema) : Record → List (String × Value) → Except MapperError Record
  | r, [] => .ok r
  | r, (name, value) :: rest => do
    let r ← r.set s name value
    setAll s r rest

end Record

/-- Mutators look at no more of the record than its declared attributes. -/
def Schema.ReadsDeclared (s : Schema) : Prop :=
  ∀ m ∈ s.mutators, ∀ value (r r' : Record), r.Resembles s r' → m.apply value r = m.apply value r'

theorem Schema.ReadsDeclared.mutate {s : Schema} (reads : s.ReadsDeclared) {r r' : Record}
    (alike : r.Resembles s r') (name : String) (value : Value) :
    s.mutate name value r = s.mutate name value r' := by
  unfold Schema.mutate
  cases found : s.mutator? name with
  | none => rfl
  | some m => exact reads m (by simpa using List.mem_of_find?_eq_some found) value r r' alike

theorem Reached.setAll {s : Schema} {origin : Origin} {r r' : Record} (reached : Reached s origin r)
    (done : r.setAll s sets = .ok r') : Reached s origin r' := by
  induction sets generalizing r with
  | nil => cases done; exact reached
  | cons entry rest ih =>
    obtain ⟨name, value⟩ := entry
    obtain ⟨next, written, done⟩ := bind_ok.1 done
    have attempted : r.attempt s ⟨name, some value⟩ = next := by
      unfold Record.attempt
      rw [show r.write s name (some value) = .ok next from written]
    exact ih (attempted ▸ reached.attempt) done

namespace Record

variable {s : Schema}

theorem assign_missing {r : Record} (missing : r.values.get? name = none) (value : Value) :
    r.assign s name (some value) =
      .ok { r with values := s.commit name (some (s.mutate name value r)) r.values } := by
  have admitted (value : Option Value) : r.admission s name value = .write := by
    simp [admission, missing]
  simp only [assign, admitted, Option.map_some]

theorem checkInputs_ok (valid : s.Valid) {names : List String}
    (declared : ∀ name ∈ names, s.isDeclared name) : checkInputs s names = .ok () := by
  induction names with
  | nil => rfl
  | cons name rest ih =>
    have known := declared name List.mem_cons_self
    have plain : ¬s.isJoined name := fun joined => valid.joined_undeclared joined known
    simp only [checkInputs, if_neg plain, checkWritable_ok.2 known, ok_bind]
    exact ih fun other member => declared other (List.mem_cons_of_mem _ member)

theorem assignAll_empty (r : Record) (names : List String) : assignAll s {} r names = .ok r := by
  induction names with
  | nil => rfl
  | cons name rest ih => exact ih

theorem create_of_assigned (checked : checkInputs s inputs.names = .ok ()) (optional : s.required = [])
    (assigned : assignAll s inputs ⟨{}, {}⟩ s.attributes = .ok r) :
    create s inputs = .ok ⟨s.refresh r.values, s.refresh r.values⟩ := by
  simp only [create, checked, optional, List.find?_nil, assigned, ok_bind]
  rfl

section Stepwise

variable (valid : s.Valid) (reads : s.ReadsDeclared)
include valid

theorem Resembles.commit {r r' : Record} (alike : r.Resembles s r') (declared : s.isDeclared name)
    (value : Option Value) :
    Resembles s { r with values := s.commit name value r.values }
      { r' with values := s.commit name value r'.values } where
  values other known := by
    rw [Schema.commit_declared valid declared value _ known,
      Schema.commit_declared valid declared value _ known, alike.values other known]
  snapshot := alike.snapshot

include reads

/-- An attribute that is missing is assigned in one record and set in the other. They stay alike, and
what else is declared stays as it was. -/
theorem assign_resembles {r r' : Record} (alike : r.Resembles s r') (known : s.isDeclared name)
    (missing : r.values.get? name = none) (value : Value) :
    ∃ a b, r.assign s name (some value) = .ok a ∧ r'.set s name value = .ok b ∧ a.Resembles s b ∧
      ∀ other, s.isDeclared other → other ≠ name → a.values.get? other = r.values.get? other := by
  have missing' : r'.values.get? name = none := alike.values name known ▸ missing
  refine ⟨_, _, assign_missing missing value, ?_, alike.commit valid known _,
    fun other declared apart => ?_⟩
  · rw [Record.set, write_declared valid r' known, assign_missing missing', ← reads.mutate alike]
  · rw [Schema.commit_declared valid known _ _ declared, if_neg apart]

/-- Assigning attributes that are missing and setting them goes well either way, and the records
stay alike. -/
theorem assignAll_resembles (inputs : NameMap Value) {names : List String} (apart : names.Nodup)
    (declared : ∀ name ∈ names, s.isDeclared name) {r r' : Record} (alike : r.Resembles s r')
    (missing : ∀ name ∈ names, r.values.get? name = none) :
    ∃ a b, assignAll s inputs r names = .ok a ∧
      r'.setAll s (Schema.supplied inputs names) = .ok b ∧ a.Resembles s b := by
  induction names generalizing r r' with
  | nil => exact ⟨r, r', rfl, rfl, alike⟩
  | cons name rest ih =>
    obtain ⟨fresh, apart⟩ := List.nodup_cons.1 apart
    obtain ⟨known, later⟩ := List.forall_mem_cons.1 declared
    obtain ⟨unset, others⟩ := List.forall_mem_cons.1 missing
    cases given : inputs.get? name with
    | none =>
      have skipped : Schema.supplied inputs (name :: rest) = Schema.supplied inputs rest := by
        simp [Schema.supplied, given]
      rw [assignAll, given, skipped]
      exact ih apart later alike others
    | some value =>
      have taken : Schema.supplied inputs (name :: rest) =
          (name, value) :: Schema.supplied inputs rest := by
        simp [Schema.supplied, given]
      obtain ⟨next, next', assigned, set, alike, kept⟩ :=
        assign_resembles valid reads alike known unset value
      have still (other : String) (member : other ∈ rest) : next.values.get? other = none := by
        rw [kept other (later other member) (ne_of_mem_of_not_mem member fresh), others other member]
      obtain ⟨a, b, assignedAll, allSet, alike⟩ := ih apart later alike still
      refine ⟨a, b, ?_, ?_, alike⟩
      · simp only [assignAll, given, assigned, ok_bind, assignedAll]
      · rw [taken, setAll, set, ok_bind, allSet]

end Stepwise

/-- Creating a record goes well in whatever order its values are supplied, and gives the values
that setting them in the order of the attributes gives a record created without any, where none is
refused. -/
theorem create_stepwise (built : s.Built) (optional : s.required = []) (reads : s.ReadsDeclared)
    (inputs : NameMap Value) (declared : ∀ name ∈ inputs.names, s.isDeclared name) :
    ∃ r blank r', (∀ entries : List (String × Value), entries.Perm inputs.entries →
        create s (NameMap.ofList entries) = .ok r) ∧
      create s {} = .ok blank ∧ blank.setAll s (Schema.supplied inputs s.attributes) = .ok r' ∧
      r'.values = r.values := by
  have valid := built.valid
  have isDeclared (name : String) (member : name ∈ s.attributes) : s.isDeclared name := by
    simpa [Schema.isDeclared] using member
  have created : create s {} = .ok ⟨s.refresh {}, s.refresh {}⟩ :=
    create_of_assigned rfl optional (assignAll_empty _ _)
  have bare (name : String) (known : s.isDeclared name) :
      NameMap.get? {} name = (s.refresh {}).get? name :=
    (Schema.refresh_declared valid {} known).symm
  have alike : Resembles s ⟨{}, {}⟩ ⟨s.refresh {}, s.refresh {}⟩ := ⟨bare, bare⟩
  obtain ⟨a, b, assigned, set, alike⟩ := assignAll_resembles valid reads inputs
    built.nodup_attributes isDeclared alike fun _ _ => rfl
  have made := create_of_assigned (checkInputs_ok valid declared) optional assigned
  have reached : Reached s (.created inputs) _ := .start made
  have begun : Reached s (.created {}) _ := .start created
  have reached' := begun.setAll set
  refine ⟨⟨s.refresh a.values, s.refresh a.values⟩, _, b, fun entries perm => ?_, created, set, ?_⟩
  · rw [NameMap.ofList_eq_of_perm perm, made]
  · apply Schema.InStep.ext_of_noOrphans valid (reached'.inStep valid) (reached.inStep valid)
      (reached'.noOrphans valid trivial) (reached.noOrphans valid trivial)
    intro name known
    rw [Schema.refresh_declared valid _ known, alike.values name known]

end Record

namespace Orders

def prefixed : Schema where
  __ := schema
  mutators := [⟨"kind", fun _ value r =>
    .string (Joined.segment r.values "account" ++ "/" ++ value.joinSegment)⟩]

theorem built_prefixed : prefixed.Built :=
  ⟨catalog.indexes, { draft with mutators := prefixed.mutators }, rfl, rfl⟩

theorem readsDeclared_prefixed : prefixed.ReadsDeclared := by
  intro m member value r r' alike
  obtain rfl := List.mem_singleton.1 member
  simp only [Mutator.apply, Joined.segment, alike.values "account" rfl]

end Orders

/-- The values are supplied with the kind in front, and the mutator of the kind still finds the
account. -/
theorem Record.create_stepwise_prefixed :
    Orders.prefixed.Built ∧ Orders.prefixed.required = [] ∧ Orders.prefixed.ReadsDeclared ∧
      (∀ name ∈ Orders.inputs.names, Orders.prefixed.isDeclared name) ∧
      ∃ r blank r', create Orders.prefixed (NameMap.ofList Orders.inputs.entries.reverse) = .ok r ∧
        create Orders.prefixed {} = .ok blank ∧
        blank.setAll Orders.prefixed [("account", .string "a1"), ("at", .int 7),
          ("kind", .string "new")] = .ok r' ∧
        r'.values = r.values ∧ r'.get? "kindAtKey" = some (.string "a1/new~7") := by
  have declared : ∀ name ∈ Orders.inputs.names, Orders.prefixed.isDeclared name := by decide
  obtain ⟨r, blank, r', any, created, set, same⟩ := Record.create_stepwise Orders.built_prefixed rfl
    Orders.readsDeclared_prefixed Orders.inputs declared
  refine ⟨Orders.built_prefixed, rfl, Orders.readsDeclared_prefixed, declared, r, blank, r',
    any _ Orders.inputs.entries.reverse_perm, created, set, same, ?_⟩
  obtain rfl := Except.ok.inj (created.symm.trans (show create _ _ = .ok _ from rfl))
  obtain rfl := Except.ok.inj (set.symm.trans (show setAll _ _ _ = .ok _ from rfl))
  rfl

end WideColumn
