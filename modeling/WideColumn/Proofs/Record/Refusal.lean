import WideColumn.Proofs.Record.Immutable

/-! What one write does to a record: which error refuses it, and how far an accepted one reaches.
`Record.write` answers with a new record, in which a half-done write could not show. `Edit.write`
changes the record it is given step by step; `Edit.write_run` says that it does all or nothing. -/
namespace WideColumn

open Outcome

/-- Changes a record where it stands. What an error leaves behind is the record as changed so
far. -/
abbrev Edit := ExceptT MapperError (StateM Record)

namespace Edit

def run (e : Edit α) (r : Record) : Except MapperError α × Record :=
  (StateT.run (ExceptT.run e) r).run

def put (name : String) (value : Option Value) : Edit Unit :=
  modify fun r => { r with values := r.values.put name value }

/-- Copies what the source has now to the keys it feeds. -/
def project (s : Schema) (source : String) : Edit Unit := do
  let current := (← get).get? source
  forM (s.keys.keysOf source) fun key => do
    if key ≠ source then put key current

def derive (s : Schema) (j : Joined) : Edit Unit := do
  put j.target (some (j.compute (← get).values))
  project s j.target

/-- Whether the value of an attribute that may not change is to be written. -/
def admission (s : Schema) (name : String) (value : Option Value) : Edit Bool := do
  if s.isImmutable name then
    if let some current := (← get).get? name then
      let same := value.any (current == ·)
      if !current.isNull && !same then throw (.immutable name .setBefore)
      return !same
  return true

def commit (s : Schema) (name : String) (value : Option Value) : Edit Unit := do
  put name value
  forM (s.dependents name) (derive s)
  project s name

def assign (s : Schema) (name : String) (value : Option Value) : Edit Unit := do
  let r ← get
  let value := value.map fun v => s.mutate name v r
  if ← admission s name value then commit s name value

def write (s : Schema) (name : String) (value : Option Value) : Edit Unit := do
  if s.isJoined name then throw (.protectedWrite name .joined)
  s.checkWritable name
  assign s name value

/-- Ends well and changes the values as `step` does. -/
def Makes (e : Edit Unit) (step : NameMap Value → NameMap Value) : Prop :=
  ∀ r, run e r = (.ok (), { r with values := step r.values })

theorem put_makes (name : String) (value : Option Value) :
    Makes (put name value) fun values => values.put name value :=
  fun _ => rfl

theorem run_bind (e : Edit α) (next : α → Edit β) (r : Record) :
    run (e >>= next) r =
      match run e r with
      | (.ok a, r) => run (next a) r
      | (.error e, r) => (.error e, r) := by
  simp only [run, ExceptT.run_bind, StateT.run_bind]
  rcases StateT.run (ExceptT.run e) r with ⟨stop | done, r'⟩ <;> rfl

theorem run_get (r : Record) : run get r = (.ok r, r) := rfl

theorem Makes.andThen {e e' : Edit Unit} (first : Makes e f) (second : Makes e' g) :
    Makes (do e; e') (g ∘ f) := by
  intro r
  rw [run_bind, first r]
  exact second _

theorem Makes.forM {each : α → Edit Unit} (step : NameMap Value → α → NameMap Value)
    (makes : ∀ a, Makes (each a) fun values => step values a) (items : List α) :
    Makes (forM items each) fun values => items.foldl step values := by
  induction items with
  | nil => exact fun _ => rfl
  | cons first rest ih =>
    rw [List.forM_cons]
    exact (makes first).andThen ih

theorem project_makes (s : Schema) (source : String) :
    Makes (project s source) (s.project source) := by
  intro r
  apply Makes.forM fun values key =>
    if key = source then values else values.put key (r.get? source)
  intro key r'
  by_cases own : key = source
  · simp only [own, ne_eq, not_true_eq_false, if_false, if_true]
    rfl
  · simp only [own, ne_eq, not_false_eq_true, if_true, if_false]
    rfl

theorem derive_makes (s : Schema) (j : Joined) :
    Makes (derive s j) fun values => s.deriveJoined values j := by
  intro r
  rw [derive, run_bind, run_get]
  exact (put_makes j.target (some (j.compute r.values))).andThen (project_makes s j.target) r

theorem commit_makes (s : Schema) (name : String) (value : Option Value) :
    Makes (commit s name value) (s.commit name value) :=
  (put_makes name value).andThen <|
    (Makes.forM s.deriveJoined (derive_makes s) (s.dependents name)).andThen (project_makes s name)

/-- Admission reads the record and leaves it alone. -/
theorem admission_run (s : Schema) (name : String) (value : Option Value) (r : Record) :
    run (admission s name value) r =
      match r.admission s name value with
      | .write => (.ok true, r)
      | .keep => (.ok false, r)
      | .refuse => (.error (.immutable name .setBefore), r) := by
  unfold admission Record.admission
  cases s.isImmutable name with
  | false => rfl
  | true =>
    simp only [if_true, run_bind, run_get]
    show run (match r.values.get? name with | some _ => _ | _ => _) r = _
    cases r.values.get? name with
    | none => rfl
    | some current =>
      dsimp only
      cases value.any (current == ·) <;> cases current.isNull <;> rfl

/-- The checks come before every change, so an error finds the record as it was. -/
theorem assign_run (s : Schema) (name : String) (value : Option Value) (r : Record) :
    run (assign s name value) r =
      match r.assign s name value with
      | .ok r' => (.ok (), r')
      | .error e => (.error e, r) := by
  simp only [assign, run_bind, run_get, admission_run, Record.assign]
  cases r.admission s name (value.map fun v => s.mutate name v r) with
  | write => exact commit_makes s name _ r
  | keep => rfl
  | refuse => rfl

theorem write_run (s : Schema) (name : String) (value : Option Value) (r : Record) :
    run (write s name value) r =
      match r.write s name value with
      | .ok r' => (.ok (), r')
      | .error e => (.error e, r) := by
  unfold write Record.write
  cases s.isJoined name with
  | true => rfl
  | false =>
    cases s.checkWritable name with
    | error e => rfl
    | ok => exact assign_run s name value r

end Edit

namespace Schema

/-- The reasons to refuse a write, with the errors they are reported as. -/
inductive Refuses (s : Schema) (r : Record) (name : String) (value : Option Value) :
    MapperError → Prop where
  | joined : s.isJoined name → Refuses s r name value (.protectedWrite name .joined)
  | key : s.keys.isKey name → ¬s.isDeclared name →
    Refuses s r name value (.protectedWrite name .physicalKey)
  | unknown : ¬s.isDeclared name → ¬s.isJoined name → ¬s.keys.isKey name →
    Refuses s r name value (.unknownAttribute name)
  | immutable : s.isImmutable name → r.get? name = some current → current.isNull = false →
    (∀ new ∈ value, (current == s.mutate name new r) = false) →
    Refuses s r name value (.immutable name .setBefore)

/-- What a write to `name` may change: itself, the joined attributes that read it, and the keys
of these. -/
def Reaches (s : Schema) (name other : String) : Prop :=
  s.Carries name other ∨ ∃ j ∈ s.joined, name ∈ j.sources ∧ s.Carries j.target other

instance (s : Schema) (name other : String) : Decidable (s.Reaches name other) :=
  inferInstanceAs (Decidable (_ ∨ _))

/-- Of the attributes only the written one and the joined ones that read it are reached: no key
overwrites another attribute. -/
theorem Reaches.logical {s : Schema} (valid : s.Valid) (reaches : s.Reaches name other)
    (logical : s.isDeclared other ∨ s.isJoined other) :
    other = name ∨ ∃ j ∈ s.joined, name ∈ j.sources ∧ other = j.target := by
  have own : ∀ source, (other, source) ∈ s.keys.pairs → source = other := fun source pair =>
    logical.elim (own_of_declared valid · source pair) (own_of_joined valid · source pair)
  rcases reaches with (same | pair) | ⟨j, member, reads, same | pair⟩
  · exact .inl same
  · exact .inl (own _ pair).symm
  · exact .inr ⟨j, member, reads, same⟩
  · exact .inr ⟨j, member, reads, (own _ pair).symm⟩

end Schema

namespace Record

variable {s : Schema}

theorem admission_refuse {r : Record} : r.admission s name value = .refuse ↔
    s.isImmutable name ∧ ∃ current, r.get? name = some current ∧ current.isNull = false ∧
      value.any (current == ·) = false := by
  unfold admission get?
  cases s.isImmutable name with
  | false => simp
  | true =>
    cases r.values.get? name with
    | none => simp
    | some current =>
      simp only [Option.some.injEq, exists_eq_left', if_true, true_and]
      cases value.any (current == ·) <;> cases current.isNull <;> simp

theorem assign_error {r : Record} : r.assign s name value = .error e ↔
    e = .immutable name .setBefore ∧
      r.admission s name (value.map fun v => s.mutate name v r) = .refuse := by
  unfold assign
  dsimp only
  split
  · next admitted => simp [admitted]
  · next admitted => simp [admitted]
  · next admitted => simp [admitted, eq_comm]

theorem write_error {r : Record} : r.write s name value = .error e ↔
    (s.isJoined name ∧ e = .protectedWrite name .joined) ∨
      (¬s.isJoined name ∧ s.checkWritable name = .error e) ∨
      (¬s.isJoined name ∧ s.isDeclared name ∧ r.assign s name value = .error e) := by
  by_cases joined : s.isJoined name
  · rw [write, if_pos joined]
    show Except.error _ = Except.error e ↔ _
    rw [Except.error.injEq, eq_comm]
    simp only [joined, true_and, not_true_eq_false, false_and, or_false]
  · have checked :
        r.write s name value = s.checkWritable name >>= fun _ => r.assign s name value := by
      rw [write, if_neg joined]
    simp only [checked, bind_error, joined, false_and, false_or, not_false_eq_true, true_and,
      Bool.false_eq_true, ← checkWritable_ok]
    refine or_congr_right ⟨?_, fun passed => ⟨(), passed⟩⟩
    rintro ⟨⟨⟩, passed⟩
    exact passed

theorem checkWritable_error : s.checkWritable name = .error e ↔ ¬s.isDeclared name ∧
    e = if s.keys.isKey name then .protectedWrite name .physicalKey
      else .unknownAttribute name := by
  unfold Schema.checkWritable Schema.isProtectedKey
  cases s.isDeclared name <;> cases s.keys.isKey name <;> simp [eq_comm]

/-- A write is refused for these reasons and for no other. -/
theorem write_error_iff (built : s.Built) (r : Record) :
    r.write s name value = .error e ↔ s.Refuses r name value e := by
  have valid := built.valid
  rw [write_error, checkWritable_error, assign_error, admission_refuse]
  constructor
  · rintro (⟨joined, rfl⟩ | ⟨plain, undeclared, rfl⟩ |
      ⟨-, -, rfl, immutable, current, held, solid, differs⟩)
    · exact .joined joined
    · split
      · next isKey => exact .key isKey undeclared
      · next noKey => exact .unknown undeclared plain noKey
    · refine .immutable immutable held solid fun new given => ?_
      rw [given] at differs
      simpa using differs
  · rintro (joined | ⟨isKey, undeclared⟩ | ⟨undeclared, plain, noKey⟩ |
      ⟨immutable, held, solid, differs⟩)
    · exact .inl ⟨joined, rfl⟩
    · refine .inr (.inl ⟨fun joined => ?_, undeclared, (if_pos isKey).symm⟩)
      obtain ⟨source, pair⟩ := BindingTable.isKey_iff.1 isKey
      exact valid.joined_noKey joined pair
    · exact .inr (.inl ⟨plain, undeclared, (if_neg noKey).symm⟩)
    · have declared := built.immutable_declared immutable
      refine .inr (.inr ⟨fun joined => valid.joined_undeclared joined declared, declared, rfl,
        immutable, _, held, solid, ?_⟩)
      cases value with
      | none => rfl
      | some new => exact differs new rfl

theorem write_frame {r r' : Record} (done : r.write s name value = .ok r') :
    r'.snapshot = r.snapshot ∧ ∀ other, ¬s.Reaches name other → r'.get? other = r.get? other := by
  rcases assign_ok (write_ok done).2 with rfl | rfl
  · exact ⟨rfl, fun _ _ => rfl⟩
  · refine ⟨rfl, fun other apart => ?_⟩
    exact Schema.commit_frame _ _ (fun carries => apart (.inl carries))
      fun j member reads carries => apart (.inr ⟨j, member, reads, carries⟩)

/-- A write is refused for the reasons of `Schema.Refuses` alone, and then the record is left
as it was. A write that is not refused leaves the snapshot and changes only what it reaches,
where it reaches no attributes but the written one and the joined ones that read it. -/
theorem write_effect (built : s.Built) (r : Record) (name : String) (value : Option Value) :
    (∀ e, r.write s name value = .error e ↔ s.Refuses r name value e) ∧
    (∀ e, s.Refuses r name value e → (Edit.write s name value).run r = (.error e, r)) ∧
    ∀ r', r.write s name value = .ok r' →
      (Edit.write s name value).run r = (.ok (), r') ∧ r'.snapshot = r.snapshot ∧
      (∀ other, r'.get? other ≠ r.get? other → s.Reaches name other) ∧
      ∀ other, r'.get? other ≠ r.get? other → s.isDeclared other ∨ s.isJoined other →
        other = name ∨ ∃ j ∈ s.joined, name ∈ j.sources ∧ other = j.target := by
  have valid := built.valid
  refine ⟨fun e => write_error_iff built r, fun e refused => ?_, fun r' done => ?_⟩
  · rw [Edit.write_run, (write_error_iff built r).2 refused]
  · obtain ⟨snapshot, frame⟩ := write_frame done
    have reached : ∀ other, r'.get? other ≠ r.get? other → s.Reaches name other :=
      fun other changed => of_not_not fun apart => changed (frame other apart)
    refine ⟨by rw [Edit.write_run, done], snapshot, reached, fun other changed logical => ?_⟩
    exact (reached other changed).logical valid logical

end Record

/-- The account is there and may not change; the kind is gone and may be written again, which
reaches its key, the joined attribute and the key of that. -/
theorem Record.write_effect_withoutKind :
    Orders.schema.Built ∧
      (Edit.write Orders.schema "account" (some (.string "a2"))).run Orders.withoutKind =
        (.error (.immutable "account" .setBefore), Orders.withoutKind) ∧
      (Edit.write Orders.schema "kindAtKey" none).run Orders.withoutKind =
        (.error (.protectedWrite "kindAtKey" .physicalKey), Orders.withoutKind) ∧
      ∃ r', Orders.withoutKind.write Orders.schema "kind" (some (.string "new")) = .ok r' ∧
        r'.snapshot = Orders.withoutKind.snapshot ∧
        Orders.schema.Reaches "kind" "kindAtKey" ∧ ¬Orders.schema.Reaches "kind" "pk" := by
  obtain ⟨-, account, -⟩ := Record.write_effect Orders.built Orders.withoutKind "account"
    (some (.string "a2"))
  obtain ⟨-, key, -⟩ := Record.write_effect Orders.built Orders.withoutKind "kindAtKey" none
  obtain ⟨-, -, kind⟩ := Record.write_effect Orders.built Orders.withoutKind "kind"
    (some (.string "new"))
  refine ⟨Orders.built, account _ ?_, key _ (.key rfl (by decide)), ?_⟩
  · exact .immutable rfl rfl rfl (by decide)
  · obtain ⟨-, snapshot, reached, -⟩ := kind _ rfl
    refine ⟨_, rfl, snapshot, reached "kindAtKey" ?_, by decide⟩
    show some (Value.string "new~7") ≠ some (.string "~7")
    simp

end WideColumn
