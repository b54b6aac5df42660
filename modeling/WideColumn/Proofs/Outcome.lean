/-! What the good end of a computation says about its steps. A refused computation has an
error for its outcome, so every statement here reads: it ended well exactly when each of
its steps did. -/
namespace WideColumn.Outcome

universe u v w

variable {ε : Type u} {ε' : Type v} {α β : Type w}

@[simp] theorem ok_bind (a : α) (next : α → Except ε β) : (.ok a : Except ε α) >>= next = next a := rfl

@[simp] theorem map_of_ok (f : α → β) (a : α) : f <$> (.ok a : Except ε α) = .ok (f a) := rfl

theorem bind_ok {x : Except ε α} {next : α → Except ε β} {b : β} :
    x >>= next = .ok b ↔ ∃ a, x = .ok a ∧ next a = .ok b := by
  cases x with
  | error e => simp [bind, Except.bind]
  | ok a => simp [bind, Except.bind]

theorem bind_error {x : Except ε α} {next : α → Except ε β} {e : ε} :
    x >>= next = .error e ↔ x = .error e ∨ ∃ a, x = .ok a ∧ next a = .error e := by
  cases x with
  | error e => simp [bind, Except.bind]
  | ok a => simp [bind, Except.bind]

theorem map_ok {x : Except ε α} {f : α → β} {b : β} :
    x.map f = .ok b ↔ ∃ a, x = .ok a ∧ f a = b := by
  cases x <;> simp [Except.map]

theorem map_error {x : Except ε α} {f : α → β} {e : ε} :
    x.map f = .error e ↔ x = .error e := by
  cases x <;> simp [Except.map]

theorem map_map {γ : Type w} (f : α → β) (g : β → γ) (x : Except ε α) :
    (x.map f).map g = x.map fun a => g (f a) := by
  cases x <;> rfl

theorem mapError_ok {x : Except ε α} {f : ε → ε'} {a : α} :
    x.mapError f = .ok a ↔ x = .ok a := by
  cases x with
  | error e => constructor <;> intro same <;> cases same
  | ok b => constructor <;> intro same <;> cases same <;> rfl

theorem pure_ok {a b : α} : (pure a : Except ε α) = .ok b ↔ a = b := by
  simp [pure, Except.pure]

theorem throw_ok {e : ε} {b : α} : (throw e : Except ε α) = .ok b ↔ False := by
  simp [throw, throwThe, MonadExceptOf.throw]

/-- A check in front of a computation. -/
theorem check_ok {refused : Prop} [Decidable refused] {e : ε} {next : α → Except ε β}
    {rest : Except ε β} {b : β} :
    (if refused then throw e >>= next else rest) = .ok b ↔ ¬refused ∧ rest = .ok b := by
  by_cases h : refused <;> simp [h, bind_ok, throw_ok]

/-- Every error that the computation can end with satisfies `p`. -/
def Fails (p : ε → Prop) (x : Except ε α) : Prop := ∀ e, x = .error e → p e

theorem fails_ok {p : ε → Prop} (a : α) : Fails p (.ok a : Except ε α) := by
  intro e same
  cases same

theorem fails_error {p : ε → Prop} {e : ε} (h : p e) : Fails p (.error e : Except ε α) := by
  intro e' same
  cases same
  exact h

theorem Fails.mono {p q : ε → Prop} {x : Except ε α} (fails : Fails p x) (h : ∀ e, p e → q e) :
    Fails q x :=
  fun e same => h e (fails e same)

theorem fails_bind {p : ε → Prop} {x : Except ε α} {next : α → Except ε β} (first : Fails p x)
    (later : ∀ a, Fails p (next a)) : Fails p (x >>= next) := by
  cases x with
  | error e => exact fails_error (first e rfl)
  | ok a => exact later a

theorem fails_map {p : ε → Prop} {x : Except ε α} (f : α → β) (first : Fails p x) :
    Fails p (x.map f) := by
  cases x with
  | error e => exact fails_error (first e rfl)
  | ok a => exact fails_ok (f a)

end WideColumn.Outcome
