import WideColumn.Expression.Kind
import WideColumn.Expression.Placeholder
import WideColumn.Proofs.Codec.Decimal
import WideColumn.Proofs.Expression.Token
import WideColumn.Proofs.NameMap

/-! Placeholders are tokens, they differ when their numbers do, and a table holds every entry
behind the placeholder of its place. -/
namespace WideColumn.Placeholder

open Token

theorem toList_numbered (stem : String) (n : Nat) :
    (numbered stem n).toList = stem.toList ++ Nat.toDigits 10 n := by
  simp [numbered]

theorem numbered_inj {stem : String} (same : numbered stem n = numbered stem m) : n = m := by
  have chars := congrArg String.toList same
  rw [toList_numbered, toList_numbered, List.append_right_inj] at chars
  have values := congrArg (fun text => Nat.ofDigitChars 10 text 0) chars
  simpa [Nat.ofDigitChars_ten_toDigits] using values

theorem solid_numbered {stem : String} (solid : Solid stem.toList) (n : Nat) :
    Solid (numbered stem n).toList := by
  intro c member
  rw [toList_numbered, List.mem_append] at member
  rcases member with inStem | digit
  · exact solid c inStem
  · have digit := isDigit_of_mem_toDigits digit
    unfold separator?
    split
    case h_5 => rfl
    all_goals cases digit

theorem head?_numbered {stem : String} (sigil : stem.toList.head? = some c) (n : Nat) :
    (numbered stem n).toList.head? = some c := by
  rw [toList_numbered, List.head?_append, sigil, Option.some_or]

theorem isName_numbered {stem : String} (h : IsName stem) (n : Nat) : IsName (numbered stem n) :=
  ⟨solid_numbered h.solid n, head?_numbered h.sigil n⟩

theorem isOperand_numbered {stem : String} (h : IsOperand stem) (n : Nat) :
    IsOperand (numbered stem n) :=
  ⟨solid_numbered h.solid n, head?_numbered h.sigil n⟩

theorem isName_stem (kind : ExpressionKind) : IsName kind.nameStem := by
  cases kind <;> exact ⟨solid_of_all rfl, rfl⟩

theorem isOperand_stem (kind : ExpressionKind) : IsOperand kind.valueStem := by
  cases kind <;> exact ⟨solid_of_all rfl, rfl⟩

/-- Holds no digits. -/
def Plain (stem : String) : Prop := ∀ c ∈ stem.toList, c.isDigit = false

theorem plain_of_all {stem : String} (all : stem.toList.all (!·.isDigit)) : Plain stem := by
  simpa [Plain] using all

/-- The letters of a placeholder are those of its stem. -/
theorem letters_numbered {stem : String} (plain : Plain stem) (n : Nat) :
    (numbered stem n).toList.filter (!·.isDigit) = stem.toList := by
  have letters : stem.toList.filter (!·.isDigit) = stem.toList :=
    List.filter_eq_self.2 (by simpa [Plain] using plain)
  have digits : (Nat.toDigits 10 n).filter (!·.isDigit) = [] :=
    List.filter_eq_nil_iff.2 (by simpa using fun c => isDigit_of_mem_toDigits)
  rw [toList_numbered, List.filter_append, letters, digits, List.append_nil]

theorem stem_inj {stem other : String} (plain : Plain stem) (plainOther : Plain other)
    (same : numbered stem n = numbered other m) : stem = other := by
  apply String.toList_inj.1
  rw [← letters_numbered plain n, same, letters_numbered plainOther m]

theorem plain_nameStem (kind : ExpressionKind) : Plain kind.nameStem := by
  cases kind <;> exact plain_of_all rfl

theorem plain_valueStem (kind : ExpressionKind) : Plain kind.valueStem := by
  cases kind <;> exact plain_of_all rfl

theorem names_entriesFrom (stem : String) (next : Nat) (xs : List α) :
    (entriesFrom stem next xs).map Prod.fst = (List.range' next xs.length).map (numbered stem) := by
  induction xs generalizing next with
  | nil => rfl
  | cons x xs ih => simp [entriesFrom, List.range'_succ, ih]

theorem nodup_entriesFrom (stem : String) (next : Nat) (xs : List α) :
    ((entriesFrom stem next xs).map Prod.fst).Nodup := by
  have numbers : (List.range' next xs.length).Nodup := List.nodup_range' 1
  rw [names_entriesFrom]
  exact List.pairwise_map.2 (numbers.imp fun ne same => ne (numbered_inj same))

theorem entriesFrom_concat (stem : String) (next : Nat) (xs : List α) (x : α) :
    entriesFrom stem next (xs ++ [x]) =
      entriesFrom stem next xs ++ [(numbered stem (next + xs.length), x)] := by
  induction xs generalizing next with
  | nil => rfl
  | cons first rest ih =>
    rw [List.cons_append, entriesFrom, ih, entriesFrom, List.cons_append, List.length_cons,
      Nat.add_right_comm, Nat.add_assoc]

/-- A table grows by the entry with the next number. -/
theorem table_concat (stem : String) (xs : List α) (x : α) :
    table stem (xs ++ [x]) = (table stem xs).insert (numbered stem xs.length) x := by
  rw [table, entriesFrom_concat, Nat.zero_add, NameMap.ofList_concat]
  rfl

theorem get?_entriesFrom (stem : String) (next i : Nat) (xs : List α) :
    Entries.get? (numbered stem (next + i)) (entriesFrom stem next xs) = xs[i]? := by
  induction xs generalizing next i with
  | nil => rfl
  | cons x xs ih =>
    cases i with
    | zero => simp [entriesFrom, Entries.get?]
    | succ i =>
      have ne : numbered stem next ≠ numbered stem (next + (i + 1)) := by
        intro same
        have := numbered_inj same
        omega
      have later := ih (next + 1) i
      rw [Nat.add_right_comm, Nat.add_assoc] at later
      simpa [entriesFrom, Entries.get?, ne] using later

theorem get?_table (stem : String) (xs : List α) (n : Nat) :
    (table stem xs).get? (numbered stem n) = xs[n]? := by
  have here := get?_entriesFrom stem 0 n xs
  rw [Nat.zero_add] at here
  rw [table, NameMap.get?_ofList (nodup_entriesFrom stem 0 xs), here]

theorem contains_table (stem : String) (xs : List α) (symbol : String) :
    (table stem xs).contains symbol ↔ ∃ n < xs.length, symbol = numbered stem n := by
  constructor
  · intro present
    obtain ⟨x, found⟩ := NameMap.contains_iff.1 present
    rw [table, NameMap.get?_ofList (nodup_entriesFrom stem 0 xs)] at found
    have member := List.mem_map_of_mem (f := Prod.fst) (Entries.mem_of_get? found)
    rw [names_entriesFrom, ← List.range_eq_range'] at member
    obtain ⟨n, below, rfl⟩ := List.mem_map.1 member
    exact ⟨n, List.mem_range.1 below, rfl⟩
  · rintro ⟨n, below, rfl⟩
    exact NameMap.contains_iff.2 ⟨xs[n], by rw [get?_table, List.getElem?_eq_getElem below]⟩

/-- Looks the numbers from `next` on up as the values of a list. -/
def Serves (lookup : Nat → Option α) (next : Nat) (values : List α) : Prop :=
  ∀ i, i < values.length → lookup (next + i) = values[i]?

theorem serves_append {first second : List α}
    (serves : Serves lookup next (first ++ second)) :
    Serves lookup next first ∧ Serves lookup (next + first.length) second := by
  constructor
  · intro i below
    rw [serves i (by rw [List.length_append]; omega), List.getElem?_append_left below]
  · intro i below
    rw [Nat.add_assoc, serves _ (by rw [List.length_append]; omega),
      List.getElem?_append_right (by omega), Nat.add_sub_cancel_left]

theorem mapM_range' {values : List α} (serves : Serves lookup next values) :
    (List.range' next values.length).mapM lookup = some values := by
  induction values generalizing next with
  | nil => rfl
  | cons value rest ih =>
    have here := serves 0 (by simp)
    have there : Serves lookup (next + 1) rest := by
      intro i below
      have later := serves (i + 1) (by simpa using below)
      simpa [Nat.add_assoc, Nat.add_comm 1] using later
    simp_all [List.range'_succ, List.mapM_cons]

theorem serves_table (stem : String) (xs : List α) :
    Serves (fun n => (table stem xs).get? (numbered stem n)) 0 xs := by
  intro i _
  rw [Nat.zero_add]
  exact get?_table stem xs i

/-- What a table serves, it serves with anything added to it. -/
theorem serves_union {m : NameMap α} {values : List α}
    (serves : Serves (fun n => m.get? (numbered stem n)) next values) (more : NameMap α) :
    Serves (fun n => (m.union more).get? (numbered stem n)) next values := by
  intro i below
  have found : m.get? (numbered stem (next + i)) = values[i]? := serves i below
  rw [List.getElem?_eq_getElem below] at found ⊢
  exact (NameMap.get?_union m more _).trans (by rw [found, Option.some_or])

end WideColumn.Placeholder
