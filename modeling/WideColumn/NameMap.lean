/-! Finite maps from names, as entries in strictly increasing order of name by code point. Maps
with the same look-ups are equal by `NameMap.ext_get?`. The functions on plain entry lists come
first, because the recursive value types hold their fields as such lists. -/
namespace WideColumn

namespace Entries

def get? (name : String) : List (String × α) → Option α
  | [] => none
  | (other, value) :: rest => if other = name then some value else get? name rest

/-- Inserts in order of name and replaces the value of an equal name. -/
def insert (name : String) (value : α) : List (String × α) → List (String × α)
  | [] => [(name, value)]
  | (other, old) :: rest =>
    if name < other then (name, value) :: (other, old) :: rest
    else if other = name then (name, value) :: rest
    else (other, old) :: insert name value rest

/-- Of several entries with one name the last one stays. -/
def ofList (entries : List (String × α)) : List (String × α) :=
  entries.foldl (fun sorted entry => insert entry.1 entry.2 sorted) []

def mapValues (f : α → β) (entries : List (String × α)) : List (String × β) :=
  entries.map fun entry => (entry.1, f entry.2)

/-- Transforms the values in order of the entries; the first failure ends it. -/
def traverse (f : α → Except ε β) : List (String × α) → Except ε (List (String × β))
  | [] => .ok []
  | (name, value) :: rest => do
    let value ← f value
    let rest ← traverse f rest
    return (name, value) :: rest

/-- Names increase strictly along the list. -/
def Ordered (entries : List (String × α)) : Prop :=
  entries.Pairwise fun a b => a.1 < b.1

theorem get?_eq_none_of_lt {name : String} {entries : List (String × α)}
    (above : ∀ entry ∈ entries, name < entry.1) : get? name entries = none := by
  induction entries with
  | nil => rfl
  | cons entry rest ih =>
    obtain ⟨other, value⟩ := entry
    have ne : other ≠ name := by
      intro same
      exact String.lt_irrefl name (same ▸ above _ List.mem_cons_self)
    rw [get?, if_neg ne]
    exact ih fun e h => above e (List.mem_cons_of_mem _ h)

theorem mem_of_get? {name : String} {value : α} {entries : List (String × α)}
    (found : get? name entries = some value) : (name, value) ∈ entries := by
  induction entries with
  | nil => simp [get?] at found
  | cons entry rest ih =>
    obtain ⟨other, old⟩ := entry
    rw [get?] at found
    split at found
    · next same =>
      obtain rfl := same
      simp_all
    · exact List.mem_cons_of_mem _ (ih found)

theorem get?_of_mem {name : String} {value : α} {entries : List (String × α)}
    (ordered : Ordered entries) (member : (name, value) ∈ entries) :
    get? name entries = some value := by
  induction entries with
  | nil => simp at member
  | cons entry rest ih =>
    obtain ⟨other, old⟩ := entry
    rcases List.mem_cons.1 member with same | later
    · obtain ⟨rfl, rfl⟩ := Prod.mk.inj same
      simp [get?]
    · have below := (List.pairwise_cons.1 ordered).1 _ later
      have ne : other ≠ name := fun same => String.lt_irrefl name (same ▸ below)
      rw [get?, if_neg ne]
      exact ih (List.pairwise_cons.1 ordered).2 later

theorem get?_insert (name other : String) (value : α) (entries : List (String × α)) :
    get? other (insert name value entries) =
      if name = other then some value else get? other entries := by
  induction entries with
  | nil => simp [insert, get?]
  | cons entry rest ih =>
    obtain ⟨first, old⟩ := entry
    unfold insert
    split
    · simp [get?]
    · split
      · next same => subst same; by_cases h : first = other <;> simp [get?, h]
      · next ne =>
        simp only [get?, ih]
        by_cases h : first = other
        · simp only [h, if_true]
          rw [if_neg]
          intro same
          exact ne (h.trans same.symm)
        · simp [h]

theorem mem_insert {name : String} {value : α} {entries : List (String × α)}
    {entry : String × α} (member : entry ∈ insert name value entries) :
    entry = (name, value) ∨ entry ∈ entries := by
  induction entries with
  | nil => simpa [insert] using member
  | cons first rest ih =>
    obtain ⟨other, old⟩ := first
    unfold insert at member
    split at member
    · simpa using member
    · split at member
      · rcases List.mem_cons.1 member with h | h
        · exact .inl h
        · exact .inr (List.mem_cons_of_mem _ h)
      · rcases List.mem_cons.1 member with h | h
        · exact .inr (h ▸ List.mem_cons_self)
        · exact (ih h).imp id (List.mem_cons_of_mem _)

theorem ordered_nil : Ordered ([] : List (String × α)) := List.Pairwise.nil

theorem ordered_insert (name : String) (value : α) {entries : List (String × α)}
    (ordered : Ordered entries) : Ordered (insert name value entries) := by
  induction entries with
  | nil => simp [insert, Ordered]
  | cons first rest ih =>
    obtain ⟨other, old⟩ := first
    obtain ⟨above, tail⟩ := List.pairwise_cons.1 ordered
    unfold insert
    split
    · next below =>
      refine List.pairwise_cons.2 ⟨fun entry member => ?_, ordered⟩
      rcases List.mem_cons.1 member with h | h
      · exact h ▸ below
      · exact String.lt_trans below (above _ h)
    · next notBelow =>
      split
      · next same => subst same; exact List.pairwise_cons.2 ⟨above, tail⟩
      · next ne =>
        refine List.pairwise_cons.2 ⟨fun entry member => ?_, ih tail⟩
        rcases mem_insert member with h | h
        · rw [h]
          exact Std.lt_of_le_of_ne (String.not_lt.1 notBelow) ne
        · exact above _ h

theorem ordered_ofList (entries : List (String × α)) : Ordered (ofList entries) := by
  suffices general : ∀ sorted : List (String × α), Ordered sorted →
      Ordered (entries.foldl (fun sorted entry => insert entry.1 entry.2 sorted) sorted) from
    general [] ordered_nil
  induction entries with
  | nil => exact fun _ h => h
  | cons entry rest ih => exact fun sorted h => ih _ (ordered_insert _ _ h)

theorem ordered_filter (keep : String × α → Bool) {entries : List (String × α)}
    (ordered : Ordered entries) : Ordered (entries.filter keep) :=
  List.Pairwise.filter keep ordered

/-- Order depends on the names alone. -/
theorem ordered_of_names {entries : List (String × α)} {others : List (String × β)}
    (names : others.map Prod.fst = entries.map Prod.fst) (ordered : Ordered entries) :
    Ordered others := by
  have h : (entries.map Prod.fst).Pairwise (· < ·) := List.pairwise_map.2 ordered
  rw [← names] at h
  exact List.pairwise_map.1 h

theorem names_mapValues (f : α → β) (entries : List (String × α)) :
    (mapValues f entries).map Prod.fst = entries.map Prod.fst := by
  simp [mapValues, Function.comp_def]

theorem names_traverse {f : α → Except ε β} {entries : List (String × α)}
    {results : List (String × β)} (done : traverse f entries = .ok results) :
    results.map Prod.fst = entries.map Prod.fst := by
  induction entries generalizing results with
  | nil => cases done; rfl
  | cons entry rest ih =>
    obtain ⟨name, value⟩ := entry
    unfold traverse at done
    cases hv : f value with
    | error e => simp [hv, bind, Except.bind] at done
    | ok transformed =>
      cases hr : traverse f rest with
      | error e => simp [hv, hr, bind, Except.bind] at done
      | ok others =>
        simp only [hv, hr, bind, Except.bind, pure, Except.pure] at done
        cases done
        simp [ih hr]

theorem eq_of_get?_eq {entries others : List (String × α)} (ordered : Ordered entries)
    (ordered' : Ordered others) (same : ∀ name, get? name entries = get? name others) :
    entries = others := by
  induction entries generalizing others with
  | nil =>
    cases others with
    | nil => rfl
    | cons entry rest => simpa [get?] using same entry.1
  | cons entry rest ih =>
    obtain ⟨name, value⟩ := entry
    obtain ⟨above, tail⟩ := List.pairwise_cons.1 ordered
    cases others with
    | nil => simpa [get?] using same name
    | cons entry' rest' =>
      obtain ⟨name', value'⟩ := entry'
      obtain ⟨above', tail'⟩ := List.pairwise_cons.1 ordered'
      have notBelow : ¬ name' < name := by
        intro below
        have absent : get? name' ((name, value) :: rest) = none := by
          apply get?_eq_none_of_lt
          intro e member
          rcases List.mem_cons.1 member with h | h
          · exact h ▸ below
          · exact String.lt_trans below (above _ h)
        have := same name'
        rw [absent] at this
        simp [get?] at this
      have notAbove : ¬ name < name' := by
        intro below
        have absent : get? name ((name', value') :: rest') = none := by
          apply get?_eq_none_of_lt
          intro e member
          rcases List.mem_cons.1 member with h | h
          · exact h ▸ below
          · exact String.lt_trans below (above' _ h)
        have := same name
        rw [absent] at this
        simp [get?] at this
      have names : name = name' :=
        String.le_antisymm (String.not_lt.1 notBelow) (String.not_lt.1 notAbove)
      subst names
      have values : value = value' := by simpa [get?] using same name
      subst values
      congr 1
      apply ih tail tail'
      intro other
      by_cases h : name = other
      · subst h
        rw [get?_eq_none_of_lt above, get?_eq_none_of_lt above']
      · simpa [get?, h] using same other

end Entries

/-- A finite map from names to values. -/
structure NameMap (α : Type) where
  entries : List (String × α)
  ordered : Entries.Ordered entries
  deriving DecidableEq

namespace NameMap

def empty : NameMap α := ⟨[], Entries.ordered_nil⟩

instance : EmptyCollection (NameMap α) := ⟨empty⟩

instance : Inhabited (NameMap α) := ⟨empty⟩

def get? (m : NameMap α) (name : String) : Option α := Entries.get? name m.entries

def contains (m : NameMap α) (name : String) : Bool := (m.get? name).isSome

def insert (m : NameMap α) (name : String) (value : α) : NameMap α :=
  ⟨Entries.insert name value m.entries, Entries.ordered_insert name value m.ordered⟩

/-- The entries whose names satisfy `keep`. -/
def filter (m : NameMap α) (keep : String → Bool) : NameMap α :=
  ⟨m.entries.filter fun entry => keep entry.1, Entries.ordered_filter _ m.ordered⟩

def erase (m : NameMap α) (name : String) : NameMap α := m.filter fun other => other != name

/-- Gives a name a value, or takes its value away. -/
def put (m : NameMap α) (name : String) : Option α → NameMap α
  | some value => m.insert name value
  | none => m.erase name

/-- Of several entries with one name the last one stays. -/
def ofList (entries : List (String × α)) : NameMap α :=
  ⟨Entries.ofList entries, Entries.ordered_ofList entries⟩

def map (f : α → β) (m : NameMap α) : NameMap β :=
  ⟨Entries.mapValues f m.entries,
    Entries.ordered_of_names (Entries.names_mapValues f m.entries) m.ordered⟩

/-- Transforms the values in order of name; the first failure is the result. -/
def traverse (f : α → Except ε β) (m : NameMap α) : Except ε (NameMap β) :=
  match done : Entries.traverse f m.entries with
  | .ok entries => .ok ⟨entries, Entries.ordered_of_names (Entries.names_traverse done) m.ordered⟩
  | .error e => .error e

/-- All entries of `m`, and those of `other` whose names are new. -/
def union (m other : NameMap α) : NameMap α :=
  other.entries.foldl
    (fun all entry => if all.contains entry.1 then all else all.insert entry.1 entry.2) m

def names (m : NameMap α) : List String := m.entries.map Prod.fst

def isEmpty (m : NameMap α) : Bool := m.entries.isEmpty

def size (m : NameMap α) : Nat := m.entries.length

@[simp] theorem get?_empty (name : String) : (empty : NameMap α).get? name = none := rfl

theorem get?_insert (m : NameMap α) (name other : String) (value : α) :
    (m.insert name value).get? other = if name = other then some value else m.get? other :=
  Entries.get?_insert name other value m.entries

theorem get?_eq_some_iff {m : NameMap α} {name : String} {value : α} :
    m.get? name = some value ↔ (name, value) ∈ m.entries :=
  ⟨Entries.mem_of_get?, Entries.get?_of_mem m.ordered⟩

theorem ext_get? {m n : NameMap α} (same : ∀ name, m.get? name = n.get? name) : m = n := by
  obtain ⟨entries, ordered⟩ := m
  obtain ⟨entries', ordered'⟩ := n
  obtain rfl : entries = entries' := Entries.eq_of_get?_eq ordered ordered' same
  rfl

theorem get?_filter (m : NameMap α) (keep : String → Bool) (name : String) :
    (m.filter keep).get? name = if keep name then m.get? name else none := by
  obtain ⟨entries, ordered⟩ := m
  simp only [get?, filter]
  clear ordered
  induction entries with
  | nil => simp [Entries.get?]
  | cons entry rest ih =>
    obtain ⟨other, value⟩ := entry
    by_cases k : keep other
    · by_cases h : other = name
      · subst h; simp [Entries.get?, k]
      · simpa [Entries.get?, k, h] using ih
    · by_cases h : other = name
      · subst h; simpa [Entries.get?, k] using ih
      · simpa [Entries.get?, k, h] using ih

theorem get?_erase (m : NameMap α) (name other : String) :
    (m.erase name).get? other = if name = other then none else m.get? other := by
  by_cases h : name = other
  · subst h; simp [erase, get?_filter]
  · have : other ≠ name := fun e => h e.symm
    simp [erase, get?_filter, h, this]

theorem get?_put (m : NameMap α) (name other : String) (value : Option α) :
    (m.put name value).get? other = if name = other then value else m.get? other := by
  cases value with
  | some value => exact get?_insert m name other value
  | none => exact get?_erase m name other

theorem get?_map (f : α → β) (m : NameMap α) (name : String) :
    (m.map f).get? name = (m.get? name).map f := by
  obtain ⟨entries, ordered⟩ := m
  simp only [get?, map, Entries.mapValues]
  clear ordered
  induction entries with
  | nil => rfl
  | cons entry rest ih =>
    obtain ⟨other, value⟩ := entry
    by_cases h : other = name <;> simp [Entries.get?, h, ih]

end NameMap

end WideColumn
