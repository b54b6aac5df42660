import WideColumn.Proofs.Codec.Integral
import WideColumn.Proofs.Double.Cast

/-! Equality of values is equality of their exact forms, in which each number is replaced by what
it is, held as an integer or as a double. A value with a double in it that is not a number has no
exact form. So equality is symmetric and transitive, and the values that equal themselves have an
exact form. -/
namespace WideColumn

/-- A value with every number replaced by what it is. -/
inductive Exact where
  | null
  | bool (b : Bool)
  | number (k : Double.Quantity)
  | string (text : String)
  | bytes (data : List UInt8)
  | list (items : List Exact)
  | map (fields : List (String × Exact))
  | stringSet (texts : List String)
  | numberSet (items : List Exact)
  | binarySet (items : List (List UInt8))

/-- Both are there, and they are the same. -/
def Shared (x y : Option α) : Prop := ∃ a, x = some a ∧ y = some a

namespace Shared

variable {x y z : Option α}

theorem symm (shared : Shared x y) : Shared y x := by
  obtain ⟨a, first, second⟩ := shared
  exact ⟨a, second, first⟩

theorem comm : Shared x y ↔ Shared y x := ⟨symm, symm⟩

theorem trans (first : Shared x y) (second : Shared y z) : Shared x z := by
  obtain ⟨a, left, here⟩ := first
  obtain ⟨b, again, right⟩ := second
  obtain rfl := Option.some.inj (here.symm.trans again)
  exact ⟨a, left, right⟩

theorem self_iff : Shared x x ↔ x.isSome := by
  cases x <;> simp [Shared]

theorem left_iff {a : α} : Shared (some a) y ↔ some a = y := by
  simp [Shared, eq_comm]

theorem map_iff {f : α → β} (injective : Function.Injective f) :
    Shared (x.map f) (y.map f) ↔ Shared x y := by
  cases x <;> cases y <;> simp [Shared, injective.eq_iff]

theorem pair_iff {xs ys : Option β} {f g : α → β → γ} (same : Prop)
    (injective : ∀ a b as bs, f a as = g b bs ↔ same ∧ a = b ∧ as = bs) :
    Shared (Option.map₂ f x xs) (Option.map₂ g y ys) ↔ same ∧ Shared x y ∧ Shared xs ys := by
  cases x <;> cases y <;> cases xs <;> cases ys <;> simp [Shared, eq_comm, injective]

end Shared

namespace Value

mutual

/-- The exact form of a value, if it has one. -/
def form? : Value → Option Exact
  | .null => some .null
  | .bool b => some (.bool b)
  | .int n => some (.number (.finite n.toInt))
  | .float x => x.quantity?.map .number
  | .string text => some (.string text)
  | .bytes data => some (.bytes data)
  | .list items => (itemForms? items).map .list
  | .map fields => (fieldForms? fields).map .map
  | .stringSet texts => some (.stringSet texts)
  | .numberSet items => (itemForms? items).map .numberSet
  | .binarySet items => some (.binarySet items)

def itemForms? : List Value → Option (List Exact)
  | [] => some []
  | item :: rest => Option.map₂ List.cons item.form? (itemForms? rest)

def fieldForms? : List (String × Value) → Option (List (String × Exact))
  | [] => some []
  | (name, value) :: rest =>
    Option.map₂ (fun first others => (name, first) :: others) value.form? (fieldForms? rest)

end

/-- An integer and a double are equal when they are the same number. -/
theorem same_int_float_iff (n : Int64) (x : Double) :
    same (.int n) (.float x) = true ↔ Shared (form? (.int n)) (form? (.float x)) := by
  rw [same, beq_iff_eq, Double.toInt?_eq_some_iff, ← Double.quantity?_eq_finite, eq_comm,
    ← Shared.left_iff]
  exact (Shared.map_iff fun _ _ => Exact.number.inj).symm

mutual

/-- Only a value of its own kind, or a number of the other kind, can equal a value. -/
theorem same_iff : ∀ a b : Value, same a b = true ↔ Shared a.form? b.form?
  | .int n, b => by
    cases b with
    | int m => simp [same, form?, Shared.left_iff, Int64.toInt_inj]
    | float x => exact same_int_float_iff n x
    | _ => simp [same, form?, Shared]
  | .float x, b => by
    cases b with
    | int n => exact (same_int_float_iff n x).trans Shared.comm
    | float y =>
      rw [same, Double.sameNumber_iff]
      exact (Shared.map_iff fun _ _ => Exact.number.inj).symm
    | _ => simp [same, form?, Shared]
  | .list items, b => by
    cases b with
    | list others =>
      rw [same, sameItems_iff items others]
      exact (Shared.map_iff fun _ _ => Exact.list.inj).symm
    | _ => simp [same, form?, Shared]
  | .map fields, b => by
    cases b with
    | map others =>
      rw [same, sameFields_iff fields others]
      exact (Shared.map_iff fun _ _ => Exact.map.inj).symm
    | _ => simp [same, form?, Shared]
  | .numberSet items, b => by
    cases b with
    | numberSet others =>
      rw [same, sameItems_iff items others]
      exact (Shared.map_iff fun _ _ => Exact.numberSet.inj).symm
    | _ => simp [same, form?, Shared]
  | .null, b | .bool _, b | .string _, b | .bytes _, b | .stringSet _, b | .binarySet _, b => by
    cases b <;> simp [same, form?, Shared.left_iff]

theorem sameItems_iff : ∀ as bs : List Value,
    sameItems as bs = true ↔ Shared (itemForms? as) (itemForms? bs)
  | [], [] | [], _ :: _ | _ :: _, [] => by simp [sameItems, itemForms?, Shared]
  | a :: as, b :: bs => by
    rw [sameItems, Bool.and_eq_true, same_iff a b, sameItems_iff as bs, itemForms?, itemForms?,
      Shared.pair_iff True (by simp), true_and]

theorem sameFields_iff : ∀ as bs : List (String × Value),
    sameFields as bs = true ↔ Shared (fieldForms? as) (fieldForms? bs)
  | [], [] | [], _ :: _ | _ :: _, [] => by simp [sameFields, fieldForms?, Shared]
  | (name, a) :: as, (other, b) :: bs => by
    rw [sameFields, Bool.and_eq_true, Bool.and_eq_true, same_iff a b, sameFields_iff as bs,
      fieldForms?, fieldForms?, Shared.pair_iff (name = other) (by simp [and_assoc]),
      beq_iff_eq, and_assoc]

end

mutual

/-- Only what is not a number has no exact form. -/
theorem form?_isSome : ∀ v : Value, v.form?.isSome ↔ .nan ∉ v.doubles
  | .float x => by
    rw [form?, Option.isSome_map, Option.isSome_iff_ne_none, ne_eq, Double.quantity?_eq_none, doubles,
      List.mem_singleton, eq_comm]
  | .list items => by rw [form?, Option.isSome_map, itemForms?_isSome items, doubles]
  | .map fields => by rw [form?, Option.isSome_map, fieldForms?_isSome fields, doubles]
  | .numberSet items => by rw [form?, Option.isSome_map, itemForms?_isSome items, doubles]
  | .null | .bool _ | .int _ | .string _ | .bytes _ | .stringSet _ | .binarySet _ => by
    simp [form?, doubles]

theorem itemForms?_isSome : ∀ items : List Value, (itemForms? items).isSome ↔ .nan ∉ doublesOf items
  | [] => by simp [itemForms?, doublesOf]
  | item :: rest => by
    rw [itemForms?, doublesOf, List.mem_append, not_or, ← form?_isSome item,
      ← itemForms?_isSome rest]
    cases item.form? <;> simp

theorem fieldForms?_isSome : ∀ fields : List (String × Value),
    (fieldForms? fields).isSome ↔ .nan ∉ doublesIn fields
  | [] => by simp [fieldForms?, doublesIn]
  | (_, value) :: rest => by
    rw [fieldForms?, doublesIn, List.mem_append, not_or, ← form?_isSome value,
      ← fieldForms?_isSome rest]
    cases value.form? <;> simp

end

theorem beq_iff {a b : Value} : a == b ↔ Shared a.form? b.form? := same_iff a b

def isNumber : Value → Bool
  | .int _ | .float _ => true
  | _ => false

/-- What a number is: a finite number or an infinity. -/
def number? : Value → Option Double.Quantity
  | .int n => some (.finite n.toInt)
  | .float x => x.quantity?
  | _ => none

theorem form?_of_isNumber {a : Value} (number : a.isNumber) : a.form? = a.number?.map .number := by
  cases a with
  | int _ => rfl
  | float _ => rfl
  | _ => cases number

theorem beq_numbers {a b : Value} (first : a.isNumber) (second : b.isNumber) :
    a == b ↔ Shared a.number? b.number? := by
  rw [beq_iff, form?_of_isNumber first, form?_of_isNumber second,
    Shared.map_iff fun _ _ => Exact.number.inj]

theorem int_beq_float (n : Int64) (x : Double) : (Value.int n == .float x) = x.equalsInt64 n := by
  rw [Bool.eq_iff_iff, beq_numbers rfl rfl, Double.equalsInt64_iff, ← Double.quantity?_eq_finite, eq_comm]
  exact Shared.left_iff

theorem float_beq_int (n : Int64) (x : Double) : (Value.float x == .int n) = x.equalsInt64 n := by
  rw [← int_beq_float, Bool.eq_iff_iff, beq_iff, beq_iff, Shared.comm]

/-- The order of the two makes no difference to equality, equality passes from value to value, and a
value equals itself unless something in it is no number. Numbers are equal when they are the same
finite number or the same infinity, whichever way they are held; the comparison of an integer with a
double that goes by cutting the double to an integer tells just that. Everything else is equal by its
parts. -/
theorem beq_exact :
    (∀ a b : Value, a == b → b == a) ∧ (∀ a b c : Value, a == b → b == c → a == c) ∧
    (∀ a : Value, a == a ↔ .nan ∉ a.doubles) ∧
    (∀ a b : Value, a.isNumber → b.isNumber → (a == b ↔
      (∃ q, a.number? = some (.finite q) ∧ b.number? = some (.finite q)) ∨
        ∃ negative, a.number? = some (.infinite negative) ∧ b.number? = some (.infinite negative))) ∧
    (∀ (n : Int64) (x : Double), (Value.int n == .float x) = x.equalsInt64 n ∧
      (Value.float x == .int n) = x.equalsInt64 n) ∧
    ∀ a b : Value, a == b ↔ Shared a.form? b.form? := by
  refine ⟨?symm, ?trans, ?self, ?numbers, fun n x => ⟨int_beq_float n x, float_beq_int n x⟩,
    fun a b => beq_iff⟩
  case symm => exact fun a b same => beq_iff.2 (beq_iff.1 same).symm
  case trans => exact fun a b c first second => beq_iff.2 ((beq_iff.1 first).trans (beq_iff.1 second))
  case self => exact fun a => beq_iff.trans (Shared.self_iff.trans (form?_isSome a))
  case numbers =>
    intro a b first second
    rw [beq_numbers first second]
    constructor
    · rintro ⟨k, left, right⟩
      cases k with
      | finite q => exact .inl ⟨q, left, right⟩
      | infinite negative => exact .inr ⟨negative, left, right⟩
    · rintro (⟨q, shared⟩ | ⟨negative, shared⟩)
      · exact ⟨.finite q, shared⟩
      · exact ⟨.infinite negative, shared⟩

/-- From here on doubles lie two apart, `2 ^ 53`. -/
def spaced : Double := .finite false ⟨1076 * Double.binade, by decide⟩

def inIntegers : Value := .map [("a", .list [.int 9007199254740992, .numberSet [.int 0]])]

/-- The same numbers as doubles, and the zero has a sign. -/
def inDoubles : Value := .map [("a", .list [.float spaced, .numberSet [.float .negativeZero]])]

theorem beq_exact_held :
    inDoubles == inIntegers ∧ inIntegers == inIntegers ∧
    ¬Value.list [.null, .float .nan] == .list [.null, .float .nan] ∧
    (∃ q, (Value.int 9007199254740992).number? = some (.finite q) ∧
      (Value.float spaced).number? = some (.finite q)) ∧
    ¬Value.int 9007199254740993 == .float spaced ∧
    inIntegers.form? = inDoubles.form? := by
  obtain ⟨symm, trans, self, numbers, cut, parts⟩ := beq_exact
  have same : inIntegers == inDoubles := by decide +kernel
  have back := symm _ _ same
  have large : Value.int 9007199254740992 == .float spaced := by decide +kernel
  refine ⟨back, trans _ _ _ same back, ?_, ?_, ?_, ?_⟩
  · rw [self]
    decide +kernel
  · obtain found | ⟨_, no, _⟩ := (numbers _ _ rfl rfl).1 large
    · exact found
    · cases no
  · rw [(cut 9007199254740993 spaced).1]
    decide +kernel
  · obtain ⟨e, first, second⟩ := (parts _ _).1 same
    rw [first, second]

end Value

end WideColumn
