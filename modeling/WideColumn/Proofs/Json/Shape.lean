import Mathlib.Data.List.Pairwise
import WideColumn.Proofs.Json.Form

/-! Messages that lose nothing. A name of a message that is left out of its document has to be one
that may be missing, and has to be blank again when it is; a name that is written has to be read
back; and no name may disturb another one. Then the message is read back, and the fields that others
add to its document do no harm. -/
namespace WideColumn

open Outcome JsonForm

/-- How a part of a message is written and read, apart from the message. -/
structure Slot (α : Type) where
  required : Bool
  write : α → Option Json
  read : Document → Except FormError α

namespace Slot

/-- What is read from the trees that the part is written as is written like the part. -/
def Restores (slot : Slot α) (a : α) : Prop :=
  ∀ k, slot.write a = some k → k.namesDistinct ∧
    ∀ j : Json, j.Arranges k → ∃ b, slot.read j.document = .ok b ∧ slot.write b = some k

/-- A part that is left out is not required, and `blank` is left out like it. -/
def Omits (slot : Slot α) (blank : α) : Prop :=
  ∀ a, slot.write a = none → slot.required = false ∧ slot.write blank = none

variable [JsonForm α]

/-- Always written. -/
def written (required : Bool) : Slot α := ⟨required, fun a => some (encode a), decode⟩

/-- Written when there is a value. -/
def optional : Slot (Option α) where
  required := false
  write a := a.map encode
  read
    | .null => .ok none
    | d => (decode d).map some

/-- Written when it is not empty. -/
def filled (isEmpty : α → Bool) : Slot α where
  required := false
  write a := if isEmpty a then none else some (encode a)
  read := decode

@[simp] theorem written_omits (required : Bool) (blank : α) : (written required).Omits blank := by
  simp [Omits, written]

@[simp] theorem optional_omits : (optional : Slot (Option α)).Omits none := by
  simp [Omits, optional]

@[simp] theorem filled_omits {isEmpty : α → Bool} {blank : α} (empty : isEmpty blank) :
    (filled isEmpty).Omits blank := by
  simp [Omits, filled, empty]

section

variable [Lawful α]

@[simp] theorem written_injective (required : Bool) :
    Function.Injective (written required : Slot α).write := by
  intro a b same
  exact Lawful.injective (Option.some.inj same)

@[simp] theorem optional_injective : Function.Injective (optional : Slot (Option α)).write :=
  Option.map_injective Lawful.injective

/-- There is one empty value. -/
theorem filled_injective {isEmpty : α → Bool} (empty : ∀ a b, isEmpty a → isEmpty b → a = b) :
    Function.Injective (filled isEmpty).write := by
  intro a b same
  simp only [filled] at same
  split at same <;> split at same
  · next one other => exact empty a b one other
  · cases same
  · cases same
  · exact Lawful.injective (Option.some.inj same)

@[simp] theorem filled_map_injective :
    Function.Injective (filled NameMap.isEmpty : Slot (NameMap α)).write := by
  apply filled_injective
  intro m n one other
  apply NameMap.ext_get?
  intro name
  rw [NameMap.isEmpty_iff.1 one name, NameMap.isEmpty_iff.1 other name]

@[simp] theorem filled_list_injective :
    Function.Injective (filled List.isEmpty : Slot (List α)).write := by
  apply filled_injective
  intro items others one other
  rw [List.isEmpty_iff.1 one, List.isEmpty_iff.1 other]

variable {a : α}

/-- A part that is written and read by its own form. -/
theorem restores_of_form {slot : Slot α} (ordered : Lawful.Ordered a) (read : slot.read = decode)
    (form : ∀ k, slot.write a = some k → encode a = k) : slot.Restores a := by
  intro k there
  obtain rfl := form k there
  refine ⟨Lawful.distinct a ordered, fun j arranges => ⟨a, ?_, there⟩⟩
  rw [read]
  exact Lawful.reads a j ordered arranges

@[simp] theorem written_restores (required : Bool) (ordered : Lawful.Ordered a) :
    (written required).Restores a :=
  restores_of_form ordered rfl fun _ => Option.some.inj

@[simp] theorem filled_restores {isEmpty : α → Bool} (ordered : Lawful.Ordered a) :
    (filled isEmpty).Restores a := by
  apply restores_of_form ordered rfl
  intro k there
  simp only [filled] at there
  split at there
  · cases there
  · exact Option.some.inj there

/-- A tree of a value is not `null`, so it is not taken for the lack of one. -/
@[simp] theorem optional_restores {value : Option α} (ordered : ∀ a, value = some a → Lawful.Ordered a) :
    optional.Restores value := by
  intro k there
  obtain ⟨a, rfl, rfl⟩ := Option.map_eq_some_iff.1 there
  have ordered := ordered a rfl
  refine ⟨Lawful.distinct a ordered, fun j arranges => ⟨some a, ?_, rfl⟩⟩
  have reads := Lawful.reads a j ordered arranges
  cases j with
  | null => exact absurd (Json.sorted_eq_null.1 arranges.same.symm) (Lawful.ne_null a)
  | _ => exact map_ok.2 ⟨a, reads, rfl⟩

end

end Slot

namespace Field

/-- What a message holds in the field is there again after reading. -/
def Restores (f : Field σ) (x : σ) : Prop :=
  ∀ k, f.write x = some k → k.namesDistinct ∧
    ∀ j : Json, j.Arranges k → ∀ y, ∃ y', f.read j.document y = .ok y' ∧ f.write y' = some k

/-- The field is left out only if it may be missing and is left out of the blank message as well. -/
def Omits (f : Field σ) (blank : σ) : Prop :=
  ∀ x, f.write x = none → f.required = false ∧ f.write blank = none

/-- Reading the one field leaves the other one as it is. -/
def Spares (f g : Field σ) : Prop := ∀ d y y', f.read d y = .ok y' → g.write y' = g.write y

def Apart (f g : Field σ) : Prop := f.Spares g ∧ g.Spares f

instance : Std.Symm (Apart : Field σ → Field σ → Prop) := ⟨fun _ _ both => both.symm⟩

/-- The field that holds one part of a message. -/
def part (name : String) (slot : Slot α) (get : σ → α) (set : α → σ → σ) : Field σ where
  name := name
  required := slot.required
  write x := slot.write (get x)
  read d x := (slot.read d).map (set · x)

section

variable [JsonForm α] (name : String)

@[simp] theorem always_eq_part (get : σ → α) (set : α → σ → σ) :
    always name get set = part name (.written true) get set := rfl

@[simp] theorem defaulted_eq_part (get : σ → α) (set : α → σ → σ) :
    defaulted name get set = part name (.written false) get set := rfl

@[simp] theorem optional_eq_part (get : σ → Option α) (set : Option α → σ → σ) :
    optional name get set = part name .optional get set := by
  have read : (optional name get set).read = (part name .optional get set).read := by
    funext d x
    cases d with
    | null => rfl
    | _ => exact (map_map some (set · x) _).symm
  simp only [optional, part] at read ⊢
  rw [read]
  rfl

@[simp] theorem nonempty_eq_part (get : σ → NameMap α) (set : NameMap α → σ → σ) :
    nonempty name get set = part name (.filled NameMap.isEmpty) get set := rfl

@[simp] theorem nonemptyList_eq_part (get : σ → List α) (set : List α → σ → σ) :
    nonemptyList name get set = part name (.filled List.isEmpty) get set := rfl

end

variable {name name' : String} {slot : Slot α} {get : σ → α} {set : α → σ → σ}

@[simp] theorem part_restores (back : ∀ a x, get (set a x) = a) :
    (part name slot get set).Restores x ↔ slot.Restores (get x) := by
  constructor
  · intro restores k there
    obtain ⟨distinct, reads⟩ := restores k there
    refine ⟨distinct, fun j arranges => ?_⟩
    obtain ⟨y, done, again⟩ := reads j arranges x
    obtain ⟨b, read, rfl⟩ := map_ok.1 done
    exact ⟨b, read, (congrArg slot.write (back b x)).symm.trans again⟩
  · intro restores k there
    obtain ⟨distinct, reads⟩ := restores k there
    refine ⟨distinct, fun j arranges y => ?_⟩
    obtain ⟨b, read, again⟩ := reads j arranges
    exact ⟨set b y, map_ok.2 ⟨b, read, rfl⟩, (congrArg slot.write (back b y)).trans again⟩

@[simp] theorem part_omits (omits : slot.Omits (get blank)) : (part name slot get set).Omits blank :=
  fun x absent => omits (get x) absent

@[simp] theorem part_write_eq_iff (injective : Function.Injective slot.write) :
    (part name slot get set).write x = (part name slot get set).write y ↔ get x = get y :=
  injective.eq_iff

theorem part_spares {slot' : Slot β} {get' : σ → β} {set' : β → σ → σ}
    (frame : ∀ a x, get' (set a x) = get' x) :
    (part name slot get set).Spares (part name' slot' get' set') := by
  intro d y y' done
  obtain ⟨a, -, rfl⟩ := map_ok.1 done
  exact congrArg slot'.write (frame a y)

@[simp] theorem part_apart {slot' : Slot β} {get' : σ → β} {set' : β → σ → σ}
    (frame : ∀ a x, get' (set a x) = get' x) (frame' : ∀ b x, get (set' b x) = get x) :
    (part name slot get set).Apart (part name' slot' get' set') :=
  ⟨part_spares frame, part_spares frame'⟩

end Field

namespace Shape

def names (s : Shape σ) : List String := s.fields.map (·.name)

/-- The fields of the document of a message. -/
def parts (s : Shape σ) (x : σ) : List (String × Json) :=
  s.fields.filterMap fun f => (f.write x).map (f.name, ·)

structure Lawful (s : Shape σ) : Prop where
  distinct : s.names.Nodup
  apart : s.fields.Pairwise Field.Apart
  omitted : ∀ f ∈ s.fields, f.Omits s.blank
  whole : ∀ x y, (∀ f ∈ s.fields, f.write x = f.write y) → x = y

variable {s : Shape σ} {x y : σ}

theorem mem_parts : (name, k) ∈ s.parts x ↔ ∃ f ∈ s.fields, f.name = name ∧ f.write x = some k := by
  rw [parts, List.mem_filterMap]
  constructor
  · rintro ⟨f, member, found⟩
    obtain ⟨k, there, same⟩ := Option.map_eq_some_iff.1 found
    obtain ⟨rfl, rfl⟩ := Prod.mk.inj same
    exact ⟨f, member, rfl, there⟩
  · rintro ⟨f, member, rfl, there⟩
    exact ⟨f, member, Option.map_eq_some_iff.2 ⟨k, there, rfl⟩⟩

theorem names_parts : ((s.parts x).map Prod.fst).Sublist s.names := by
  unfold parts names
  induction s.fields with
  | nil => exact .slnil
  | cons f rest ih =>
    cases there : f.write x with
    | none => simpa [there] using ih.cons f.name
    | some k => simpa [there] using ih

namespace Lawful

theorem eq_of_name (lawful : s.Lawful) {f g : Field σ} (f_mem : f ∈ s.fields) (g_mem : g ∈ s.fields)
    (same : f.name = g.name) : f = g :=
  List.inj_on_of_nodup_map lawful.distinct f_mem g_mem same

theorem spares (lawful : s.Lawful) {f g : Field σ} (f_mem : f ∈ s.fields) (g_mem : g ∈ s.fields)
    (ne : f ≠ g) : f.Spares g :=
  (lawful.apart.forall f_mem g_mem ne).1

theorem write_eq_some_iff (lawful : s.Lawful) {f : Field σ} (member : f ∈ s.fields) :
    f.write x = some k ↔ (f.name, k) ∈ s.parts x := by
  rw [mem_parts]
  constructor
  · exact fun there => ⟨f, member, rfl, there⟩
  · rintro ⟨g, other, same, there⟩
    rwa [← lawful.eq_of_name other member same]

theorem encode_injective (lawful : s.Lawful) : Function.Injective s.encode := by
  intro x y same
  apply lawful.whole
  intro f member
  have parts : s.parts x = s.parts y := Json.object.inj same
  ext k
  rw [lawful.write_eq_some_iff member, lawful.write_eq_some_iff member, parts]

theorem namesDistinct_encode (lawful : s.Lawful) (restores : ∀ f ∈ s.fields, f.Restores x) :
    (s.encode x).namesDistinct := by
  apply Json.namesDistinct_object.2
  refine ⟨names_parts.nodup lawful.distinct, fun field there => ?_⟩
  obtain ⟨f, member, -, written⟩ := mem_parts.1 there
  exact (restores f member field.2 written).1

end Lawful

/-! ## Reading the fields one after another -/

/-- Names that are read hold what `x` holds there, the others are blank. -/
def Filled (s : Shape σ) (x : σ) (seen : List String) (y : σ) : Prop :=
  ∀ f ∈ s.fields, f.write y = f.write (if f.name ∈ seen then x else s.blank)

/-- Behind a name of the message stands what `x` writes there. -/
def Tells (s : Shape σ) (x : σ) (field : String × Document) : Prop :=
  ∀ f ∈ s.fields, f.name = field.1 →
    ∃ k, f.write x = some k ∧ ∃ j : Json, j.Arranges k ∧ field.2 = j.document

theorem filled_blank : s.Filled x [] s.blank := by
  intro f _
  rfl

variable {seen : List String} {fields : List (String × Document)}

theorem Filled.read (lawful : s.Lawful) (filled : s.Filled x seen y) {f : Field σ}
    (member : f ∈ s.fields) (restores : f.Restores x) (tells : s.Tells x (f.name, d)) :
    ∃ y', f.read d y = .ok y' ∧ s.Filled x (f.name :: seen) y' := by
  obtain ⟨k, there, j, arranges, rfl⟩ := tells f member rfl
  obtain ⟨y', done, again⟩ := (restores k there).2 j arranges y
  refine ⟨y', done, fun g other => ?_⟩
  by_cases same : g.name = f.name
  · obtain rfl := lawful.eq_of_name other member same
    simp [again, there]
  · have ne : f ≠ g := fun equal => same (congrArg Field.name equal).symm
    rw [lawful.spares member other ne _ _ _ done, filled g other]
    simp [same]

theorem Filled.eq (lawful : s.Lawful) (filled : s.Filled x seen y)
    (covered : ∀ f ∈ s.fields, f.write x = none ∨ f.name ∈ seen) : y = x := by
  apply lawful.whole
  intro f member
  rw [filled f member]
  rcases covered f member with absent | present
  · rw [absent]
    split
    · exact absent
    · exact (lawful.omitted f member x absent).2
  · rw [if_pos present]

/-- What stands behind the names of the message in any order, among whatever other names, makes up
the message when none of what it writes is missing. -/
theorem readFields_filled (lawful : s.Lawful) (restores : ∀ f ∈ s.fields, f.Restores x)
    (told : ∀ field ∈ fields, s.Tells x field)
    (once : (seen ++ (fields.map Prod.fst).filter (· ∈ s.names)).Nodup)
    (covered : ∀ f ∈ s.fields, f.write x = none ∨ f.name ∈ seen ++ fields.map Prod.fst)
    (filled : s.Filled x seen y) :
    s.readFields seen y (fields.map fun field => (some field.1, field.2)) = .ok x := by
  -- a field is either none of the message's, and is passed over, or takes its name from the ones
  -- that are still to come to the ones that are filled
  induction fields generalizing seen y with
  | nil =>
    simp only [List.map_nil, List.append_nil] at covered
    have enough : s.fields.all fun f => !f.required || seen.contains f.name := by
      rw [List.all_eq_true]
      intro f member
      rcases covered f member with absent | present
      · simp [(lawful.omitted f member x absent).1]
      · simp [present]
    rw [List.map_nil, readFields, if_pos enough, filled.eq lawful covered]
  | cons field rest ih =>
    obtain ⟨name, d⟩ := field
    obtain ⟨tells, later⟩ := List.forall_mem_cons.1 told
    rw [List.map_cons, readFields]
    split
    · next unknown =>
      have strange : name ∉ s.names := by
        simpa [names] using unknown
      simp only [List.map_cons, List.filter_cons, strange, decide_false, Bool.false_eq_true, if_false] at once
      refine ih later once (fun f member => ?_) filled
      have ne : f.name ≠ name := fun same => strange (same ▸ List.mem_map_of_mem member)
      simpa [ne] using covered f member
    · next f found =>
      obtain ⟨member, rfl⟩ := (find?_name_iff lawful.distinct).1 found
      have known : f.name ∈ s.names := List.mem_map_of_mem member
      simp only [List.map_cons, List.filter_cons, known, decide_true, if_true] at once
      have moved := List.perm_middle.nodup_iff.1 once
      have fresh : f.name ∉ seen := fun there =>
        (List.nodup_cons.1 moved).1 (List.mem_append_left _ there)
      obtain ⟨y', done, filled⟩ := filled.read lawful member (restores f member) tells
      rw [if_neg (by simpa using fresh), done]
      refine ih later moved (fun g other => ?_) filled
      have place := covered g other
      simp only [List.map_cons, List.mem_append, List.mem_cons] at place ⊢
      tauto

/-! ## The documents of a message -/

/-- The message is read back from its document; also when objects of the document have their fields in
another order, and when its own fields have others among them, whose names the message does not have. -/
def Survives (s : Shape σ) (x : σ) : Prop :=
  s.decode (s.encode x).document = .ok x ∧
    ∀ (parts : List (String × Json)) (others fields : List (String × Document)),
      (Json.object parts).Arranges (s.encode x) → (∀ other ∈ others, other.1 ∉ s.names) →
        fields.Perm (Entries.mapValues Json.document parts ++ others) →
          s.decode (.object (fields.map fun field => (some field.1, field.2))) = .ok x

theorem documentFields_eq_map (parts : List (String × Json)) :
    Json.documentFields parts =
      (Entries.mapValues Json.document parts).map fun field => (some field.1, field.2) := by
  induction parts with
  | nil => rfl
  | cons part rest ih => rw [Json.documentFields, ih]; rfl

namespace Lawful

variable {parts : List (String × Json)} {others fields : List (String × Document)}

theorem tells (lawful : s.Lawful) (restores : ∀ f ∈ s.fields, f.Restores x)
    (arranges : (Json.object parts).Arranges (s.encode x)) (strange : ∀ other ∈ others, other.1 ∉ s.names)
    (perm : fields.Perm (Entries.mapValues Json.document parts ++ others)) :
    ∀ field ∈ fields, s.Tells x field := by
  obtain ⟨_, same, -, all⟩ := arranges.eq_object (lawful.namesDistinct_encode restores)
  obtain rfl := Json.object.inj same
  intro field member f known same
  rcases List.mem_append.1 (perm.mem_iff.1 member) with own | other
  · obtain ⟨part, here, rfl⟩ := List.mem_map.1 own
    obtain ⟨k, listed, arranges⟩ := all part here
    rw [← same] at listed
    exact ⟨k, (lawful.write_eq_some_iff known).2 listed, part.2, arranges, rfl⟩
  · exact absurd (same ▸ List.mem_map_of_mem known) (strange field other)

theorem decode_among (lawful : s.Lawful) (restores : ∀ f ∈ s.fields, f.Restores x)
    (arranges : (Json.object parts).Arranges (s.encode x)) (strange : ∀ other ∈ others, other.1 ∉ s.names)
    (perm : fields.Perm (Entries.mapValues Json.document parts ++ others)) :
    s.decode (.object (fields.map fun field => (some field.1, field.2))) = .ok x := by
  obtain ⟨_, same, written, -⟩ := arranges.eq_object (lawful.namesDistinct_encode restores)
  obtain rfl := Json.object.inj same
  have named : (fields.map Prod.fst).Perm (parts.map Prod.fst ++ others.map Prod.fst) := by
    simpa [Entries.mapValues, Function.comp_def] using perm.map Prod.fst
  apply readFields_filled lawful restores (lawful.tells restores arranges strange perm)
  · have own : (parts.map Prod.fst).Nodup := written.nodup_iff.2 (names_parts.nodup lawful.distinct)
    have none_other : (others.map Prod.fst).filter (· ∈ s.names) = [] := by
      simpa [List.filter_eq_nil_iff] using fun name d member => strange (name, d) member
    rw [List.nil_append, (named.filter _).nodup_iff, List.filter_append, none_other, List.append_nil]
    exact own.filter _
  · intro f member
    cases there : f.write x with
    | none => exact .inl rfl
    | some k =>
      have listed : f.name ∈ parts.map Prod.fst :=
        written.mem_iff.2 (List.mem_map_of_mem ((lawful.write_eq_some_iff member).1 there))
      exact .inr (named.mem_iff.2 (List.mem_append_left _ listed))
  · exact filled_blank

/-- What a nested message needs. -/
theorem decode_arranged (lawful : s.Lawful) (restores : ∀ f ∈ s.fields, f.Restores x) {j : Json}
    (arranges : j.Arranges (s.encode x)) : s.decode j.document = .ok x := by
  obtain ⟨parts, rfl, -, -⟩ := arranges.eq_object (lawful.namesDistinct_encode restores)
  have strange : ∀ other ∈ ([] : List (String × Document)), other.1 ∉ s.names := by simp
  rw [Json.document, documentFields_eq_map]
  apply lawful.decode_among restores arranges strange
  rw [List.append_nil]

theorem survives (lawful : s.Lawful) (restores : ∀ f ∈ s.fields, f.Restores x) : s.Survives x := by
  have distinct := lawful.namesDistinct_encode restores
  refine ⟨lawful.decode_arranged restores (.refl distinct), ?_⟩
  exact fun _ _ _ arranges strange perm => lawful.decode_among restores arranges strange perm

end Lawful

end Shape

end WideColumn
