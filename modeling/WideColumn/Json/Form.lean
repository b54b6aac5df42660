import WideColumn.Json.Document

/-! Typed documents. `JsonForm α` says how values of `α` are written as a JSON value and read from
a document, in the order of its text and with the first fault reported. A message with named
fields has a `Shape`; a field that is absent keeps the value of the blank message. -/
namespace WideColumn

/-- Why a document does not have the expected form. Faults of attribute values have a text. -/
inductive FormError where
  /-- A part that is read is beyond the values, or no word stands where one is due. -/
  | unreadable
  | shape
  | notAttribute
  | notOneType
  | unknownType (name : String)
  deriving DecidableEq, Repr

/-- The fault of a document that is no part of the given kind. A scalar is read to see what it
is; arrays and objects of another kind are refused unread. -/
def Document.unlike (kind : Kind) (fault : FormError) : Document → FormError
  | .beyond actual => if actual = .scalar ∨ actual = kind then .unreadable else fault
  | _ => fault

class JsonForm (α : Type) where
  encode : α → Json
  decode : Document → Except FormError α

namespace JsonForm

def decodeList [JsonForm α] : List Document → Except FormError (List α)
  | [] => .ok []
  | item :: rest => do
    let item ← decode item
    let rest ← decodeList rest
    return item :: rest

def decodeEntries [JsonForm α] :
    List (Option String × Document) → Except FormError (List (String × α))
  | [] => .ok []
  | (none, _) :: _ => .error .unreadable
  | (some name, value) :: rest => do
    let value ← decode value
    let rest ← decodeEntries rest
    return (name, value) :: rest

instance : JsonForm String where
  encode := .string
  decode
    | .string s => .ok s
    | d => .error (d.unlike .scalar .shape)

instance : JsonForm Bool where
  encode := .bool
  decode
    | .bool b => .ok b
    | d => .error (d.unlike .scalar .shape)

def decodeInteger (least greatest : Int) (convert : Int → α) : Document → Except FormError α
  | .integer n => if least ≤ n ∧ n ≤ greatest then .ok (convert n) else .error .shape
  | d => .error (d.unlike .scalar .shape)

instance : JsonForm Int32 where
  encode n := .integer n.toInt
  decode := decodeInteger Int32.minValue.toInt Int32.maxValue.toInt Int32.ofInt

instance : JsonForm Int64 where
  encode n := .integer n.toInt
  decode := decodeInteger Int64.minValue.toInt Int64.maxValue.toInt Int64.ofInt

instance : JsonForm UInt32 where
  encode n := .integer n.toNat
  decode := decodeInteger 0 (UInt32.size - 1) fun n => UInt32.ofNat n.toNat

instance : JsonForm UInt64 where
  encode n := .integer n.toNat
  decode := decodeInteger 0 (UInt64.size - 1) fun n => UInt64.ofNat n.toNat

instance [JsonForm α] : JsonForm (List α) where
  encode items := .array (items.map encode)
  decode
    | .array items => decodeList items
    | d => .error (d.unlike .array .shape)

/-- A repeated name counts with its last value, but all of its values have to be of the form. -/
instance [JsonForm α] : JsonForm (NameMap α) where
  encode m := .object (Entries.mapValues encode m.entries)
  decode
    | .object fields => (decodeEntries fields).map NameMap.ofList
    | d => .error (d.unlike .object .shape)

end JsonForm

open JsonForm

structure Field (σ : Type) where
  name : String
  required : Bool
  write : σ → Option Json
  read : Document → σ → Except FormError σ

namespace Field

/-- Always written, and never missing. -/
def always [JsonForm α] (name : String) (get : σ → α) (set : α → σ → σ) : Field σ :=
  ⟨name, true, fun x => some (encode (get x)), fun d x => (decode d).map (set · x)⟩

/-- Always written, but may be missing. -/
def defaulted [JsonForm α] (name : String) (get : σ → α) (set : α → σ → σ) : Field σ :=
  { always name get set with required := false }

/-- Written when there is a value; `null` stands for no value. -/
def optional [JsonForm α] (name : String) (get : σ → Option α) (set : Option α → σ → σ) :
    Field σ where
  name := name
  required := false
  write x := (get x).map encode
  read
    | .null, x => .ok (set none x)
    | d, x => (decode d).map fun value => set (some value) x

def nonempty [JsonForm (NameMap α)] (name : String) (get : σ → NameMap α)
    (set : NameMap α → σ → σ) : Field σ where
  name := name
  required := false
  write x := if (get x).isEmpty then none else some (encode (get x))
  read d x := (decode d).map (set · x)

def nonemptyList [JsonForm α] (name : String) (get : σ → List α) (set : List α → σ → σ) :
    Field σ where
  name := name
  required := false
  write x := if (get x).isEmpty then none else some (encode (get x))
  read d x := (decode d).map (set · x)

end Field

structure Shape (σ : Type) where
  blank : σ
  fields : List (Field σ)

namespace Shape

def encode (s : Shape σ) (x : σ) : Json :=
  .object (s.fields.filterMap fun f => (f.write x).map (f.name, ·))

/-- Reads the fields of an object into `x`. Unknown names are passed over, a known name may not
stand twice, and at the end no required name may be missing. -/
def readFields (s : Shape σ) (seen : List String) (x : σ) :
    List (Option String × Document) → Except FormError σ
  | [] => if s.fields.all fun f => !f.required || seen.contains f.name then .ok x else .error .shape
  | (none, _) :: _ => .error .unreadable
  | (some name, value) :: rest =>
    match s.fields.find? fun f => f.name == name with
    | none => readFields s seen x rest
    | some field =>
      if seen.contains name then .error .shape
      else do
        let x ← field.read value x
        readFields s (name :: seen) x rest

def decode (s : Shape σ) : Document → Except FormError σ
  | .object fields => s.readFields [] s.blank fields
  | d => .error (d.unlike .object .shape)

end Shape

end WideColumn
