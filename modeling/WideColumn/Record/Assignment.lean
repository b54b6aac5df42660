import WideColumn.Schema

/-! Assignment of attributes. Joined attributes and physical keys are refused, the mutator is
applied, immutability is enforced, and then the joined attributes that read the attribute are
computed again and copied, like the attribute itself, to the keys they feed. -/
namespace WideColumn

namespace Schema

/-- Copies the value of `source` to every key it feeds; without a value the keys go. -/
def project (s : Schema) (source : String) (values : NameMap Value) : NameMap Value :=
  let current := values.get? source
  (s.keys.keysOf source).foldl
    (fun values key => if key = source then values else values.put key current) values

def deriveJoined (s : Schema) (values : NameMap Value) (j : Joined) : NameMap Value :=
  s.project j.target (values.insert j.target (j.compute values))

def commit (s : Schema) (name : String) (value : Option Value) (values : NameMap Value) :
    NameMap Value :=
  s.project name ((s.dependents name).foldl s.deriveJoined (values.put name value))

def refresh (s : Schema) (values : NameMap Value) : NameMap Value :=
  let values := s.joined.foldl (fun values j => values.insert j.target (j.compute values)) values
  (s.bindings.flatMap BoundIndex.keySources).foldl (fun values pair => s.project pair.2 values)
    values

def checkWritable (s : Schema) (name : String) : Except MapperError Unit :=
  if s.isDeclared name then .ok ()
  else if s.isProtectedKey name then .error (.protectedWrite name .physicalKey)
  else .error (.unknownAttribute name)

def mutate (s : Schema) (name : String) (value : Value) (r : Record) : Value :=
  match s.mutator? name with
  | some m => m.apply value r
  | none => value

end Schema

namespace Record

/-- What an immutable attribute allows: any value when it has none or null, else only a value
equal to its own, which changes nothing. -/
inductive Admission where
  | write
  | keep
  | refuse
  deriving DecidableEq, Repr

def admission (s : Schema) (r : Record) (name : String) (value : Option Value) : Admission :=
  if s.isImmutable name then
    match r.values.get? name with
    | none => .write
    | some current =>
      if value.any (current == ·) then .keep else if current.isNull then .write else .refuse
  else .write

def assign (s : Schema) (r : Record) (name : String) (value : Option Value) :
    Except MapperError Record :=
  let value := value.map fun v => s.mutate name v r
  match r.admission s name value with
  | .write => .ok { r with values := s.commit name value r.values }
  | .keep => .ok r
  | .refuse => .error (.immutable name .setBefore)

def write (s : Schema) (r : Record) (name : String) (value : Option Value) :
    Except MapperError Record := do
  if s.isJoined name then throw (.protectedWrite name .joined)
  s.checkWritable name
  r.assign s name value

def set (s : Schema) (r : Record) (name : String) (value : Value) : Except MapperError Record :=
  r.write s name (some value)

/-- Removes an attribute. The keys it feeds go, and joined attributes have an empty segment. -/
def unset (s : Schema) (r : Record) (name : String) : Except MapperError Record :=
  r.write s name none

def checkInputs (s : Schema) : List String → Except MapperError Unit
  | [] => .ok ()
  | name :: rest => do
    if s.isJoined name then throw (.join name .supplied)
    s.checkWritable name
    checkInputs s rest

def assignAll (s : Schema) (inputs : NameMap Value) : Record → List String →
    Except MapperError Record
  | r, [] => .ok r
  | r, name :: rest =>
    match inputs.get? name with
    | none => assignAll s inputs r rest
    | some value => do
      let r ← r.assign s name (some value)
      assignAll s inputs r rest

/-- A new record. Values are assigned in declaration order, so that a mutator can read the
attributes declared before its own. -/
def create (s : Schema) (inputs : NameMap Value) : Except MapperError Record := do
  checkInputs s inputs.names
  if let some name := s.required.find? fun name => !inputs.contains name then
    throw (.missingRequired name)
  let r ← assignAll s inputs ⟨{}, {}⟩ s.attributes
  let values := s.refresh r.values
  return ⟨values, values⟩

end Record

end WideColumn
