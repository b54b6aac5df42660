import WideColumn.NameMap

/-! Placeholders are a stem and a number in decimal. A table of placeholders numbers its
entries from zero. -/
namespace WideColumn.Placeholder

def numbered (stem : String) (n : Nat) : String := stem ++ toString n

def entriesFrom (stem : String) (next : Nat) : List α → List (String × α)
  | [] => []
  | x :: rest => (numbered stem next, x) :: entriesFrom stem (next + 1) rest

/-- The entries behind their placeholders. -/
def table (stem : String) (entries : List α) : NameMap α := .ofList (entriesFrom stem 0 entries)

end WideColumn.Placeholder
