/-! The tokens of an expression text. A blank, a parenthesis or a comma ends a word, and the
first character of a word tells placeholders from everything else. Placeholders hold no
character that ends a word, so wherever they are written they are read as one token. -/
namespace WideColumn

inductive Token where
  /-- The placeholder of a name. -/
  | name (symbol : String)
  /-- The placeholder of a value. -/
  | operand (symbol : String)
  /-- A keyword, a function or a comparison. -/
  | word (text : String)
  | opening
  | closing
  | comma
  deriving DecidableEq, Repr

namespace Token

def ofWord : List Char → List Token
  | [] => []
  | '#' :: rest => [.name (.ofList ('#' :: rest))]
  | ':' :: rest => [.operand (.ofList (':' :: rest))]
  | c :: rest => [.word (.ofList (c :: rest))]

/-- What a character that ends a word stands for itself. -/
def separator? : Char → Option (List Token)
  | ' ' => some []
  | '(' => some [.opening]
  | ')' => some [.closing]
  | ',' => some [.comma]
  | _ => none

/-- Collects a word until a character ends it. -/
def scan (word : List Char) : List Char → List Token
  | [] => ofWord word
  | c :: rest =>
    match separator? c with
    | some tokens => ofWord word ++ tokens ++ scan [] rest
    | none => scan (word ++ [c]) rest

def ofText (text : String) : List Token := scan [] text.toList

/-- Holds no character that ends a word. -/
def Solid (word : List Char) : Prop := ∀ c ∈ word, separator? c = none

theorem solid_of_all {word : List Char} (all : word.all fun c => (separator? c).isNone) :
    Solid word := by
  intro c member
  exact Option.isNone_iff_eq_none.1 (List.all_eq_true.1 all c member)

/-- No word goes on here. -/
def Stops : List Char → Prop
  | [] => True
  | c :: _ => (separator? c).isSome

structure IsName (symbol : String) : Prop where
  solid : Solid symbol.toList
  sigil : symbol.toList.head? = some '#'

structure IsOperand (symbol : String) : Prop where
  solid : Solid symbol.toList
  sigil : symbol.toList.head? = some ':'

theorem scan_stop (word : List Char) {rest : List Char} (stops : Stops rest) :
    scan word rest = ofWord word ++ scan [] rest := by
  cases rest with
  | nil => simp [scan, ofWord]
  | cons c rest =>
    obtain ⟨tokens, separates⟩ := Option.isSome_iff_exists.1 stops
    simp [scan, separates, ofWord]

theorem scan_solid {word : List Char} (solid : Solid word) (before rest : List Char) :
    scan before (word ++ rest) = scan (before ++ word) rest := by
  induction word generalizing before with
  | nil => simp
  | cons c word ih =>
    have here : separator? c = none := solid c List.mem_cons_self
    have there : Solid word := fun d member => solid d (List.mem_cons_of_mem _ member)
    simp only [List.cons_append, scan, here]
    rw [ih there, List.append_assoc, List.singleton_append]

theorem ofWord_name {symbol : String} (h : IsName symbol) : ofWord symbol.toList = [.name symbol] := by
  obtain ⟨rest, whole⟩ := List.head?_eq_some_iff.1 h.sigil
  rw [whole, ofWord, ← whole, String.ofList_toList]

theorem ofWord_operand {symbol : String} (h : IsOperand symbol) :
    ofWord symbol.toList = [.operand symbol] := by
  obtain ⟨rest, whole⟩ := List.head?_eq_some_iff.1 h.sigil
  rw [whole, ofWord, ← whole, String.ofList_toList]

/-- The text is read as the tokens wherever a word cannot go on behind it. -/
def Spells (text : String) (tokens : List Token) : Prop :=
  ∀ rest, Stops rest → scan [] (text.toList ++ rest) = tokens ++ scan [] rest

theorem Spells.ofText (spells : Spells text tokens) : Token.ofText text = tokens := by
  have whole := spells [] trivial
  simpa [Token.ofText, scan, ofWord] using whole

theorem spells_one {word : String} (solid : Solid word.toList)
    (one : ofWord word.toList = [token]) : Spells word [token] := by
  intro rest stops
  rw [scan_solid solid, List.nil_append, scan_stop _ stops, one]

theorem spells_name {symbol : String} (h : IsName symbol) : Spells symbol [.name symbol] :=
  spells_one h.solid (ofWord_name h)

theorem spells_operand {symbol : String} (h : IsOperand symbol) :
    Spells symbol [.operand symbol] :=
  spells_one h.solid (ofWord_operand h)

/-- Phrases with a blank between them are read one after the other. -/
theorem spells_blank (first : Spells a tokens) (second : Spells b more) :
    Spells (a ++ " " ++ b) (tokens ++ more) := by
  intro rest stops
  have blank : scan [] (' ' :: (b.toList ++ rest)) = scan [] (b.toList ++ rest) := rfl
  have before := first (' ' :: (b.toList ++ rest)) rfl
  have behind := second rest stops
  simp [before, blank, behind]

/-- Parts with commas between them. -/
def commas (parts : List (List Token)) : List Token := [.comma].intercalate parts

@[simp] theorem commas_single (part : List Token) : commas [part] = part := List.intercalate_singleton

theorem commas_cons (part next : List Token) (rest : List (List Token)) :
    commas (part :: next :: rest) = part ++ .comma :: commas (next :: rest) := by
  rw [commas, List.intercalate_cons_cons, List.append_assoc, List.singleton_append, commas]

theorem spells_commas {text : α → String} {tokens : α → List Token}
    (each : ∀ x, Spells (text x) (tokens x)) (xs : List α) :
    Spells (", ".intercalate (xs.map text)) (commas (xs.map tokens)) := by
  induction xs with
  | nil =>
    intro rest stops
    rfl
  | cons x xs ih =>
    cases xs with
    | nil => simpa using each x
    | cons y ys =>
      intro rest stops
      have later := ih rest stops
      have stopsHere : Stops (", ".toList ++ ((", ".intercalate ((y :: ys).map text)).toList ++ rest)) :=
        rfl
      have here := each x _ stopsHere
      simp only [List.map_cons] at later here
      simp only [List.map_cons, String.intercalate_cons_cons, commas_cons, String.toList_append,
        List.append_assoc, here, List.cons_append, ← later]
      rfl

end Token

end WideColumn
