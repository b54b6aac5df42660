import WideColumn.Condition.Text
import WideColumn.Proofs.Expression.Token

/-! A reader of condition texts. It goes by the tokens alone and never looks back: after an
opening parenthesis it reads a combination, else a test, and the parentheses around every
combination leave it no choice. Whatever symbols a condition is written over, its text is
read as that condition. -/
namespace WideColumn

def Comparison.ofSymbol? : String → Option Comparison
  | "=" => some .eq
  | "<>" => some .ne
  | "<" => some .lt
  | "<=" => some .le
  | ">" => some .gt
  | ">=" => some .ge
  | _ => none

namespace Condition

/-- One operand at least, and a comma between two. -/
def readOperands : List Token → Option (List String × List Token)
  | .operand x :: .comma :: rest => do
    let (xs, rest) ← readOperands rest
    return (x :: xs, rest)
  | .operand x :: .closing :: rest => some ([x], rest)
  | _ => none

def readTest : List Token → Option (Condition String × List Token)
  | .name n :: .word "BETWEEN" :: .operand low :: .word "AND" :: .operand high :: rest =>
    some (.leaf n (.between low high), rest)
  | .name n :: .word "IN" :: .opening :: .closing :: rest => some (.leaf n (.isIn []), rest)
  | .name n :: .word "IN" :: .opening :: rest => do
    let (xs, rest) ← readOperands rest
    return (.leaf n (.isIn xs), rest)
  | .name n :: .word symbol :: .operand x :: rest => do
    let op ← Comparison.ofSymbol? symbol
    return (.leaf n (.compare op x), rest)
  | .word "begins_with" :: .opening :: .name n :: .comma :: .operand x :: .closing :: rest =>
    some (.leaf n (.beginsWith x), rest)
  | .word "contains" :: .opening :: .name n :: .comma :: .operand x :: .closing :: rest =>
    some (.leaf n (.contains x), rest)
  | .word "attribute_exists" :: .opening :: .name n :: .closing :: rest =>
    some (.leaf n .present, rest)
  | .word "attribute_not_exists" :: .opening :: .name n :: .closing :: rest =>
    some (.leaf n .absent, rest)
  | _ => none

def readClosing (c : Condition String) : List Token → Option (Condition String × List Token)
  | .closing :: rest => some (c, rest)
  | _ => none

/-- The words that join two conditions. -/
def connective? : String → Option (Condition String → Condition String → Condition String)
  | "AND" => some .and
  | "OR" => some .or
  | _ => none

/-- Reads one condition off the front. No condition has more levels than tokens. -/
def readFront : Nat → List Token → Option (Condition String × List Token)
  | 0, _ => none
  | levels + 1, .opening :: .word "NOT" :: rest => do
    let (inner, rest) ← readFront levels rest
    readClosing (.not inner) rest
  | levels + 1, .opening :: rest => do
    let (left, rest) ← readFront levels rest
    match rest with
    | .word word :: rest =>
      let join ← connective? word
      let (right, rest) ← readFront levels rest
      readClosing (join left right) rest
    | _ => none
  | _ + 1, tokens => readTest tokens

def readTokens (tokens : List Token) : Option (Condition String) :=
  match readFront tokens.length tokens with
  | some (c, []) => some c
  | _ => none

/-- The condition that a text says, if it says one. -/
def read (text : String) : Option (Condition String) := readTokens (Token.ofText text)

end Condition

/-- Operands with commas between them. -/
def Token.operands (xs : List String) : List Token :=
  Token.commas (xs.map fun x => [.operand x])

def Test.tokens (name : String) : Test String → List Token
  | .compare op x => [.name name, .word op.symbol, .operand x]
  | .between low high => [.name name, .word "BETWEEN", .operand low, .word "AND", .operand high]
  | .beginsWith x => [.word "begins_with", .opening, .name name, .comma, .operand x, .closing]
  | .contains x => [.word "contains", .opening, .name name, .comma, .operand x, .closing]
  | .isIn xs => [.name name, .word "IN", .opening] ++ Token.operands xs ++ [.closing]
  | .present => [.word "attribute_exists", .opening, .name name, .closing]
  | .absent => [.word "attribute_not_exists", .opening, .name name, .closing]

def Condition.tokens : Condition String → List Token
  | .leaf name test => test.tokens name
  | .and left right => .opening :: (left.tokens ++ .word "AND" :: (right.tokens ++ [.closing]))
  | .or left right => .opening :: (left.tokens ++ .word "OR" :: (right.tokens ++ [.closing]))
  | .not inner => .opening :: .word "NOT" :: (inner.tokens ++ [.closing])

namespace Condition

open Token

theorem operands_cons (x y : String) (xs : List String) :
    Token.operands (x :: y :: xs) = .operand x :: .comma :: Token.operands (y :: xs) :=
  commas_cons [.operand x] [.operand y] _

theorem readOperands_operands (x : String) (xs : List String) (rest : List Token) :
    readOperands (Token.operands (x :: xs) ++ .closing :: rest) = some (x :: xs, rest) := by
  induction xs generalizing x with
  | nil => rfl
  | cons y ys ih => simp [operands_cons, readOperands, ih]

theorem readTest_tokens (name : String) (test : Test String) (rest : List Token) :
    readTest (test.tokens name ++ rest) = some (.leaf name test, rest) := by
  cases test with
  | compare op x => cases op <;> rfl
  | isIn xs =>
    cases xs with
    | nil => rfl
    | cons x xs =>
      have operands := readOperands_operands x xs rest
      cases xs with
      | nil => rfl
      | cons y ys =>
        rw [operands_cons] at operands
        simp only [Test.tokens, operands_cons, List.cons_append, List.nil_append, List.append_assoc]
        rw [readTest]
        · rw [← List.cons_append, ← List.cons_append, operands]
          rfl
        · simp
  | _ => rfl

/-- No condition starts like the rest of a negation. -/
theorem tokens_ne_not (c : Condition String) (more rest : List Token) :
    c.tokens ++ more ≠ .word "NOT" :: rest := by
  cases c with
  | leaf name test => cases test <;> simp [tokens, Test.tokens]
  | _ => simp [tokens]

theorem readFront_test (levels : Nat) (name : String) (test : Test String) (rest : List Token) :
    readFront (levels + 1) (test.tokens name ++ rest) = some (.leaf name test, rest) := by
  rw [← readTest_tokens name test rest]
  cases test <;> rfl

/-- Two conditions that are read back are read back when they are joined. -/
theorem readFront_joined {levels : Nat} {left right : Condition String} {word : String}
    {join : Condition String → Condition String → Condition String}
    (known : connective? word = some join)
    (first : ∀ rest, readFront levels (left.tokens ++ rest) = some (left, rest))
    (second : ∀ rest, readFront levels (right.tokens ++ rest) = some (right, rest))
    (rest : List Token) :
    readFront (levels + 1) (.opening :: (left.tokens ++ .word word :: (right.tokens ++ [.closing])) ++
      rest) = some (join left right, rest) := by
  rw [List.cons_append, readFront]
  · simp [first, second, known, readClosing]
  · intro more
    rw [List.append_assoc]
    exact left.tokens_ne_not _ more

/-- The tokens of a condition are read back as the condition, whatever stands behind them. -/
theorem readFront_tokens (c : Condition String) (levels : Nat) (enough : c.tokens.length ≤ levels)
    (rest : List Token) : readFront levels (c.tokens ++ rest) = some (c, rest) := by
  induction c generalizing levels rest with
  | leaf name test =>
    cases levels with
    | zero => cases test <;> simp [tokens, Test.tokens] at enough
    | succ levels => exact readFront_test levels name test rest
  | and left right ihl ihr =>
    cases levels with
    | zero => simp [tokens] at enough
    | succ levels =>
      simp only [tokens, List.length_cons, List.length_append, List.length_nil] at enough
      exact readFront_joined rfl (ihl levels (by omega)) (ihr levels (by omega)) rest
  | or left right ihl ihr =>
    cases levels with
    | zero => simp [tokens] at enough
    | succ levels =>
      simp only [tokens, List.length_cons, List.length_append, List.length_nil] at enough
      exact readFront_joined rfl (ihl levels (by omega)) (ihr levels (by omega)) rest
  | not inner ih =>
    cases levels with
    | zero => simp [tokens] at enough
    | succ levels =>
      simp only [tokens, List.length_cons, List.length_append, List.length_nil] at enough
      have only := ih levels (by omega) (.closing :: rest)
      simp only [tokens, List.cons_append, List.append_assoc, List.nil_append]
      simp [readFront, only, readClosing]

theorem readTokens_tokens (c : Condition String) : readTokens c.tokens = some c := by
  have front := readFront_tokens c _ (Nat.le_refl _) []
  rw [List.append_nil] at front
  simp [readTokens, front]

theorem scan_symbol (op : Comparison) (rest : List Char) :
    scan [] (' ' :: (op.symbol.toList ++ ' ' :: rest)) = .word op.symbol :: scan [] rest := by
  cases op <;> simp [Comparison.symbol, scan, separator?, ofWord]

theorem spells_test {name : String} (isName : IsName name) {f : α → String}
    (operands : ∀ x, IsOperand (f x)) (test : Test α) :
    Spells ((test.map f).text name) ((test.map f).tokens name) := by
  intro rest stops
  -- Names are followed by a blank, a comma or a parenthesis, whatever the test.
  have named (c : Char) (separates : (separator? c).isSome) (rest : List Char) :
      scan [] (name.toList ++ c :: rest) = .name name :: scan [] (c :: rest) :=
    spells_name isName (c :: rest) separates
  cases test with
  | compare op x =>
    have operand := spells_operand (operands x) rest stops
    dsimp only [Test.map, Test.text, Test.tokens]
    simp [named ' ' rfl, scan_symbol, operand]
  | between low high =>
    have first (rest : List Char) := spells_operand (operands low) (' ' :: rest) rfl
    have second := spells_operand (operands high) rest stops
    dsimp only [Test.map, Test.text, Test.tokens]
    simp [named ' ' rfl, first, second, scan, separator?, ofWord]
  | beginsWith x =>
    have operand := spells_operand (operands x) (')' :: rest) rfl
    dsimp only [Test.map, Test.text, Test.tokens]
    simp [named ',' rfl, operand, scan, separator?, ofWord]
  | contains x =>
    have operand := spells_operand (operands x) (')' :: rest) rfl
    dsimp only [Test.map, Test.text, Test.tokens]
    simp [named ',' rfl, operand, scan, separator?, ofWord]
  | isIn xs =>
    have candidates := spells_commas (fun x => spells_operand (operands x)) xs (')' :: rest) rfl
    dsimp only [Test.map, Test.text, Test.tokens, Token.operands]
    simp [named ' ' rfl, candidates, scan, separator?, ofWord, Function.comp_def,
      -String.toList_intercalate]
  | present =>
    dsimp only [Test.map, Test.text, Test.tokens]
    simp [named ')' rfl, scan, separator?, ofWord]
  | absent =>
    dsimp only [Test.map, Test.text, Test.tokens]
    simp [named ')' rfl, scan, separator?, ofWord]

theorem spells_text {rename : String → String} (names : ∀ n, IsName (rename n)) {f : α → String}
    (operands : ∀ x, IsOperand (f x)) (c : Condition α) :
    Spells (c.map rename f).text (c.map rename f).tokens := by
  induction c with
  | leaf name test => exact spells_test (names name) operands test
  | and left right ihl ihr =>
    intro rest stops
    have first (rest : List Char) := ihl (' ' :: rest) rfl
    have second := ihr (')' :: rest) rfl
    simp [map, text, tokens, first, second, scan, separator?, ofWord]
  | or left right ihl ihr =>
    intro rest stops
    have first (rest : List Char) := ihl (' ' :: rest) rfl
    have second := ihr (')' :: rest) rfl
    simp [map, text, tokens, first, second, scan, separator?, ofWord]
  | not inner ih =>
    intro rest stops
    have only := ih (')' :: rest) rfl
    simp [map, text, tokens, only, scan, separator?, ofWord]

/-- Over placeholders every condition is what its text says. -/
theorem read_text {rename : String → String} (names : ∀ n, IsName (rename n)) {f : α → String}
    (operands : ∀ x, IsOperand (f x)) (c : Condition α) :
    read (c.map rename f).text = some (c.map rename f) := by
  rw [read, (spells_text names operands c).ofText, readTokens_tokens]

end Condition

end WideColumn
