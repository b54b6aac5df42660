import WideColumn.Condition

/-! The text of conditions over symbols for names and operands. Every combination stands
in parentheses, so a text has one reading. -/
namespace WideColumn

def Test.text (name : String) : Test String → String
  | .compare op operand => name ++ " " ++ op.symbol ++ " " ++ operand
  | .between low high => name ++ " BETWEEN " ++ low ++ " AND " ++ high
  | .beginsWith start => "begins_with(" ++ name ++ ", " ++ start ++ ")"
  | .contains operand => "contains(" ++ name ++ ", " ++ operand ++ ")"
  | .isIn candidates => name ++ " IN (" ++ ", ".intercalate candidates ++ ")"
  | .present => "attribute_exists(" ++ name ++ ")"
  | .absent => "attribute_not_exists(" ++ name ++ ")"

def Condition.text : Condition String → String
  | .leaf name test => test.text name
  | .and left right => "(" ++ left.text ++ " AND " ++ right.text ++ ")"
  | .or left right => "(" ++ left.text ++ " OR " ++ right.text ++ ")"
  | .not inner => "(NOT " ++ inner.text ++ ")"

end WideColumn
