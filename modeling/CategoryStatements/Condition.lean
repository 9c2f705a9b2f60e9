import CategoryStatements.Operator
import CategoryStatements.Value

/-! Conditions that a store checks: filters whose terms have become keys and values. -/
namespace CategoryStatements

inductive Condition
  | compare (key : String) (op : Comparison) (value : Value)
  | not (inner : Condition)
  | combine (op : Connective) (left right : Condition)

namespace Condition

/-- Connectives are written in parentheses. -/
def render : Condition → String
  | compare key op value => key ++ " " ++ op.spelling ++ " " ++ value.render
  | not inner => "NOT " ++ inner.render
  | combine op left right => "(" ++ left.render ++ " " ++ op.spelling ++ " " ++ right.render ++ ")"

def same : Condition → Condition → Bool
  | compare k op v, compare k' op' v' => k == k' && op == op' && v.same v'
  | not c, not c' => c.same c'
  | combine op l r, combine op' l' r' => op == op' && l.same l' && r.same r'
  | _, _ => false

end Condition
end CategoryStatements
