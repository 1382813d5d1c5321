import LoxExpr.Expr.Basic

/-!
# Printed expressions

An expression is printed with every operator in front of its operands and parentheses around the
two, so the text shows how the source was grouped:
`-123 * (45.67)` gives `(* (- 123) (group 45.67))`.
-/

namespace LoxExpr.Expr

/-- The printed form of an expression. -/
def print : Expr → String
  | .literal value => value.display
  | .unary operator operand => "(" ++ operator.lexeme ++ " " ++ operand.print ++ ")"
  | .binary left operator right =>
    "(" ++ operator.lexeme ++ " " ++ left.print ++ " " ++ right.print ++ ")"
  | .grouping inner => "(group " ++ inner.print ++ ")"

end LoxExpr.Expr
