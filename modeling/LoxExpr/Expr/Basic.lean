import LoxExpr.Token.Basic

/-!
# Expressions

The trees that the grammar builds. Operators are kept as the tokens they were, with their place in
the source, and parentheses are nodes of their own, so `(a)` and `a` stay apart.
-/

namespace LoxExpr

/-- An expression tree. -/
inductive Expr where
  | literal (value : Literal)
  | unary (operator : Token) (operand : Expr)
  | binary (left : Expr) (operator : Token) (right : Expr)
  | grouping (inner : Expr)
deriving DecidableEq, Repr

namespace Expr

/-- The number of nodes on the longest way from the root to a leaf. -/
def depth : Expr → Nat
  | .literal _ => 1
  | .unary _ operand => 1 + operand.depth
  | .binary left _ right => 1 + max left.depth right.depth
  | .grouping inner => 1 + inner.depth

/-- Every tree has at least the depth of a leaf. -/
theorem depth_pos (e : Expr) : 0 < e.depth := by
  cases e <;> simp only [depth] <;> omega

/--
Equality of trees: the same shape, operators that are equal as tokens, and literals that are equal
as values.
-/
def equals : Expr → Expr → Bool
  | .literal a, .literal b => a.equals b
  | .unary op a, .unary op' a' => op.equals op' && a.equals a'
  | .binary a op b, .binary a' op' b' => a.equals a' && op.equals op' && b.equals b'
  | .grouping a, .grouping a' => a.equals a'
  | _, _ => false

end Expr

end LoxExpr
