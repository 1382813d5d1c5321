import LoxExpr.Token.Kind

/-!
# Grammar rules

The rules of the expression grammar, from the loosest to the tightest binding:

```text
expression = equality
equality   = comparison ( ( "!=" | "==" ) comparison )*
comparison = term ( ( ">" | ">=" | "<" | "<=" ) term )*
term       = factor ( ( "-" | "+" ) factor )*
factor     = unary ( ( "/" | "*" ) unary )*
unary      = ( "!" | "-" ) unary | primary
primary    = number | string | "true" | "false" | "nil" | "(" expression ")"
```
-/

namespace LoxExpr

/-- A rule of the grammar. -/
inductive Rule where
  | expression | equality | comparison | term | factor | unary | primary
deriving DecidableEq, Repr

namespace Rule

/-- How tightly a rule binds: the loosest rule has rank zero. -/
def rank : Rule → Nat
  | .expression => 0
  | .equality => 1
  | .comparison => 2
  | .term => 3
  | .factor => 4
  | .unary => 5
  | .primary => 6

/-- Rules are ordered from loose to tight. -/
instance : Ord Rule where
  compare a b := compare a.rank b.rank

/-- The name of a rule, as messages show it. -/
def name : Rule → String
  | .expression => "expression"
  | .equality => "equality"
  | .comparison => "comparison"
  | .term => "term"
  | .factor => "factor"
  | .unary => "unary"
  | .primary => "primary"

/--
The tokens that a rule consumes itself: the operators of a level, or the literals of a primary
expression.
-/
def kinds : Rule → List Kind
  | .expression => []
  | .equality => [.notEquals, .equals]
  | .comparison => [.greater, .greaterEquals, .less, .lessEquals]
  | .term => [.dash, .plus]
  | .factor => [.slash, .star]
  | .unary => [.not, .dash]
  | .primary => [.kwFalse, .kwTrue, .kwNil, .number, .string]

end Rule

end LoxExpr
