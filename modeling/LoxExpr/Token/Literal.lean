import LoxExpr.Number.Reader
import LoxExpr.Number.Shortest

/-!
# Literals

The values that literal tokens stand for. `Literal.equals` compares them as values, so that it
follows the equality of numbers; the decidable equality tells numbers apart bit by bit.
-/

namespace LoxExpr

/-- The value of a literal. -/
inductive Literal where
  | number (value : Number)
  | string (value : String)
  | boolean (value : Bool)
  | nil
deriving DecidableEq, Repr

namespace Literal

/-- A literal as it is shown: a string without quotes, a number by its shortest digits. -/
def display : Literal → String
  | .number value => value.display
  | .string value => value
  | .boolean true => "true"
  | .boolean false => "false"
  | .nil => "nil"

/-- Equality of values. -/
def equals : Literal → Literal → Bool
  | .number x, .number y => x.equals y
  | .string s, .string t => s == t
  | .boolean a, .boolean b => a == b
  | .nil, .nil => true
  | _, _ => false

/--
A text without the quote at either end. A text that lacks one of them, such as a lone quote, is kept
as it is.
-/
def unquote (lexeme : String) : String :=
  match lexeme.toList with
  | '"' :: rest => if rest.getLast? = some '"' then String.ofList rest.dropLast else lexeme
  | _ => lexeme

end Literal

end LoxExpr
