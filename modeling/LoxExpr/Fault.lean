import LoxExpr.Grammar.Rule
import LoxExpr.Position
import LoxExpr.Text.Quoted

/-!
# Faults

What can be wrong with a source text, and where. A fault is a cause and a position; the wording of
names, messages and tips is kept here, in one function each.
-/

namespace LoxExpr

/-- Why a text is no expression. Token texts are kept as they are to be shown. -/
inductive Cause where
  /-- A character that starts no token. -/
  | unrecognised (text : String)
  /-- A string without its closing quote. -/
  | unterminatedString
  /-- A number token whose text is no number. -/
  | badNumber (text : String)
  /-- A token that starts no expression, where a rule needs one. -/
  | expectedExpression (rule : Rule) (found : String)
  /-- A parenthesis that is not closed where its expression ends. -/
  | unclosedGrouping (opening : String)
  /-- A token that cannot follow what was read. -/
  | unexpected (found : String)
  /-- A tree deeper than the limit. -/
  | tooDeep (limit : Nat)
deriving DecidableEq, Repr

namespace Cause

/-- The name of a cause. -/
def name : Cause → String
  | .unrecognised _ => "UnrecognisedToken"
  | .unterminatedString => "UnterminatedString"
  | .badNumber _ => "NumberParseError"
  | .expectedExpression _ _ => "ExpectedExpression"
  | .unclosedGrouping _ => "UnclosedGrouping"
  | .unexpected _ => "UnexpectedToken"
  | .tooDeep _ => "ExpressionTooDeep"

/-- What happened, in a sentence with token texts quoted. -/
def message : Cause → String
  | .unrecognised text => "unrecognised token: " ++ Text.quoted text
  | .unterminatedString => "unterminated string"
  | .badNumber text => "error parsing number: " ++ Text.quoted text
  | .expectedExpression rule found =>
    "expected expression in " ++ rule.name ++ ": found " ++ Text.quoted found
  | .unclosedGrouping opening => "unclosed grouping opened by " ++ Text.quoted opening
  | .unexpected found => "unexpected token: " ++ Text.quoted found
  | .tooDeep limit => "expression nested deeper than " ++ toString limit

/-- Advice to the author of the text, with token texts as they stand in it. -/
def tip? : Cause → Option String
  | .unrecognised _ => none
  | .unterminatedString => some "String literal is missing its closing `\"`"
  | .badNumber text => some ("Invalid number: `" ++ text ++ "`")
  | .expectedExpression rule found =>
    some ("Expected an expression in " ++ rule.name ++ ", found `" ++ found ++ "`")
  | .unclosedGrouping _ => some "This `(` is never closed, add a `)`"
  | .unexpected found =>
    some ("Unexpected token: `" ++ found ++ "` after a complete expression")
  | .tooDeep limit => some ("Expression nests deeper than " ++ toString limit ++ " levels")

end Cause

/-- A cause and the position it is reported at. -/
structure Fault where
  cause : Cause
  position : Position
deriving DecidableEq, Repr

/-- The message of the cause, and where it arose. -/
def Fault.message (f : Fault) : String :=
  f.cause.message ++ " at " ++ f.position.file ++ ":" ++ toString f.position.offset

end LoxExpr
