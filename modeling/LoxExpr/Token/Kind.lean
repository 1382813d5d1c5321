/-!
# Token kinds

The kinds of token of the language, their names, and the two tables of tokens with a fixed text:
punctuation (`spelling?`) and reserved words (`reserved`).
-/

namespace LoxExpr

/-- What a token is. Kinds named `kw` are those of the reserved words. -/
inductive Kind where
  | eof | number | string | identifier
  | openParen | closeParen | openCurly | closeCurly
  | comma | dot | semicolon
  | dash | plus | slash | star
  | not | notEquals | assignment | equals
  | greater | greaterEquals | less | lessEquals
  | kwAnd | kwClass | kwElse | kwFalse | kwFun | kwFor | kwIf | kwNil
  | kwOr | kwPrint | kwReturn | kwSuper | kwThis | kwTrue | kwVar | kwWhile
deriving DecidableEq, Repr

namespace Kind

/-- Every kind, once. -/
def all : List Kind := [
  .eof, .number, .string, .identifier, .openParen, .closeParen, .openCurly, .closeCurly, .comma,
  .dot, .semicolon, .dash, .plus, .slash, .star, .not, .notEquals, .assignment, .equals, .greater,
  .greaterEquals, .less, .lessEquals, .kwAnd, .kwClass, .kwElse, .kwFalse, .kwFun, .kwFor, .kwIf,
  .kwNil, .kwOr, .kwPrint, .kwReturn, .kwSuper, .kwThis, .kwTrue, .kwVar, .kwWhile]

/-- No kind is left out of the list. -/
theorem mem_all (k : Kind) : k ∈ all := by
  cases k <;> decide

/-- The name of a kind, as log lines show it. -/
def name : Kind → String
  | .eof => "EOF"
  | .number => "Number"
  | .string => "String"
  | .identifier => "Identifier"
  | .openParen => "OpenParen"
  | .closeParen => "CloseParen"
  | .openCurly => "OpenCurly"
  | .closeCurly => "CloseCurly"
  | .comma => "Comma"
  | .dot => "Dot"
  | .semicolon => "Semicolon"
  | .dash => "Dash"
  | .plus => "Plus"
  | .slash => "Slash"
  | .star => "Star"
  | .not => "Not"
  | .notEquals => "NotEquals"
  | .assignment => "Assignment"
  | .equals => "Equals"
  | .greater => "Greater"
  | .greaterEquals => "GreaterEquals"
  | .less => "Less"
  | .lessEquals => "LessEquals"
  | .kwAnd => "And"
  | .kwClass => "Class"
  | .kwElse => "Else"
  | .kwFalse => "False"
  | .kwFun => "Fun"
  | .kwFor => "For"
  | .kwIf => "If"
  | .kwNil => "Nil"
  | .kwOr => "Or"
  | .kwPrint => "Print"
  | .kwReturn => "Return"
  | .kwSuper => "Super"
  | .kwThis => "This"
  | .kwTrue => "True"
  | .kwVar => "Var"
  | .kwWhile => "While"

/-- The kind of a name. -/
def ofName? (name : String) : Option Kind :=
  all.find? fun k => k.name = name

/-- The text of every token of a punctuation kind. The other kinds have no single text. -/
def spelling? : Kind → Option String
  | .openParen => some "("
  | .closeParen => some ")"
  | .openCurly => some "\x7b"
  | .closeCurly => some "\x7d"
  | .comma => some ","
  | .dot => some "."
  | .semicolon => some ";"
  | .dash => some "-"
  | .plus => some "+"
  | .slash => some "/"
  | .star => some "*"
  | .not => some "!"
  | .notEquals => some "!="
  | .assignment => some "="
  | .equals => some "=="
  | .greater => some ">"
  | .greaterEquals => some ">="
  | .less => some "<"
  | .lessEquals => some "<="
  | _ => none

/-- The reserved words, with their kinds. -/
def reserved : List (String × Kind) := [
  ("and", .kwAnd), ("class", .kwClass), ("else", .kwElse), ("false", .kwFalse), ("for", .kwFor),
  ("fun", .kwFun), ("if", .kwIf), ("nil", .kwNil), ("or", .kwOr), ("print", .kwPrint),
  ("return", .kwReturn), ("super", .kwSuper), ("this", .kwThis), ("true", .kwTrue),
  ("var", .kwVar), ("while", .kwWhile)]

/-- The kind that a word is reserved for. -/
def ofReserved? (word : String) : Option Kind :=
  reserved.lookup word

end Kind

end LoxExpr
