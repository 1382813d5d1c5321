import LoxExpr.Position
import LoxExpr.Token.Kind
import LoxExpr.Token.Literal

/-!
# Tokens

A token is a stretch of source text with a kind and, for literals, a value. Nothing makes these
agree: tokens made by hand may lack their value or carry an odd text.
-/

namespace LoxExpr

/-- A token: its kind, its text in the source, the value attached to it, and its place. -/
structure Token where
  kind : Kind
  lexeme : String
  literal : Option Literal
  span : Span
deriving DecidableEq, Repr

namespace Token

/-- Where the token starts. -/
def start (t : Token) : Position := t.span.start

/-- The token that ends every token sequence, at a position. It has no text. -/
def endOfInput (position : Position) : Token :=
  ⟨.eof, "", none, ⟨position, position⟩⟩

/-- A token in a log line: kind, text and attached value. -/
def display (t : Token) : String :=
  match t.literal with
  | some value => t.kind.name ++ " " ++ t.lexeme ++ " " ++ value.display
  | none => t.kind.name ++ " " ++ t.lexeme

/-- What a message calls the token. -/
def describe (t : Token) : String :=
  if t.kind = .eof then "end of input" else t.lexeme

/-- Equality with attached values compared as values. -/
def equals (s t : Token) : Bool :=
  s.kind == t.kind && s.lexeme == t.lexeme && s.span == t.span &&
    match s.literal, t.literal with
    | some a, some b => a.equals b
    | none, none => true
    | _, _ => false

end Token

end LoxExpr
