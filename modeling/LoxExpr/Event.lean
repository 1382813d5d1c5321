import LoxExpr.Expr.Printer
import LoxExpr.Fault

/-!
# Events

What a scan and a parse report while they run. An event keeps the things it is about; its level and
its text are computed from it when it is shown.
-/

namespace LoxExpr

/-- How much an event matters, from the gravest to the finest. -/
inductive Level where
  | error | warn | info | debug | trace
deriving DecidableEq, Repr

namespace Level

/-- The name of a level, as log lines show it. -/
def name : Level → String
  | .error => "ERROR"
  | .warn => "WARN"
  | .info => "INFO"
  | .debug => "DEBUG"
  | .trace => "TRACE"

/-- The place of a level among all, counted from the gravest. -/
def rank : Level → Nat
  | .error => 0
  | .warn => 1
  | .info => 2
  | .debug => 3
  | .trace => 4

end Level

/-- Something that happened in a scan or a parse. -/
inductive Event where
  /-- The scan found a token. -/
  | lexed (token : Token)
  /-- The scan reached the end of a source, and found this many tokens with the last. -/
  | tokenized (file : String) (count : Nat)
  /-- The tokens to be parsed did not end with the end of input, and were given one. -/
  | endAdded
  /-- The parser began a rule at a token index. -/
  | entered (rule : Rule) (cursor : Nat)
  /-- The parser consumed the token at an index. -/
  | consumed (token : Token) (cursor : Nat)
  /-- The parser made this many tokens into a tree. -/
  | parsed (count : Nat) (expr : Expr)
  /-- The parser stopped at a token index. -/
  | failed (cursor : Nat) (fault : Fault)
deriving DecidableEq, Repr

namespace Event

/-- The level that an event is reported at. -/
def level : Event → Level
  | .lexed _ | .entered _ _ | .consumed _ _ => .trace
  | .tokenized _ _ | .parsed _ _ | .failed _ _ => .debug
  | .endAdded => .warn

/-- The text of an event. -/
def text : Event → String
  | .lexed token => "lexed " ++ token.display
  | .tokenized file count => "tokenized " ++ file ++ " into " ++ toString count ++ " tokens"
  | .endAdded => "token sequence is not terminated by EOF, appending one"
  | .entered rule cursor => "enter " ++ rule.name ++ " at " ++ toString cursor
  | .consumed token cursor => "consumed " ++ token.display ++ " at " ++ toString cursor
  | .parsed count expr => "parsed " ++ toString count ++ " tokens into " ++ expr.print
  | .failed cursor fault =>
    "parse failed at token " ++ toString cursor ++ ": " ++ fault.message

end Event

end LoxExpr
