import LoxExpr.Grammar.Parser

/-!
# The grammar procedures

One procedure for each rule of the grammar, from loose to tight; each reads the longest phrase of
its rule at the cursor. A procedure of a level folds its operators to the left, and hands the
operands to the next tighter level. Only prefix operators and parentheses lead back up, and both
enter a level of nesting before they do so. Every node is checked against the limit when it is
built.

The procedures call each other in a circle. The circle is cut at `unaryWithin`, which counts down
the levels of nesting that may still be entered: `descend` fails before that count is used up.
-/

namespace LoxExpr

open LoxExpr.Parser

/--
The value of a literal token: the attached one, or else the one that its kind and text write.
-/
def Token.value (t : Token) : Except Fault Literal :=
  match t.literal with
  | some value => .ok value
  | none =>
    match t.kind with
    | .kwTrue => .ok (.boolean true)
    | .kwFalse => .ok (.boolean false)
    | .kwNil => .ok .nil
    | .number =>
      match Number.read? t.lexeme with
      | some value => .ok (.number value)
      | none => .error ⟨.badNumber t.lexeme, t.start⟩
    | .string => .ok (.string (Literal.unquote t.lexeme))
    | _ => .error ⟨.expectedExpression .primary t.describe, t.start⟩

namespace Grammar

/-! ### One turn of each rule, given the operands of the rule -/

/--
Folds `( operator operand )*` onto what was read so far. No more operators can follow than there are
tokens, so that number bounds the turns.
-/
def fold (rule : Rule) (operand : ParseM Expr) : Nat → Expr → ParseM Expr
  | 0, left => pure left
  | turns + 1, left => do
    match ← matchAny rule.kinds with
    | none => pure left
    | some operator =>
      let right ← operand
      let node ← bounded (.binary left operator right) operator.start
      fold rule operand turns node

/-- A level of binary operators: `operand ( operator operand )*`. -/
def level (rule : Rule) (operand : ParseM Expr) : ParseM Expr := do
  enter rule
  let left ← operand
  fold rule operand (← get).tokens.size left

/-- All binary levels, over given operands of the tightest. -/
def expressionOver (operand : ParseM Expr) : ParseM Expr := do
  enter .expression
  level .equality (level .comparison (level .term (level .factor operand)))

/-- What follows an opening parenthesis: an expression and a closing parenthesis. -/
def groupingOver (expression : ParseM Expr) (opening : Token) : ParseM Expr := do
  descend
  let inner ← expression
  ascend
  let _ ← expectOr .closeParen ⟨.unclosedGrouping opening.lexeme, opening.start⟩
  bounded (.grouping inner) opening.start

/-- A literal, or an expression in parentheses. -/
def primaryOver (expression : ParseM Expr) : ParseM Expr := do
  match ← matchAny Rule.primary.kinds with
  | some token =>
    match token.value with
    | .ok value => pure (.literal value)
    | .error fault => throw fault
  | none =>
    match ← matchAny [.openParen] with
    | some opening => groupingOver expression opening
    | none =>
      let p ← get
      throw ⟨.expectedExpression .primary p.current.describe, p.position⟩

/-- A prefix operator with its operand, or a primary expression. -/
def unaryOver (unary expression : ParseM Expr) : ParseM Expr := do
  match ← matchAny Rule.unary.kinds with
  | some operator =>
    descend
    let operand ← unary
    ascend
    bounded (.unary operator operand) operator.start
  | none => primaryOver expression

/-! ### The procedures -/

/-- The unary rule, with at most so many levels of nesting below this one. -/
def unaryWithin : Nat → ParseM Expr
  | 0, p => .error (p.tooDeep p.position) p
  | room + 1, p => unaryOver (unaryWithin room) (expressionOver (unaryWithin room)) p

/--
Reads a unary expression. The nesting counter fails at the limit, so no descent goes through more
levels than lie between the two.
-/
def unary : ParseM Expr := fun p =>
  unaryWithin (p.limit - p.nesting + 1) p

/-- Reads an operand of `/` and `*` with all that follow it. -/
def factor : ParseM Expr :=
  level .factor unary

/-- Reads an operand of `-` and `+` with all that follow it. -/
def term : ParseM Expr :=
  level .term factor

/-- Reads an operand of the four orderings with all that follow it. -/
def comparison : ParseM Expr :=
  level .comparison term

/-- Reads an operand of `!=` and `==` with all that follow it. -/
def equality : ParseM Expr :=
  level .equality comparison

/-- Reads an expression. -/
def expression : ParseM Expr := do
  enter .expression
  equality

/-- Reads what follows an opening parenthesis. The token only tells where a fault lies. -/
def grouping (opening : Token) : ParseM Expr :=
  groupingOver expression opening

/-- Reads a literal or an expression in parentheses. -/
def primary : ParseM Expr :=
  primaryOver expression

/-- Reads an expression that nothing follows. -/
def sentence : ParseM Expr := do
  let e ← expression
  let p ← get
  if p.atEnd then pure e else throw p.unexpected

end Grammar

/-- Parses a token sequence as one expression. How it ends is logged, and the parser comes back. -/
def parse (tokens : Array Token) (limit : Nat) : EStateM.Result Fault Parser Expr :=
  match Grammar.sentence (Parser.ofTokens tokens limit) with
  | .ok e p => .ok e (p.record (.parsed p.tokens.size e))
  | .error fault p => .error fault (p.record (.failed p.cursor fault))

/-- Parses a source text as one expression. -/
def parseSource (text : String) (file? : Option String) (limit : Nat) : Except Fault Expr :=
  match tokenize text file? with
  | .error fault _ => .error fault
  | .ok tokens _ =>
    match parse tokens limit with
    | .ok e _ => .ok e
    | .error fault _ => .error fault

end LoxExpr
