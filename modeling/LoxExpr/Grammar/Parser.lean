import LoxExpr.Event
import LoxExpr.Token.Scanner

/-!
# The parser and its cursor

A parser is a cursor on a token sequence that ends with the end of input, a nesting counter with a
limit, and a log. The operations of this module are the only ones that move the cursor or the
counter; the grammar procedures are built from them. The cursor never leaves the tokens: it moves
over one token at a time, and never over an end of input.
-/

namespace LoxExpr

/-- A parse in progress. -/
structure Parser where
  tokens : Array Token
  /-- The depth that no tree may exceed. -/
  limit : Nat
  /-- The index of the current token. -/
  cursor : Nat
  /-- How many prefix operators and parentheses were opened and not yet left. -/
  nesting : Nat
  log : Array Event
  ended : tokens.back?.map Token.kind = some .eof
  cursor_lt : cursor < tokens.size
deriving DecidableEq

/-- A step of a parser: it yields a value or a fault, and the parser after it in both cases. -/
abbrev ParseM := EStateM Fault Parser

namespace Parser

/-- The limit that holds if none is given. -/
def defaultLimit : Nat := 128

/--
Where a token sequence ends: behind its last token, or at the start of a source without a name.
-/
def endOf (tokens : Array Token) : Position :=
  match tokens.back? with
  | some last => last.span.stop
  | none => ⟨0, Scanner.defaultFile⟩

/--
A parser at the start of a token sequence. A missing end of input is added, and that is logged.
-/
def ofTokens (tokens : Array Token) (limit : Nat) : Parser :=
  if h : tokens.back?.map Token.kind = some .eof then
    { tokens, limit, cursor := 0, nesting := 0, log := #[], ended := h
      cursor_lt := by
        cases size : tokens.size with
        | zero => simp [Array.eq_empty_of_size_eq_zero size] at h
        | succ n => exact Nat.succ_pos n }
  else
    { tokens := tokens.push (Token.endOfInput (endOf tokens)), limit, cursor := 0, nesting := 0
      log := #[.endAdded], ended := by simp [Token.endOfInput], cursor_lt := by simp }

/-- The token that the cursor is on. -/
def current (p : Parser) : Token :=
  getElem p.tokens p.cursor p.cursor_lt

/-- Is the cursor on an end of input? -/
def atEnd (p : Parser) : Bool :=
  p.current.kind = .eof

/-- Where the current token starts. -/
def position (p : Parser) : Position :=
  p.current.start

/-- Is the current token of the kind? An end of input never is, not even of its own kind. -/
def check (p : Parser) (kind : Kind) : Bool :=
  !p.atEnd && p.current.kind = kind

/-- Notes an event. -/
def record (p : Parser) (event : Event) : Parser :=
  { p with log := p.log.push event }

/-- There is a next token unless the cursor is on an end of input. -/
theorem succ_cursor_lt {p : Parser} (h : p.atEnd = false) : p.cursor + 1 < p.tokens.size := by
  have lt := p.cursor_lt
  rcases Nat.lt_or_ge (p.cursor + 1) p.tokens.size with next | last
  · exact next
  · have atLast : p.cursor = p.tokens.size - 1 := by omega
    have ended := p.ended
    rw [Array.back?_eq_getElem?, ← atLast, Array.getElem?_eq_getElem lt] at ended
    have isEnd : p.current.kind = .eof := by simpa [current] using ended
    simp [atEnd, isEnd] at h

/-- The parser with its cursor on the next token; at an end of input it stays. -/
def next (p : Parser) : Parser :=
  if h : p.atEnd = false then
    { p with cursor := p.cursor + 1, cursor_lt := succ_cursor_lt h }
  else
    p

/-- The parser past the current token, with that logged. -/
def advance (p : Parser) : Parser :=
  p.next.record (.consumed p.current p.cursor)

/-- The parser with one more level of nesting entered. -/
def deeper (p : Parser) : Parser :=
  { p with nesting := p.nesting + 1 }

/-- The parser with one level of nesting left; there are none below zero. -/
def shallower (p : Parser) : Parser :=
  { p with nesting := p.nesting - 1 }

/-- The fault of a current token that cannot stand where it is. -/
def unexpected (p : Parser) : Fault :=
  ⟨.unexpected p.current.describe, p.position⟩

/-- The fault of a tree that exceeds the limit. -/
def tooDeep (p : Parser) (position : Position) : Fault :=
  ⟨.tooDeep p.limit, position⟩

/-! ### Steps -/

/-- Yields the current token and moves past it. -/
def consume : ParseM Token := fun p =>
  .ok p.current p.advance

/-- Consumes the current token if it is of one of the kinds. -/
def matchAny (kinds : List Kind) : ParseM (Option Token) := fun p =>
  if kinds.any p.check then .ok (some p.current) p.advance else .ok none p

/-- Consumes a token of the kind, or fails with the given fault. -/
def expectOr (kind : Kind) (fault : Fault) : ParseM Token := fun p =>
  if p.check kind then .ok p.current p.advance else .error fault p

/-- Consumes a token of the kind, or fails because of the current token. -/
def expect (kind : Kind) : ParseM Token := fun p =>
  expectOr kind p.unexpected p

/--
Enters a level of nesting. A tree below `n` levels is at least `n + 1` deep, so this fails before a
descent gets deeper than any tree within the limit. The level counts as entered even then.
-/
def descend : ParseM Unit := fun p =>
  if p.limit ≤ p.nesting + 1 then .error (p.tooDeep p.position) p.deeper else .ok () p.deeper

/-- Leaves a level of nesting, if one is entered. -/
def ascend : ParseM Unit := fun p =>
  .ok () p.shallower

/-- Yields a tree if it is within the limit; a tree that is not is a fault at the position. -/
def bounded (e : Expr) (position : Position) : ParseM Expr := fun p =>
  if p.limit < e.depth then .error (p.tooDeep position) p else .ok e p

/-- Logs that a rule begins at the cursor. -/
def enter (rule : Rule) : ParseM Unit := fun p =>
  .ok () (p.record (.entered rule p.cursor))

end Parser

end LoxExpr
