import LoxExpr.Proofs.Grammar.Run

/-!
# Parsers in use

A caller can use a parser in any order: look at the current token, consume it, enter and leave
levels of nesting, check a tree against the limit, and start any of the grammar procedures, at any
cursor and whether or not what came before failed. `Operation` lists what can be asked, `use` is the
parser after a list of them.

Every operation is onward (`onward_after`), so all of them together are (`onward_use`). Hence what
holds of the tokens, the limit and the cursor at the start holds for good (`Onward.sound`).
-/

namespace LoxExpr

open LoxExpr.Parser

/-! ## What can be asked of a parser -/

namespace Grammar

/-- A procedure that a caller can start. -/
inductive Procedure where
  | expression | equality | comparison | term | factor | unary | primary
  /-- What follows an opening parenthesis that the caller has seen. -/
  | grouping (opening : Token)
deriving DecidableEq, Repr

namespace Procedure

def parse : Procedure → ParseM Expr
  | .expression => Grammar.expression
  | .equality => Grammar.equality
  | .comparison => Grammar.comparison
  | .term => Grammar.term
  | .factor => Grammar.factor
  | .unary => Grammar.unary
  | .primary => Grammar.primary
  | .grouping opening => Grammar.grouping opening

def task : Procedure → Task
  | .expression => .expression
  | .equality => .level .equality
  | .comparison => .level .comparison
  | .term => .level .term
  | .factor => .level .factor
  | .unary => .unary
  | .primary => .primary
  | .grouping opening => .grouping opening

/-- What a procedure does is a run of its task. -/
theorem run_parse (f : Procedure) (p : Parser) : Run f.task p (f.parse p) := by
  have hperform : f.task.perform = f.parse := by cases f <;> rfl
  rw [← hperform]
  exact run_perform f.task p

end Procedure

end Grammar

/-- The parser after a step, whether the step succeeds or fails. -/
def ParseM.after {α : Type} (m : ParseM α) (p : Parser) : Parser :=
  match m p with
  | .ok _ q => q
  | .error _ q => q

/-- What a caller can ask of a parser. -/
inductive Operation where
  | current
  | check (kind : Kind)
  | consume
  | matchAny (kinds : List Kind)
  | expect (kind : Kind)
  | expectOr (kind : Kind) (fault : Fault)
  | descend
  | ascend
  | bounded (e : Expr) (position : Position)
  | parse (procedure : Grammar.Procedure)
deriving DecidableEq, Repr

namespace Operation

/-- The parser after an operation. Questions about the current token leave it as it is. -/
def after : Operation → Parser → Parser
  | .current => id
  | .check _ => id
  | .consume => Parser.consume.after
  | .matchAny kinds => (Parser.matchAny kinds).after
  | .expect kind => (Parser.expect kind).after
  | .expectOr kind fault => (Parser.expectOr kind fault).after
  | .descend => Parser.descend.after
  | .ascend => Parser.ascend.after
  | .bounded e position => (Parser.bounded e position).after
  | .parse procedure => procedure.parse.after

/-- Is the operation one that consumes a single token, if it consumes anything? -/
def IsSingle : Operation → Prop
  | .consume | .matchAny _ | .expect _ | .expectOr _ _ => True
  | _ => False

end Operation

namespace Parser

/-- The parser after a list of operations, of which any may fail. -/
def use (ops : List Operation) (p : Parser) : Parser :=
  ops.foldl (fun q op => op.after q) p

/-! ## What each operation does to the parser -/

/-- A match moves on exactly where it finds one of the kinds. -/
theorem after_matchAny (kinds : List Kind) (p : Parser) :
    (Parser.matchAny kinds).after p = if p.offers kinds then p.advance else p := by
  unfold ParseM.after
  rw [matchAny_eq]
  by_cases hoff : p.offers kinds = true
  · rw [if_pos hoff, if_pos hoff]
  · rw [if_neg hoff, if_neg hoff]

/-- An expectation moves on exactly where it is met. -/
theorem after_expectOr (kind : Kind) (fault : Fault) (p : Parser) :
    (Parser.expectOr kind fault).after p = if p.check kind then p.advance else p := by
  unfold ParseM.after
  rw [expectOr_eq]
  by_cases hcheck : p.check kind = true
  · rw [if_pos hcheck, if_pos hcheck]
  · rw [if_neg hcheck, if_neg hcheck]

/-- A level counts as entered even where it is one too many. -/
theorem after_descend (p : Parser) : Parser.descend.after p = p.deeper := by
  unfold ParseM.after descend
  by_cases hdeep : p.limit ≤ p.nesting + 1
  · rw [if_pos hdeep]
  · rw [if_neg hdeep]

/-- The check of a tree leaves the parser as it is. -/
theorem after_bounded (e : Expr) (position : Position) (p : Parser) :
    (Parser.bounded e position).after p = p := by
  unfold ParseM.after bounded
  by_cases hdeep : p.limit < e.depth
  · rw [if_pos hdeep]
  · rw [if_neg hdeep]

/-- A procedure leaves the parser where its outcome says. -/
theorem after_parse (f : Grammar.Procedure) (p : Parser) :
    f.parse.after p = Grammar.Outcome.parser (f.parse p) := by
  unfold ParseM.after Grammar.Outcome.parser
  cases f.parse p <;> rfl

/-- A single step advances or does nothing. -/
theorem after_of_isSingle {op : Operation} (hop : op.IsSingle) (p : Parser) :
    op.after p = p.advance ∨ op.after p = p := by
  -- every single step moves on under some condition
  have advance_or_stay (taken : Bool) :
      (if taken then p.advance else p) = p.advance ∨ (if taken then p.advance else p) = p := by
    cases taken with
    | true => exact Or.inl rfl
    | false => exact Or.inr rfl
  cases op with
  | consume => exact Or.inl rfl
  | matchAny kinds =>
    show (Parser.matchAny kinds).after p = p.advance ∨ (Parser.matchAny kinds).after p = p
    rw [after_matchAny]
    exact advance_or_stay (p.offers kinds)
  | expect kind =>
    -- the fault does not matter to where the parser ends
    show (Parser.expectOr kind p.unexpected).after p = p.advance ∨
      (Parser.expectOr kind p.unexpected).after p = p
    rw [after_expectOr]
    exact advance_or_stay (p.check kind)
  | expectOr kind fault =>
    show (Parser.expectOr kind fault).after p = p.advance ∨
      (Parser.expectOr kind fault).after p = p
    rw [after_expectOr]
    exact advance_or_stay (p.check kind)
  | _ => exact hop.elim

/-- Every operation leads onward. -/
theorem onward_after (op : Operation) (p : Parser) : p.Onward (op.after p) := by
  -- single steps are alike, so they are dealt with together
  have hsingle {op : Operation} (hop : op.IsSingle) : p.Onward (op.after p) := by
    rcases after_of_isSingle hop p with hafter | hafter
    · rw [hafter]
      exact onward_advance p
    · rw [hafter]
      exact Onward.refl p
  cases op with
  | current => exact Onward.refl p
  | check kind => exact Onward.refl p
  | consume => exact hsingle trivial
  | matchAny kinds => exact hsingle trivial
  | expect kind => exact hsingle trivial
  | expectOr kind fault => exact hsingle trivial
  | descend =>
    show p.Onward (Parser.descend.after p)
    rw [after_descend]
    exact onward_deeper p
  | ascend => exact onward_shallower p
  | bounded e position =>
    show p.Onward ((Parser.bounded e position).after p)
    rw [after_bounded]
    exact Onward.refl p
  | parse f =>
    show p.Onward (f.parse.after p)
    rw [after_parse]
    exact (f.run_parse p).onward

/-- Any number of operations lead onward, one after the other. -/
theorem onward_use (ops : List Operation) (p : Parser) : p.Onward (use ops p) := by
  induction ops generalizing p with
  | nil => exact Onward.refl p
  | cons op ops ih => exact (onward_after op p).trans (ih (op.after p))

/-! ## The tokens of a parser -/

/--
The tokens that a parser is given, with an end of input behind them if they do not have one: where
the last of them stops, or at the start of a source without a name.
-/
inductive Closed (tokens : Array Token) : Array Token → Prop where
  | ended {last : Token} (hlast : tokens.back? = some last) (hkind : last.kind = .eof) :
      Closed tokens tokens
  | added {last : Token} (hlast : tokens.back? = some last) (hkind : last.kind ≠ .eof) :
      Closed tokens (tokens.push ⟨.eof, "", none, ⟨last.span.stop, last.span.stop⟩⟩)
  | alone (hempty : tokens = #[]) :
      Closed tokens #[⟨.eof, "", none, ⟨⟨0, "shell"⟩, ⟨0, "shell"⟩⟩⟩]

/-- A parser begins with tokens that an end of input closes. -/
theorem closed_ofTokens (tokens : Array Token) (limit : Nat) :
    Closed tokens (ofTokens tokens limit).tokens := by
  rw [tokens_ofTokens]
  cases hback : tokens.back? with
  | none =>
    -- without tokens, an end of input stands at the start
    have hempty : tokens = #[] := by simpa using hback
    subst hempty
    exact .alone rfl
  | some last =>
    by_cases hkind : last.kind = .eof
    · rw [if_pos (by rw [Option.map_some, hkind])]
      exact .ended hback hkind
    · rw [if_neg (by simpa using hkind)]
      -- it is added where the last token stops
      have hend : endOf tokens = last.span.stop := by rw [endOf, hback]
      rw [hend]
      exact .added hback hkind

/-! ## What every use keeps -/

/-- What holds of a parser of the tokens and the limit, whatever was asked of it. -/
structure Sound (tokens : Array Token) (limit : Nat) (p : Parser) : Prop where
  tokens_eq : p.tokens = (ofTokens tokens limit).tokens
  tokens_closed : Closed tokens p.tokens
  limit_eq : p.limit = limit
  cursor_lt : p.cursor < p.tokens.size
  /-- The cursor is never past an end of input, so it is never past the first. -/
  cursor_le_end : ∀ i t, p.tokens[i]? = some t → t.kind = .eof → p.cursor ≤ i

/-- What a parser makes of anything that is asked next. -/
structure Cautious (p : Parser) : Prop where
  /-- The cursor never goes back, over any number of operations. -/
  cursor_le : ∀ ops, p.cursor ≤ (p.use ops).cursor
  cursor_le_succ : ∀ op : Operation, op.IsSingle → (op.after p).cursor ≤ p.cursor + 1
  /-- At an end of input no kind is found, and none is consumed. -/
  check_of_atEnd : p.atEnd = true → ∀ kind, p.check kind = false
  matchAny_of_atEnd : p.atEnd = true → ∀ kinds, matchAny kinds p = .ok none p
  expect_of_atEnd : p.atEnd = true → ∀ kind, expect kind p = .error p.unexpected p
  expectOr_of_atEnd : p.atEnd = true → ∀ kind fault, expectOr kind fault p = .error fault p
  /-- A step that consumes nothing changes nothing. -/
  eq_of_matchAny_none : ∀ kinds q, matchAny kinds p = .ok none q → q = p
  eq_of_expect_error : ∀ kind fault q, expect kind p = .error fault q → q = p
  eq_of_expectOr_error : ∀ kind fault fault' q, expectOr kind fault p = .error fault' q → q = p

/--
Whatever has come of the first parser has its tokens and limit, and is in front of no passed end.
-/
theorem Onward.sound {tokens : Array Token} {limit : Nat} {p : Parser}
    (h : (ofTokens tokens limit).Onward p) : p.Sound tokens limit where
  tokens_eq := h.tokens_eq
  tokens_closed := by
    rw [h.tokens_eq]
    exact closed_ofTokens tokens limit
  limit_eq := h.limit_eq.trans (limit_ofTokens tokens limit)
  -- `next` has shown this each time that it moved the cursor
  cursor_lt := p.cursor_lt
  cursor_le_end := by
    intro i t ht hkind
    -- at the start, the tokens ahead are all those before the first end of input
    have hahead : (ofTokens tokens limit).ahead.length ≤ i := by
      rw [ahead, cursor_ofTokens, List.drop_zero]
      rw [h.tokens_eq, ← Array.getElem?_toList] at ht
      exact length_beforeEnd_le ht hkind
    have hend := h.end_eq
    rw [cursor_ofTokens] at hend
    omega

theorem check_eq_false_of_atEnd {p : Parser} (hend : p.atEnd = true) (kind : Kind) :
    p.check kind = false := by
  rw [check, hend]
  rfl

theorem offers_eq_false_of_atEnd {p : Parser} (hend : p.atEnd = true) (kinds : List Kind) :
    p.offers kinds = false := by
  rw [Bool.eq_false_iff]
  intro hoff
  rw [atEnd_of_offers hoff] at hend
  cases hend

/-- An expectation that is not met changes nothing. -/
theorem eq_of_expectOr_eq_error {p q : Parser} {kind : Kind} {fault fault' : Fault}
    (h : expectOr kind fault p = .error fault' q) : q = p := by
  rw [expectOr_eq] at h
  split at h <;> cases h
  rfl

/-- A match that finds nothing changes nothing. -/
theorem eq_of_matchAny_eq_none {p q : Parser} {kinds : List Kind}
    (h : matchAny kinds p = .ok none q) : q = p := by
  rw [matchAny_eq] at h
  split at h <;> cases h
  rfl

/-- Every parser is cautious about what is asked next. -/
theorem cautious (p : Parser) : p.Cautious where
  cursor_le ops := (onward_use ops p).cursor_le
  cursor_le_succ op hop := by
    -- a single step consumes at most the one token
    rcases after_of_isSingle hop p with hafter | hafter
    · rw [hafter]
      exact cursor_advance_le p
    · rw [hafter]
      exact Nat.le_succ _
  check_of_atEnd hend kind := check_eq_false_of_atEnd hend kind
  matchAny_of_atEnd hend kinds := by
    rw [matchAny_eq, offers_eq_false_of_atEnd hend]
    rfl
  expect_of_atEnd hend kind := by
    show expectOr kind p.unexpected p = _
    rw [expectOr_eq, check_eq_false_of_atEnd hend]
    rfl
  expectOr_of_atEnd hend kind fault := by
    rw [expectOr_eq, check_eq_false_of_atEnd hend]
    rfl
  eq_of_matchAny_none _ _ h := eq_of_matchAny_eq_none h
  eq_of_expect_error _ _ _ h := eq_of_expectOr_eq_error h
  eq_of_expectOr_error _ _ _ _ h := eq_of_expectOr_eq_error h

/--
**However a parser is used, it stays on its tokens.** It keeps the tokens that it was made with,
which end with the end of input, and its limit. Its cursor is on one of the tokens, goes over no end
of input, never goes back, and goes over one token at a time; what finds or consumes nothing leaves
the parser as it was.
-/
theorem use_sound (tokens : Array Token) (limit : Nat) (ops : List Operation) :
    ((ofTokens tokens limit).use ops).Sound tokens limit ∧
      ((ofTokens tokens limit).use ops).Cautious :=
  ⟨(onward_use ops _).sound, cautious _⟩

end Parser

end LoxExpr
