import LoxExpr.Proofs.Grammar.Phrase

/-!
# The parser as a flat scan

Whether a token sequence is an expression, and if not, what is wrong with it and where, can be told
in one pass without building a tree. A `Pushdown` keeps whether an operand or an operator has to
come next, and a stack of the parentheses that are still open. The recursive procedures agree with
it wherever the limit does not stop them: a task that succeeds takes the scan from the tokens in
front of it to the ones it leaves, whatever is on the stack, and a task that fails does so with the
verdict of the scan (`Run.scans`).
-/

namespace LoxExpr

open LoxExpr.Parser

/-- What has to come next. -/
inductive Mode where
  | operand | operator
deriving DecidableEq, Repr

/-- A scan in progress. -/
structure Pushdown where
  mode : Mode
  /-- The parentheses that are open, the innermost first. -/
  opened : List Token
  cursor : Nat
deriving DecidableEq, Repr

namespace Pushdown

/-- The scan goes on past a token, or stops for good: with a fault, or because all is read. -/
inductive Move where
  | on (next : Pushdown)
  | stop (fault? : Option Fault) (cursor : Nat)
deriving DecidableEq, Repr

/-- Goes past a token. -/
def past (s : Pushdown) (mode : Mode) (opened : List Token) : Move :=
  .on ⟨mode, opened, s.cursor + 1⟩

/-- A token where an operand has to come. -/
def stepOperand (s : Pushdown) (t : Token) : Move :=
  if t.kind.IsLiteral then
    if t.kind = .number ∧ t.literal = none ∧ Number.read? t.lexeme = none then
      .stop (some ⟨.badNumber t.lexeme, t.start⟩) (s.cursor + 1)
    else s.past .operator s.opened
  else if t.kind = .openParen then s.past .operand (t :: s.opened)
  else if t.kind.IsPrefixOp then s.past .operand s.opened
  else .stop (some ⟨.expectedExpression .primary t.describe, t.start⟩) s.cursor

/-- A token where an operator has to come. -/
def stepOperator (s : Pushdown) (t : Token) : Move :=
  if t.kind.tier?.isSome then s.past .operand s.opened
  else
    match s.opened with
    | opening :: opened =>
      if t.kind = .closeParen then s.past .operator opened
      else .stop (some ⟨.unclosedGrouping opening.lexeme, opening.start⟩) s.cursor
    | [] =>
      if t.kind = .eof then .stop none s.cursor
      else .stop (some ⟨.unexpected t.describe, t.start⟩) s.cursor

def step (s : Pushdown) (t : Token) : Move :=
  match s.mode with
  | .operand => s.stepOperand t
  | .operator => s.stepOperator t

/--
The verdict on a token sequence that ends with an end of input, and the cursor at the verdict.
-/
def run (s : Pushdown) : List Token → Option Fault × Nat
  | [] => (none, s.cursor)
  | t :: ts =>
    match s.step t with
    | .on next => next.run ts
    | .stop fault? cursor => (fault?, cursor)

/-! ## What each kind of token does -/

/-- A literal with a value is an operand, and an operator is awaited behind it. -/
theorem step_literal {s : Pushdown} {t : Token} (hmode : s.mode = .operand)
    (hkind : t.kind.IsLiteral) {v : Literal} (hv : t.value = .ok v) :
    s.step t = .on ⟨.operator, s.opened, s.cursor + 1⟩ := by
  -- the value was found, so the token is not the number that stops the scan
  have hgood : ¬ (t.kind = .number ∧ t.literal = none ∧ Number.read? t.lexeme = none) := by
    rintro ⟨hnumber, hlit, hread⟩
    rw [Token.value, hlit, hnumber] at hv
    simp only [hread] at hv
    cases hv
  rw [step, hmode]
  simp only [stepOperand, if_pos hkind, if_neg hgood]
  rfl

/-- A literal without a value is consumed, and the scan stops there. -/
theorem step_badLiteral {s : Pushdown} {t : Token} (hmode : s.mode = .operand)
    (hkind : t.kind.IsLiteral) {fault : Fault} (hv : t.value = .error fault) :
    s.step t = .stop (some fault) (s.cursor + 1) := by
  obtain ⟨hnumber, hlit, hread, rfl⟩ := Token.value_eq_error hkind hv
  rw [step, hmode]
  simp only [stepOperand, if_pos hkind, if_pos (And.intro hnumber (And.intro hlit hread))]

/-- An opening parenthesis is put on the stack, and an operand is awaited behind it. -/
theorem step_opening {s : Pushdown} {t : Token} (hmode : s.mode = .operand)
    (hkind : t.kind = .openParen) :
    s.step t = .on ⟨.operand, t :: s.opened, s.cursor + 1⟩ := by
  have hliteral : ¬ t.kind.IsLiteral := by rw [hkind]; decide
  rw [step, hmode]
  simp only [stepOperand, if_neg hliteral, if_pos hkind]
  rfl

/-- Behind a prefix operator, an operand is still awaited. -/
theorem step_prefixOp {s : Pushdown} {t : Token} (hmode : s.mode = .operand)
    (hkind : t.kind.IsPrefixOp) : s.step t = .on ⟨.operand, s.opened, s.cursor + 1⟩ := by
  have hliteral : ¬ t.kind.IsLiteral := fun h => h.not_isPrefixOp hkind
  have hopen : t.kind ≠ .openParen := by
    rcases hkind with h | h <;> rw [h] <;> decide
  rw [step, hmode]
  simp only [stepOperand, if_neg hliteral, if_neg hopen, if_pos hkind]
  rfl

/-- Where an operand is awaited, any other token stops the scan. -/
theorem step_missing {s : Pushdown} {t : Token} (hmode : s.mode = .operand)
    (hliteral : ¬ t.kind.IsLiteral) (hopen : t.kind ≠ .openParen) (hop : ¬ t.kind.IsPrefixOp) :
    s.step t = .stop (some ⟨.expectedExpression .primary t.describe, t.start⟩) s.cursor := by
  rw [step, hmode]
  simp only [stepOperand, if_neg hliteral, if_neg hopen, if_neg hop]

/-- Behind a binary operator, an operand is awaited. -/
theorem step_binaryOp {s : Pushdown} {t : Token} {tier : Tier} (hmode : s.mode = .operator)
    (hkind : t.kind.tier? = some tier) : s.step t = .on ⟨.operand, s.opened, s.cursor + 1⟩ := by
  rw [step, hmode]
  simp only [stepOperator, hkind, Option.isSome_some, if_true]
  rfl

/-- A closing parenthesis takes the one that it closes off the stack. -/
theorem step_closing {s : Pushdown} {t : Token} {opening : Token} {opened : List Token}
    (hmode : s.mode = .operator) (hopened : s.opened = opening :: opened)
    (hkind : t.kind = .closeParen) : s.step t = .on ⟨.operator, opened, s.cursor + 1⟩ := by
  rw [step, hmode]
  simp only [stepOperator, hopened, hkind]
  rfl

/-- Where a parenthesis is open, any other token leaves it unclosed. -/
theorem step_unclosed {s : Pushdown} {t : Token} {opening : Token} {opened : List Token}
    (hmode : s.mode = .operator) (hopened : s.opened = opening :: opened)
    (hop : t.kind.tier? = none) (hkind : t.kind ≠ .closeParen) :
    s.step t = .stop (some ⟨.unclosedGrouping opening.lexeme, opening.start⟩) s.cursor := by
  rw [step, hmode]
  simp only [stepOperator, hopened, hop, if_neg hkind]
  rfl

/-- With nothing open, the scan accepts at the end of input. -/
theorem step_end {s : Pushdown} {t : Token} (hmode : s.mode = .operator) (hopened : s.opened = [])
    (hkind : t.kind = .eof) : s.step t = .stop none s.cursor := by
  rw [step, hmode]
  simp only [stepOperator, hopened, hkind]
  rfl

/-- With nothing open, any other token is one too many. -/
theorem step_unexpected {s : Pushdown} {t : Token} (hmode : s.mode = .operator)
    (hopened : s.opened = []) (hop : t.kind.tier? = none) (hkind : t.kind ≠ .eof) :
    s.step t = .stop (some ⟨.unexpected t.describe, t.start⟩) s.cursor := by
  rw [step, hmode]
  simp only [stepOperator, hopened, hop, if_neg hkind]
  rfl

end Pushdown

/-- Is the limit at fault, and not the tokens? -/
def Fault.isTooDeep (fault : Fault) : Bool :=
  match fault.cause with
  | .tooDeep _ => true
  | _ => false

theorem isTooDeep_tooDeep (p : Parser) (pos : Position) : (p.tooDeep pos).isTooDeep = true := rfl

namespace Grammar

/-- The verdict of a scan that starts at the cursor of a parser. -/
def verdict (mode : Mode) (opened : List Token) (p : Parser) : Option Fault × Nat :=
  (Pushdown.mk mode opened p.cursor).run (p.ahead ++ [p.stop])

/-! ## One step of a scan at a parser -/

/-- A step that goes on leaves the verdict to the rest. -/
theorem verdict_of_on {mode mode' : Mode} {opened opened' : List Token} {p : Parser}
    (hend : p.atEnd = false)
    (hstep : (Pushdown.mk mode opened p.cursor).step p.current =
      .on ⟨mode', opened', p.cursor + 1⟩) :
    verdict mode opened p = verdict mode' opened' p.advance := by
  rw [verdict, ahead_advance hend, List.cons_append, Pushdown.run, hstep]
  rw [verdict, cursor_advance hend, stop_advance]

/-- A step that stops is the verdict. -/
theorem verdict_of_stop {mode : Mode} {opened : List Token} {p : Parser} {fault? : Option Fault}
    {cursor : Nat}
    (hstep : (Pushdown.mk mode opened p.cursor).step p.current = .stop fault? cursor) :
    verdict mode opened p = (fault?, cursor) := by
  cases hend : p.atEnd with
  | true =>
    rw [verdict, ahead_eq_nil_iff.mpr hend, stop_of_atEnd hend, List.nil_append, Pushdown.run,
      hstep]
  | false => rw [verdict, ahead_advance hend, List.cons_append, Pushdown.run, hstep]

/-- Where a level has an operator, the scan goes on with an operand. -/
theorem verdict_binaryOp {tier : Tier} {p : Parser} (outer : List Token)
    (hoff : p.offers tier.rule.kinds = true) :
    verdict .operator outer p = verdict .operand outer p.advance := by
  obtain ⟨hend, hkind⟩ := offers_eq_true_iff.mp hoff
  exact verdict_of_on hend (Pushdown.step_binaryOp rfl (Kind.mem_kinds_iff.mp hkind))

/-- Where the unary rule has an operator, the scan goes on with an operand. -/
theorem verdict_prefixOp {p : Parser} (outer : List Token)
    (hoff : p.offers Rule.unary.kinds = true) :
    verdict .operand outer p = verdict .operand outer p.advance := by
  obtain ⟨hend, hkind⟩ := offers_eq_true_iff.mp hoff
  exact verdict_of_on hend (Pushdown.step_prefixOp rfl (Kind.mem_unary_kinds_iff.mp hkind))

/-- Where a grouping opens, the scan goes on with the parenthesis on its stack. -/
theorem verdict_opening {p : Parser} (outer : List Token) (hoff : p.offers [.openParen] = true) :
    verdict .operand outer p = verdict .operand (p.current :: outer) p.advance := by
  obtain ⟨hend, hkind⟩ := offers_eq_true_iff.mp hoff
  exact verdict_of_on hend (Pushdown.step_opening rfl (List.mem_singleton.mp hkind))

/-- Where a grouping closes, the scan goes on as it did outside of it. -/
theorem verdict_closing {p : Parser} (opening : Token) (outer : List Token)
    (hclose : p.check .closeParen = true) :
    verdict .operator (opening :: outer) p = verdict .operator outer p.advance := by
  obtain ⟨hend, hkind⟩ := check_eq_true_iff.mp hclose
  exact verdict_of_on hend (Pushdown.step_closing rfl rfl hkind)

/-- Where a primary reads a literal, the scan goes on behind an operand. -/
theorem verdict_literal {p : Parser} {v : Literal} (outer : List Token)
    (hoff : p.offers Rule.primary.kinds = true) (hv : p.current.value = .ok v) :
    verdict .operand outer p = verdict .operator outer p.advance := by
  obtain ⟨hend, hkind⟩ := offers_eq_true_iff.mp hoff
  exact verdict_of_on hend (Pushdown.step_literal rfl (Kind.mem_primary_kinds_iff.mp hkind) hv)

/-- Where a literal has no value, the verdict is the fault that the parser has. -/
theorem verdict_badLiteral {p : Parser} {fault : Fault} (outer : List Token)
    (hoff : p.offers Rule.primary.kinds = true) (hv : p.current.value = .error fault) :
    verdict .operand outer p = (some fault, p.advance.cursor) := by
  obtain ⟨hend, hkind⟩ := offers_eq_true_iff.mp hoff
  rw [cursor_advance hend]
  exact verdict_of_stop (Pushdown.step_badLiteral rfl (Kind.mem_primary_kinds_iff.mp hkind) hv)

/-- Where no expression begins, the verdict is the fault that the parser has. -/
theorem verdict_missing {p : Parser} (outer : List Token)
    (hunary : p.offers Rule.unary.kinds = false) (hprimary : p.offers Rule.primary.kinds = false)
    (hopen : p.offers [.openParen] = false) :
    verdict .operand outer p =
      (some ⟨.expectedExpression .primary p.current.describe, p.position⟩, p.cursor) := by
  -- what none of the three tables offers is an operand of no kind, even at the end of input
  have hliteral := not_mem_of_offers_eq_false hprimary (by decide)
  have hparen := not_mem_of_offers_eq_false hopen (by decide)
  have hop := not_mem_of_offers_eq_false hunary (by decide)
  rw [Kind.mem_primary_kinds_iff] at hliteral
  rw [List.mem_singleton] at hparen
  rw [Kind.mem_unary_kinds_iff] at hop
  exact verdict_of_stop (Pushdown.step_missing rfl hliteral hparen hop)

/-- An expression stops in front of no operator at all. -/
theorem tier?_eq_none_of_stops {p : Parser} (h : Stops Task.expression.rank p.ahead) :
    p.current.kind.tier? = none := by
  cases htier : p.current.kind.tier? with
  | none => rfl
  | some tier =>
    -- an end of input has no tier, so the token is ahead, and there it would carry the phrase on
    have hend : p.atEnd = false := by
      rw [atEnd_eq_false_iff]
      intro hkind
      rw [hkind] at htier
      cases htier
    have hlt := h p.current (by rw [ahead_advance hend]; rfl) tier htier
    exact absurd hlt (by cases tier <;> decide)

/-- Where a grouping is not closed, the verdict is the fault that the parser has. -/
theorem verdict_unclosed {p : Parser} (opening : Token) (outer : List Token)
    (hstops : Stops Task.expression.rank p.ahead) (hclose : p.check .closeParen = false) :
    verdict .operator (opening :: outer) p =
      (some ⟨.unclosedGrouping opening.lexeme, opening.start⟩, p.cursor) := by
  have hkind : p.current.kind ≠ .closeParen := by
    intro hkind
    have hend : p.atEnd = false := by rw [atEnd_eq_false_iff, hkind]; decide
    rw [check_eq_true_iff.mpr ⟨hend, hkind⟩] at hclose
    cases hclose
  exact verdict_of_stop (Pushdown.step_unclosed rfl rfl (tier?_eq_none_of_stops hstops) hkind)

/-! ## The procedures take the scan along -/

/-- The mode of the scan when a task begins. A loop begins behind an operand. -/
def Task.mode : Task → Mode
  | .loop _ _ => .operator
  | .nested t => t.mode
  | _ => .operand

/-- The stack of the scan when a task begins. A grouping begins behind its parenthesis. -/
def Task.opened (outer : List Token) : Task → List Token
  | .grouping opening => opening :: outer
  | .nested t => t.opened outer
  | _ => outer

/-- A primary is only read where no prefix operator stands. -/
def Task.Ready : Task → Parser → Prop
  | .primary, p => p.offers Rule.unary.kinds = false
  | .nested t, p => t.Ready p
  | _, _ => True

theorem ready_operand (tier : Tier) (p : Parser) : tier.operand.Ready p := by
  cases tier <;> trivial

theorem ready_deeper {t : Task} {p : Parser} (h : t.Ready p) : t.Ready p.deeper := by
  induction t with
  | primary => exact h
  | nested t ih => exact ih h
  | _ => trivial

/-- The scan agrees with a task, whatever is on the stack. -/
def Scans (t : Task) (p : Parser) (r : Outcome) : Prop :=
  Outcome.Meets r
    (fun _ q => ∀ outer, verdict t.mode (t.opened outer) p = verdict .operator outer q)
    (fun fault q => fault.isTooDeep = true ∨
      ∀ outer, verdict t.mode (t.opened outer) p = (some fault, q.cursor))

/-- An operand of a tier begins with the stack as it is. -/
theorem scans_operand {tier : Tier} {p : Parser} {r : Outcome} (h : Scans tier.operand p r) :
    Outcome.Meets r (fun _ q => ∀ outer, verdict .operand outer p = verdict .operator outer q)
      (fun fault q => fault.isTooDeep = true ∨
        ∀ outer, verdict .operand outer p = (some fault, q.cursor)) := by
  cases tier <;> exact h

/-- A task that begins where another one leaves the scan can take its place. -/
theorem Scans.of_verdict_eq {t t' : Task} {p p' : Parser} {r : Outcome} (h : Scans t p r)
    (heq : ∀ outer, verdict t'.mode (t'.opened outer) p' = verdict t.mode (t.opened outer) p) :
    Scans t' p' r := by
  refine h.imp (fun e q hok outer => (heq outer).trans (hok outer)) (fun fault q herror => ?_)
  exact herror.imp_right fun hscan outer => (heq outer).trans (hscan outer)

/-- The scan of the tokens of a run has the outcome of the run, unless the limit stops the run. -/
theorem Run.scans {t : Task} {p : Parser} {r : Outcome} (h : Run t p r) (hp : t.Ready p) :
    Scans t p r := by
  -- The induction is on the run, for any stack: a run consumes its tokens and leaves the stack of
  -- the scan as it found it.
  induction h with
  | expression _ ih => exact ih trivial
  | @levelFails tier _ _ _ _ ih => exact scans_operand (ih (ready_operand tier _))
  | @level tier p q left r _ _ ihFirst ihRest =>
    -- logging the entry into the level is nothing that the scan could see
    have hfirst := scans_operand (ihFirst (ready_operand tier _))
    exact (ihRest trivial).of_verdict_eq hfirst
  | loopEnds _ => exact fun _ => rfl
  | @loopFails tier p q left fault hoff _ ih =>
    have hright := scans_operand (ih (ready_operand tier _))
    refine hright.imp_right fun hscan outer => ?_
    exact (verdict_binaryOp outer hoff).trans (hscan outer)
  | loopTooDeep _ _ _ _ => exact Or.inl (isTooDeep_tooDeep _ _)
  | @loopTurns tier p q left right r hoff _ _ _ ih ihRest =>
    have hright := scans_operand (ih (ready_operand tier _))
    refine (ihRest trivial).of_verdict_eq fun outer => ?_
    exact (verdict_binaryOp outer hoff).trans (hright outer)
  | tooNested _ => exact Or.inl (isTooDeep_tooDeep _ _)
  | nestedFails _ _ ih => exact ih (ready_deeper hp)
  | nested _ _ ih => exact ih (ready_deeper hp)
  | prefixFails hoff _ ih =>
    refine (ih trivial).imp_right fun hscan outer => ?_
    exact (verdict_prefixOp outer hoff).trans (hscan outer)
  | @prefixed p q operand r hoff _ hr ih =>
    -- the check of the depth is nothing that the scan makes
    refine (meets_bounded hr).imp (fun e q' hok outer => ?_) (fun fault q' herror => ?_)
    · obtain ⟨-, rfl, -⟩ := hok
      exact (verdict_prefixOp outer hoff).trans (ih trivial outer)
    · rw [herror.1]
      exact Or.inl (isTooDeep_tooDeep _ _)
  | unprefixed hoff _ ih => exact ih hoff
  | literal hoff hv => exact fun outer => verdict_literal outer hoff hv
  | badLiteral hoff hv => exact Or.inr fun outer => verdict_badLiteral outer hoff hv
  | opened _ hopen _ ih => exact (ih trivial).of_verdict_eq fun outer => verdict_opening outer hopen
  | missing hprimary hopen => exact Or.inr fun outer => verdict_missing outer hp hprimary hopen
  -- inside the parentheses the scan has the opening one on its stack
  | @groupingFails opening _ _ _ _ ih =>
    exact (ih trivial).imp_right fun hscan outer => hscan (opening :: outer)
  -- the inner expression has ended, so what follows can only be a closing parenthesis
  | @unclosed opening p q inner h hclose ih =>
    refine Or.inr fun outer => ?_
    exact (ih trivial (opening :: outer)).trans
      (verdict_unclosed opening outer (h.leaves trivial) hclose)
  | @closed opening p q inner r _ hclose hr ih =>
    refine (meets_bounded hr).imp (fun e q' hok outer => ?_) (fun fault q' herror => ?_)
    · obtain ⟨-, rfl, -⟩ := hok
      exact (ih trivial (opening :: outer)).trans (verdict_closing opening outer hclose)
    · rw [herror.1]
      exact Or.inl (isTooDeep_tooDeep _ _)

/-- Is the limit what an outcome failed for? -/
def Outcome.isTooDeep : Outcome → Bool
  | .ok _ _ => false
  | .error fault _ => fault.isTooDeep

/-- What an outcome says of the tokens: what is wrong, if anything, and how far the cursor got. -/
def Outcome.summary : Outcome → Option Fault × Nat
  | .ok _ q => (none, q.cursor)
  | .error fault q => (some fault, q.cursor)

end Grammar

/-! ## The parser -/

open Grammar

/-- The verdict of the scan on a token sequence, read up to its first end of input. -/
def Pushdown.scan (tokens : Array Token) : Option Fault × Nat :=
  (Pushdown.mk .operand [] 0).run
    (beforeEnd tokens.toList ++ [firstEnd tokens.toList (Token.endOfInput (endOf tokens))])

/-- The scan of a sequence is the verdict at the first token of a parse. -/
theorem verdict_ofTokens (tokens : Array Token) (limit : Nat) :
    verdict .operand [] (ofTokens tokens limit) = Pushdown.scan tokens := by
  rw [verdict, cursor_ofTokens, ahead_ofTokens, stop_ofTokens, Pushdown.scan]

/-- The verdict where an expression ends and no parenthesis is open. -/
theorem verdict_behind {q : Parser} (hstops : Stops Task.expression.rank q.ahead) :
    verdict .operator [] q = (if q.atEnd then none else some q.unexpected, q.cursor) := by
  have hop := tier?_eq_none_of_stops hstops
  cases hend : q.atEnd with
  | true => exact verdict_of_stop (Pushdown.step_end rfl rfl (atEnd_eq_true_iff.mp hend))
  | false =>
    have hkind := atEnd_eq_false_iff.mp hend
    exact verdict_of_stop (Pushdown.step_unexpected rfl rfl hop hkind)

/--
**The descent is a flat scan.** Unless the limit stops it, the parser accepts what the scan accepts,
fails with the fault of the scan, and stops with its cursor where the scan stops.
-/
theorem summary_parse_eq_scan (tokens : Array Token) (limit : Nat)
    (hlimit : Outcome.isTooDeep (parse tokens limit) = false) :
    Outcome.summary (parse tokens limit) = Pushdown.scan tokens := by
  have hrun := run_perform .expression (ofTokens tokens limit)
  have hscans := hrun.scans trivial
  rw [← verdict_ofTokens tokens limit]
  rw [parse_of_run hrun] at hlimit ⊢
  cases hres : Task.expression.perform (ofTokens tokens limit) with
  | error fault q =>
    rw [hres] at hscans hlimit
    rcases hscans with hdeep | hscan
    · -- the limit did not stop the parser
      have hnot : fault.isTooDeep = false := hlimit
      rw [hdeep] at hnot
      cases hnot
    · exact (hscan []).symm
  | ok e q =>
    rw [hres] at hscans hrun
    -- the expression was read, so the verdict is on the token behind it
    have hverdict : verdict .operand [] (ofTokens tokens limit) = verdict .operator [] q :=
      hscans []
    rw [hverdict, verdict_behind (hrun.leaves trivial), Outcome.conclude]
    split <;> rfl

/-- The tokens of `( (nil) ,`, without an end of input. -/
def halfClosed : Array Token := #[
  ⟨.openParen, "(", none, ⟨⟨0, "t"⟩, ⟨1, "t"⟩⟩⟩, ⟨.openParen, "(", none, ⟨⟨2, "t"⟩, ⟨3, "t"⟩⟩⟩,
  ⟨.kwNil, "nil", none, ⟨⟨3, "t"⟩, ⟨6, "t"⟩⟩⟩, ⟨.closeParen, ")", none, ⟨⟨6, "t"⟩, ⟨7, "t"⟩⟩⟩,
  ⟨.comma, ",", none, ⟨⟨8, "t"⟩, ⟨9, "t"⟩⟩⟩]

/-- The comma is seen last, and the outer parenthesis is blamed for it. -/
theorem summary_parse_halfClosed :
    Outcome.isTooDeep (parse halfClosed 4) = false ∧
      Outcome.summary (parse halfClosed 4) = (some ⟨.unclosedGrouping "(", ⟨0, "t"⟩⟩, 4) := by
  have hlimit : Outcome.isTooDeep (parse halfClosed 4) = false := by decide +kernel
  have hscan : Pushdown.scan halfClosed = (some ⟨.unclosedGrouping "(", ⟨0, "t"⟩⟩, 4) := by decide
  exact ⟨hlimit, (summary_parse_eq_scan halfClosed 4 hlimit).trans hscan⟩

end LoxExpr
