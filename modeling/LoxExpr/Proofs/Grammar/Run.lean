import LoxExpr.Proofs.Grammar.Cursor
import LoxExpr.Proofs.Grammar.Tree

/-!
# Runs of the grammar procedures

The procedures call each other in a circle, and their loops are bounded by a number of turns. `Run`
describes what they do without either: one constructor for each way through a procedure, with the
runs of the procedures that it calls as premises. `run_iff` says that the runs are exactly what the
procedures do, so a fact about all procedures is proved by one induction on `Run`:

* `Run.onward`: a run reads on in the same tokens and never moves back;
* `Run.det`: it can only end in one way;
* `Run.nesting_eq`: if it succeeds, it has left every level of nesting that it entered.
-/

namespace LoxExpr

open LoxExpr.Parser

/-- What is to be done at a cursor. -/
inductive Grammar.Task where
  | expression
  /-- Operands of a tier, folded to the left. -/
  | level (tier : Tier)
  /-- The operators of a tier that follow what was read so far. -/
  | loop (tier : Tier) (left : Expr)
  /-- A task one level of nesting down. -/
  | nested (inner : Grammar.Task)
  | unary
  | primary
  /-- What follows an opening parenthesis. -/
  | grouping (opening : Token)

/-- The operands of a tier are the phrases of the next tighter rule. -/
def Tier.operand : Tier → Grammar.Task
  | .equality => .level .comparison
  | .comparison => .level .term
  | .term => .level .factor
  | .factor => .unary

namespace Grammar

/-- The outcome of a task: a tree or a fault, and the parser after it in both cases. -/
abbrev Outcome := EStateM.Result Fault Parser Expr

/-- How a task can go. Premises are in the order in which the steps are taken. -/
inductive Run : Task → Parser → Outcome → Prop where
  | expression {p : Parser} {r : Outcome}
      (h : Run (.level .equality) (p.record (.entered .expression p.cursor)) r) :
      Run .expression p r
  | levelFails {tier : Tier} {p q : Parser} {fault : Fault}
      (h : Run tier.operand (p.record (.entered tier.rule p.cursor)) (.error fault q)) :
      Run (.level tier) p (.error fault q)
  | level {tier : Tier} {p q : Parser} {left : Expr} {r : Outcome}
      (first : Run tier.operand (p.record (.entered tier.rule p.cursor)) (.ok left q))
      (rest : Run (.loop tier left) q r) :
      Run (.level tier) p r
  | loopEnds {tier : Tier} {p : Parser} {left : Expr} (hoff : p.offers tier.rule.kinds = false) :
      Run (.loop tier left) p (.ok left p)
  | loopFails {tier : Tier} {p q : Parser} {left : Expr} {fault : Fault}
      (hoff : p.offers tier.rule.kinds = true)
      (h : Run tier.operand p.advance (.error fault q)) :
      Run (.loop tier left) p (.error fault q)
  | loopTooDeep {tier : Tier} {p q : Parser} {left right : Expr}
      (hoff : p.offers tier.rule.kinds = true)
      (h : Run tier.operand p.advance (.ok right q))
      (hdeep : q.limit < (Expr.binary left p.current right).depth) :
      Run (.loop tier left) p (.error (q.tooDeep p.current.start) q)
  | loopTurns {tier : Tier} {p q : Parser} {left right : Expr} {r : Outcome}
      (hoff : p.offers tier.rule.kinds = true)
      (h : Run tier.operand p.advance (.ok right q))
      (hfits : (Expr.binary left p.current right).depth ≤ q.limit)
      (rest : Run (.loop tier (.binary left p.current right)) q r) :
      Run (.loop tier left) p r
  | tooNested {t : Task} {p : Parser} (hdeep : p.limit ≤ p.nesting + 1) :
      Run (.nested t) p (.error (p.tooDeep p.position) p.deeper)
  | nestedFails {t : Task} {p q : Parser} {fault : Fault} (hfits : p.nesting + 1 < p.limit)
      (h : Run t p.deeper (.error fault q)) :
      Run (.nested t) p (.error fault q)
  | nested {t : Task} {p q : Parser} {e : Expr} (hfits : p.nesting + 1 < p.limit)
      (h : Run t p.deeper (.ok e q)) :
      Run (.nested t) p (.ok e q.shallower)
  | prefixFails {p q : Parser} {fault : Fault} (hoff : p.offers Rule.unary.kinds = true)
      (h : Run (.nested .unary) p.advance (.error fault q)) :
      Run .unary p (.error fault q)
  | prefixed {p q : Parser} {operand : Expr} {r : Outcome}
      (hoff : p.offers Rule.unary.kinds = true)
      (h : Run (.nested .unary) p.advance (.ok operand q))
      (hr : bounded (.unary p.current operand) p.current.start q = r) :
      Run .unary p r
  | unprefixed {p : Parser} {r : Outcome} (hoff : p.offers Rule.unary.kinds = false)
      (h : Run .primary p r) :
      Run .unary p r
  | literal {p : Parser} {v : Literal} (hoff : p.offers Rule.primary.kinds = true)
      (hv : p.current.value = .ok v) :
      Run .primary p (.ok (.literal v) p.advance)
  | badLiteral {p : Parser} {fault : Fault} (hoff : p.offers Rule.primary.kinds = true)
      (hv : p.current.value = .error fault) :
      Run .primary p (.error fault p.advance)
  | opened {p : Parser} {r : Outcome} (hoff : p.offers Rule.primary.kinds = false)
      (hopen : p.offers [.openParen] = true) (h : Run (.grouping p.current) p.advance r) :
      Run .primary p r
  | missing {p : Parser} (hoff : p.offers Rule.primary.kinds = false)
      (hopen : p.offers [.openParen] = false) :
      Run .primary p (.error ⟨.expectedExpression .primary p.current.describe, p.position⟩ p)
  | groupingFails {opening : Token} {p q : Parser} {fault : Fault}
      (h : Run (.nested .expression) p (.error fault q)) :
      Run (.grouping opening) p (.error fault q)
  | unclosed {opening : Token} {p q : Parser} {inner : Expr}
      (h : Run (.nested .expression) p (.ok inner q)) (hclose : q.check .closeParen = false) :
      Run (.grouping opening) p
        (.error ⟨.unclosedGrouping opening.lexeme, opening.start⟩ q)
  | closed {opening : Token} {p q : Parser} {inner : Expr} {r : Outcome}
      (h : Run (.nested .expression) p (.ok inner q)) (hclose : q.check .closeParen = true)
      (hr : bounded (.grouping inner) opening.start q.advance = r) :
      Run (.grouping opening) p r

/-- What the procedures do for a task. -/
def Task.perform : Task → ParseM Expr
  | .expression => Grammar.expression
  | .level .equality => equality
  | .level .comparison => comparison
  | .level .term => term
  | .level .factor => factor
  | .loop .equality left => folded .equality comparison left
  | .loop .comparison left => folded .comparison term left
  | .loop .term left => folded .term factor left
  | .loop .factor left => folded .factor Grammar.unary left
  | .nested t => do
    descend
    let e ← t.perform
    ascend
    pure e
  | .unary => Grammar.unary
  | .primary => Grammar.primary
  | .grouping opening => Grammar.grouping opening
where
  /-- The loop of a level, with as many turns as there are tokens. -/
  folded (rule : Rule) (operand : ParseM Expr) (left : Expr) : ParseM Expr := do
    fold rule operand (← get).tokens.size left

/-! ## The procedures, one way at a time

What a procedure does to a parser, with the steps that it is made of written out. -/

theorem perform_expression : Task.expression.perform = Grammar.expression := rfl

/-- A level notes its rule, reads one operand and goes on as a loop. -/
theorem perform_level (tier : Tier) (p : Parser) :
    (Task.level tier).perform p =
      match tier.operand.perform (p.record (.entered tier.rule p.cursor)) with
      | .ok left q => (Task.loop tier left).perform q
      | .error fault q => .error fault q := by
  -- the four levels are one procedure, with the rule of the tier and the next tighter rule
  have hlevel : (Task.level tier).perform = level tier.rule tier.operand.perform := by
    cases tier <;> rfl
  have hloop (left : Expr) : (Task.loop tier left).perform =
      Task.perform.folded tier.rule tier.operand.perform left := by
    cases tier <;> rfl
  rw [hlevel, level, ParseM.bind_eq, enter]
  simp only [ParseM.bind_eq, hloop]
  cases tier.operand.perform (p.record (.entered tier.rule p.cursor)) <;> rfl

/-- A loop has as many turns as there are tokens, which it never uses up. -/
theorem perform_loop (tier : Tier) (left : Expr) (p : Parser) :
    (Task.loop tier left).perform p =
      fold tier.rule tier.operand.perform p.tokens.size left p := by
  cases tier <;> rfl

/-- One turn of a loop: an operator, its right operand, and the check of the tree of the two. -/
theorem fold_succ_eq (rule : Rule) (operand : ParseM Expr) (turns : Nat) (left : Expr)
    (p : Parser) :
    fold rule operand (turns + 1) left p =
      if p.offers rule.kinds then
        match operand p.advance with
        | .ok right q =>
          if q.limit < (Expr.binary left p.current right).depth then
            .error (q.tooDeep p.current.start) q
          else fold rule operand turns (.binary left p.current right) q
        | .error fault q => .error fault q
      else .ok left p := by
  rw [fold, ParseM.bind_eq, matchAny_eq]
  -- the turn is taken if an operator is offered, and then decided by the depth of the new tree
  by_cases hoff : p.offers rule.kinds
  · rw [if_pos hoff, if_pos hoff]
    simp only [ParseM.bind_eq, bounded]
    cases operand p.advance with
    | error fault q => rfl
    | ok right q =>
      by_cases hdeep : q.limit < (Expr.binary left p.current right).depth
      · simp only [if_pos hdeep]
      · simp only [if_neg hdeep]
  · rw [if_neg hoff, if_neg hoff]
    rfl

/-- A step one level of nesting down, and one after it on the level itself. -/
theorem descend_bind_eq {α β : Type} (m : ParseM α) (f : α → ParseM β) (p : Parser) :
    (do descend; let a ← m; ascend; f a : ParseM β) p =
      if p.limit ≤ p.nesting + 1 then .error (p.tooDeep p.position) p.deeper
      else
        match m p.deeper with
        | .ok a q => f a q.shallower
        | .error fault q => .error fault q := by
  rw [ParseM.bind_eq, descend]
  by_cases hdeep : p.limit ≤ p.nesting + 1
  · rw [if_pos hdeep, if_pos hdeep]
  · rw [if_neg hdeep, if_neg hdeep]
    simp only [ParseM.bind_eq]
    cases m p.deeper <;> rfl

/-- What is nested is run one level further in, if there is such a level. -/
theorem perform_nested (t : Task) (p : Parser) :
    (Task.nested t).perform p =
      if p.limit ≤ p.nesting + 1 then .error (p.tooDeep p.position) p.deeper
      else
        match t.perform p.deeper with
        | .ok e q => .ok e q.shallower
        | .error fault q => .error fault q := by
  rw [Task.perform, descend_bind_eq]
  cases t.perform p.deeper <;> rfl

/-- A unary expression is a prefix operator with its operand, or a primary. -/
theorem perform_unary (p : Parser) :
    Task.unary.perform p =
      if p.offers Rule.unary.kinds then
        match (Task.nested .unary).perform p.advance with
        | .ok operand q => bounded (.unary p.current operand) p.current.start q
        | .error fault q => .error fault q
      else Task.primary.perform p := by
  show Grammar.unary p = _
  rw [unary_eq, unaryOver, ParseM.bind_eq, matchAny_eq]
  -- an operator is consumed before a level is entered for the operand
  by_cases hoff : p.offers Rule.unary.kinds
  · rw [if_pos hoff, if_pos hoff, perform_nested]
    simp only [descend_bind_eq, Task.perform]
    split
    · rfl
    · cases Grammar.unary p.advance.deeper <;> rfl
  · rw [if_neg hoff, if_neg hoff]
    rfl

/-- A grouping is an expression, the parenthesis behind it, and the check of the tree. -/
theorem perform_grouping (opening : Token) (p : Parser) :
    (Task.grouping opening).perform p =
      match (Task.nested .expression).perform p with
      | .ok inner q =>
        if q.check .closeParen then bounded (.grouping inner) opening.start q.advance
        else .error ⟨.unclosedGrouping opening.lexeme, opening.start⟩ q
      | .error fault q => .error fault q := by
  show groupingOver Grammar.expression opening p = _
  rw [groupingOver, descend_bind_eq, perform_nested]
  split
  · rfl
  · simp only [ParseM.bind_eq, expectOr_eq, Task.perform]
    -- the expression is read one level further in, and the parenthesis is looked for outside again
    cases Grammar.expression p.deeper with
    | error fault q => rfl
    | ok inner q =>
      by_cases hclose : q.shallower.check .closeParen
      · simp only [if_pos hclose]
      · simp only [if_neg hclose]

/-- A primary is a literal, or a grouping behind an opening parenthesis. -/
theorem perform_primary (p : Parser) :
    Task.primary.perform p =
      if p.offers Rule.primary.kinds then
        match p.current.value with
        | .ok v => .ok (.literal v) p.advance
        | .error fault => .error fault p.advance
      else if p.offers [.openParen] then (Task.grouping p.current).perform p.advance
      else .error ⟨.expectedExpression .primary p.current.describe, p.position⟩ p := by
  show primaryOver Grammar.expression p = _
  rw [primaryOver, ParseM.bind_eq, matchAny_eq]
  by_cases hoff : p.offers Rule.primary.kinds
  · rw [if_pos hoff, if_pos hoff]
    simp only
    cases p.current.value <;> rfl
  · rw [if_neg hoff, if_neg hoff]
    simp only [ParseM.bind_eq, matchAny_eq]
    -- no literal is offered, so it is a grouping or nothing
    by_cases hopen : p.offers [.openParen]
    · rw [if_pos hopen, if_pos hopen]
      rfl
    · rw [if_neg hopen, if_neg hopen]
      rfl

/-! ## What runs have in common -/

def Outcome.parser : Outcome → Parser
  | .ok _ q => q
  | .error _ q => q

/-- The check of a depth hands the parser on as it is. -/
theorem parser_bounded {e : Expr} {pos : Position} {q : Parser} {r : Outcome}
    (hr : bounded e pos q = r) : Outcome.parser r = q := by
  unfold bounded at hr
  split at hr <;> cases hr <;> rfl

/--
A run only moves on: it consumes tokens that lie ahead, and changes neither them nor the limit.
-/
theorem Run.onward {t : Task} {p : Parser} {r : Outcome} (h : Run t p r) :
    p.Onward (Outcome.parser r) := by
  -- by induction on the run, each of whose own steps leads onward
  induction h with
  | expression _ ih => exact (onward_record _ _).trans ih
  | levelFails _ ih => exact (onward_record _ _).trans ih
  | level _ _ ihFirst ihRest => exact ((onward_record _ _).trans ihFirst).trans ihRest
  | loopEnds _ => exact Onward.refl _
  | loopFails _ _ ih => exact (onward_advance _).trans ih
  | loopTooDeep _ _ _ ih => exact (onward_advance _).trans ih
  | loopTurns _ _ _ _ ih ihRest => exact ((onward_advance _).trans ih).trans ihRest
  | tooNested _ => exact onward_deeper _
  | nestedFails _ _ ih => exact (onward_deeper _).trans ih
  | nested _ _ ih => exact ((onward_deeper _).trans ih).trans (onward_shallower _)
  | prefixFails _ _ ih => exact (onward_advance _).trans ih
  | prefixed _ _ hr ih =>
    rw [parser_bounded hr]
    exact (onward_advance _).trans ih
  | unprefixed _ _ ih => exact ih
  | literal _ _ => exact onward_advance _
  | badLiteral _ _ => exact onward_advance _
  | opened _ _ _ ih => exact (onward_advance _).trans ih
  | missing _ _ => exact Onward.refl _
  | groupingFails _ ih => exact ih
  | unclosed _ _ ih => exact ih
  | closed _ _ hr ih =>
    rw [parser_bounded hr]
    exact ih.trans (onward_advance _)

/-! ## The procedures run -/

section Exists

variable {n : Nat}

/-- The loop of a tier runs if its operands do, with a turn for every token ahead. -/
theorem run_fold {tier : Tier}
    (hoperand : ∀ q : Parser, q.ahead.length < n → Run tier.operand q (tier.operand.perform q))
    (turns : Nat) (left : Expr) (p : Parser) (hn : p.ahead.length < n)
    (hturns : p.ahead.length ≤ turns) :
    Run (.loop tier left) p (fold tier.rule tier.operand.perform turns left p) := by
  induction turns generalizing left p with
  | zero =>
    -- no turns are left because no tokens are left, and then no operator is offered
    have hnil : p.ahead = [] := List.eq_nil_of_length_eq_zero (Nat.le_zero.mp hturns)
    have hoff : p.offers tier.rule.kinds = false := by
      cases hoff : p.offers tier.rule.kinds with
      | false => rfl
      | true =>
        have hend := atEnd_of_offers hoff
        rw [ahead_eq_nil_iff.mp hnil] at hend
        cases hend
    exact .loopEnds hoff
  | succ turns ih =>
    rw [fold_succ_eq]
    cases hoff : p.offers tier.rule.kinds with
    | false => exact .loopEnds hoff
    | true =>
      have hlonger := length_ahead_advance (atEnd_of_offers hoff)
      have hrun := hoperand p.advance (by omega)
      rw [if_pos rfl]
      cases hres : tier.operand.perform p.advance with
      | error fault q =>
        rw [hres] at hrun
        exact .loopFails hoff hrun
      | ok right q =>
        rw [hres] at hrun
        -- the operand leaves no more tokens than there were, so the turns left are still enough
        have hlen : q.ahead.length ≤ p.advance.ahead.length := hrun.onward.length_le
        simp only
        split
        · rename_i hdeep
          exact .loopTooDeep hoff hrun hdeep
        · rename_i hfits
          exact .loopTurns hoff hrun (Nat.le_of_not_lt hfits) (ih _ q (by omega) (by omega))

/-- A level runs if its operands do. -/
theorem run_level (tier : Tier)
    (hoperand : ∀ q : Parser, q.ahead.length < n → Run tier.operand q (tier.operand.perform q))
    (p : Parser) (hn : p.ahead.length < n) :
    Run (.level tier) p ((Task.level tier).perform p) := by
  rw [perform_level]
  have hrun := hoperand (p.record (.entered tier.rule p.cursor)) hn
  cases hres : tier.operand.perform (p.record (.entered tier.rule p.cursor)) with
  | error fault q =>
    rw [hres] at hrun
    exact .levelFails hrun
  | ok left q =>
    rw [hres] at hrun
    -- the number of turns is that of all tokens, and no more than these lie ahead
    have hlen : q.ahead.length ≤ p.ahead.length := hrun.onward.length_le
    simp only [perform_loop]
    exact .level hrun (run_fold hoperand _ left q (by omega) q.ahead_length_le)

/-- The operand of every tier runs if unary expressions do. -/
theorem run_operand (hunary : ∀ q : Parser, q.ahead.length < n → Run .unary q (Grammar.unary q))
    (tier : Tier) (p : Parser) (hn : p.ahead.length < n) :
    Run tier.operand p (tier.operand.perform p) := by
  -- from the tightest tier to the loosest, each level calls the one before it
  have hfactor := run_level .factor hunary
  have hterm := run_level .term hfactor
  cases tier with
  | equality => exact run_level .comparison hterm p hn
  | comparison => exact hterm p hn
  | term => exact hfactor p hn
  | factor => exact hunary p hn

/-- An expression runs if unary expressions do. -/
theorem run_expression (hunary : ∀ q : Parser, q.ahead.length < n → Run .unary q (Grammar.unary q))
    (p : Parser) (hn : p.ahead.length < n) : Run .expression p (Grammar.expression p) := by
  have hequality := run_level .equality (run_operand hunary .equality)
  exact .expression (hequality (p.record (.entered .expression p.cursor)) hn)

/-- What is nested runs if it does so one level further in. -/
theorem run_nested {t : Task} (hrun : ∀ q : Parser, q.ahead.length < n → Run t q (t.perform q))
    (p : Parser) (hn : p.ahead.length < n) : Run (.nested t) p ((Task.nested t).perform p) := by
  rw [perform_nested]
  split
  · rename_i hdeep
    exact .tooNested hdeep
  · rename_i hfits
    -- the nested task is run with the nesting raised, and what it comes to is handed on
    have hinner := hrun p.deeper hn
    cases hres : t.perform p.deeper with
    | error fault q =>
      rw [hres] at hinner
      exact .nestedFails (Nat.lt_of_not_le hfits) hinner
    | ok e q =>
      rw [hres] at hinner
      exact .nested (Nat.lt_of_not_le hfits) hinner

/-- A grouping runs if unary expressions do. -/
theorem run_grouping (hunary : ∀ q : Parser, q.ahead.length < n → Run .unary q (Grammar.unary q))
    (opening : Token) (p : Parser) (hn : p.ahead.length < n) :
    Run (.grouping opening) p ((Task.grouping opening).perform p) := by
  rw [perform_grouping]
  -- the expression inside is run, and the token behind it decides the rest
  have hinner := run_nested (t := .expression) (run_expression hunary) p hn
  cases hres : (Task.nested .expression).perform p with
  | error fault q =>
    rw [hres] at hinner
    exact .groupingFails hinner
  | ok inner q =>
    rw [hres] at hinner
    simp only
    cases hclose : q.check .closeParen with
    | true => exact .closed hinner hclose rfl
    | false => exact .unclosed hinner hclose

/-- A primary consumes a token before it reads anything else, so shorter runs are enough for it. -/
theorem run_primary (hunary : ∀ q : Parser, q.ahead.length < n → Run .unary q (Grammar.unary q))
    (p : Parser) (hn : p.ahead.length ≤ n) : Run .primary p (Task.primary.perform p) := by
  rw [perform_primary]
  -- the three ways a primary can start: a literal, a parenthesis, or neither
  cases hoff : p.offers Rule.primary.kinds with
  | true =>
    rw [if_pos rfl]
    cases hv : p.current.value with
    | ok v => exact .literal hoff hv
    | error fault => exact .badLiteral hoff hv
  | false =>
    cases hopen : p.offers [.openParen] with
    | true =>
      have hlonger := length_ahead_advance (atEnd_of_offers hopen)
      exact .opened hoff hopen (run_grouping hunary p.current p.advance (by omega))
    | false => exact .missing hoff hopen

/-- Every way back to the unary rule consumes a token first. -/
theorem run_unary_of_lt (p : Parser) (hn : p.ahead.length < n) :
    Run .unary p (Grammar.unary p) := by
  -- The induction is on the number of tokens ahead: behind a prefix operator or an opening
  -- parenthesis there is one fewer.
  induction n generalizing p with
  | zero => omega
  | succ n ih =>
    show Run .unary p (Task.unary.perform p)
    rw [perform_unary]
    cases hoff : p.offers Rule.unary.kinds with
    | false => exact .unprefixed hoff (run_primary ih p (by omega))
    | true =>
      have hlonger := length_ahead_advance (atEnd_of_offers hoff)
      have hoperand := run_nested (t := .unary) ih p.advance (by omega)
      rw [if_pos rfl]
      cases hres : (Task.nested .unary).perform p.advance with
      | error fault q =>
        rw [hres] at hoperand
        exact .prefixFails hoff hoperand
      | ok operand q =>
        rw [hres] at hoperand
        exact .prefixed hoff hoperand rfl

end Exists

/-- A unary expression runs, whatever lies ahead of it. -/
theorem run_unary (p : Parser) : Run .unary p (Grammar.unary p) :=
  run_unary_of_lt p (Nat.lt_succ_self _)

/-- **Every task runs**, and what its procedure comes to is the outcome of the run. -/
theorem run_perform (t : Task) (p : Parser) : Run t p (t.perform p) := by
  have hn : ∀ q : Parser, q.ahead.length < p.ahead.length + 1 → Run .unary q (Grammar.unary q) :=
    fun q _ => run_unary q
  have hlt : p.ahead.length < p.ahead.length + 1 := Nat.lt_succ_self _
  -- Only nested tasks are made of others, so they are what the induction is on.
  induction t generalizing p with
  | expression => exact run_expression hn p hlt
  | level tier => exact run_level tier (run_operand hn tier) p hlt
  | loop tier left =>
    rw [perform_loop]
    exact run_fold (run_operand hn tier) _ left p hlt p.ahead_length_le
  | nested t ih =>
    exact run_nested (fun q _ => ih q (fun r _ => run_unary r) (Nat.lt_succ_self _)) p hlt
  | unary => exact run_unary p
  | primary => exact run_primary hn p (Nat.le_succ _)
  | grouping opening => exact run_grouping hn opening p hlt

/-- Runs of one task at one parser end in one way: the premises of the constructors exclude each
other, and the runs among them are equal by induction. -/
theorem Run.det {t : Task} {p : Parser} {r r' : Outcome} (h : Run t p r) (h' : Run t p r') :
    r' = r := by
  induction h generalizing r' <;> cases h' <;> grind

/-- The runs of a task are what the procedures do for it. -/
theorem run_iff {t : Task} {p : Parser} {r : Outcome} : Run t p r ↔ t.perform p = r := by
  constructor
  · intro h
    exact h.det (run_perform t p)
  · rintro rfl
    exact run_perform t p

/-! ## Conditions on outcomes -/

/-- The outcome meets the one condition if it is a tree, and the other if it is a fault. -/
def Outcome.Meets (r : Outcome) (good : Expr → Parser → Prop) (bad : Fault → Parser → Prop) :
    Prop :=
  match r with
  | .ok e q => good e q
  | .error fault q => bad fault q

/-- Weaker conditions are met by the same outcomes. -/
theorem Outcome.Meets.imp {r : Outcome} {good good' : Expr → Parser → Prop}
    {bad bad' : Fault → Parser → Prop} (h : Outcome.Meets r good bad)
    (hgood : ∀ e q, good e q → good' e q) (hbad : ∀ fault q, bad fault q → bad' fault q) :
    Outcome.Meets r good' bad' := by
  cases r with
  | ok e q => exact hgood e q h
  | error fault q => exact hbad fault q h

/-- A tree that is checked against the limit comes back as it is, or is too deep. -/
theorem meets_bounded {e : Expr} {pos : Position} {q : Parser} {r : Outcome}
    (hr : bounded e pos q = r) :
    Outcome.Meets r (fun e' q' => e' = e ∧ q' = q ∧ e.depth ≤ q.limit)
      (fun fault q' => fault = q.tooDeep pos ∧ q' = q ∧ q.limit < e.depth) := by
  unfold bounded at hr
  split at hr
  · rename_i hdeep
    subst hr
    exact ⟨rfl, rfl, hdeep⟩
  · rename_i hfits
    subst hr
    exact ⟨rfl, rfl, Nat.le_of_not_lt hfits⟩

/-- A run that succeeds has left every level of nesting that it entered. -/
theorem Run.nesting_eq {t : Task} {p : Parser} {r : Outcome} (h : Run t p r) :
    Outcome.Meets r (fun _ q => q.nesting = p.nesting) (fun _ _ => True) := by
  -- the bound on a node hands the parser on as it is
  have hbuilt {e : Expr} {pos : Position} {q : Parser} {r : Outcome} {k : Nat}
      (hr : bounded e pos q = r) (hq : q.nesting = k) :
      Outcome.Meets r (fun _ q => q.nesting = k) (fun _ _ => True) :=
    (meets_bounded hr).imp (fun _ _ h => h.2.1 ▸ hq) (fun _ _ _ => trivial)
  induction h with
  | expression _ ih => exact ih
  | levelFails _ _ => trivial
  | level _ _ ihFirst ihRest =>
    exact ihRest.imp (fun _ _ h => h.trans ihFirst) (fun _ _ h => h)
  | loopEnds _ => rfl
  | loopFails _ _ _ => trivial
  | loopTooDeep _ _ _ _ => trivial
  | loopTurns _ _ _ _ ih ihRest =>
    have hadv := nesting_advance
    exact ihRest.imp (fun _ _ h => (h.trans ih).trans (hadv _)) (fun _ _ h => h)
  | tooNested _ => trivial
  | nestedFails _ _ _ => trivial
  -- the level that was entered is the one that is left
  | nested _ _ ih => exact congrArg (· - 1) ih
  | prefixFails _ _ _ => trivial
  | prefixed _ _ hr ih => exact hbuilt hr (ih.trans (nesting_advance _))
  | unprefixed _ _ ih => exact ih
  | literal _ _ => exact nesting_advance _
  | badLiteral _ _ => trivial
  | opened _ _ _ ih => exact ih.imp (fun _ _ h => h.trans (nesting_advance _)) (fun _ _ h => h)
  | missing _ _ => trivial
  | groupingFails _ _ => trivial
  | unclosed _ _ _ => trivial
  | closed _ _ hr ih => exact hbuilt hr ((nesting_advance _).trans ih)

end Grammar

/-! ## The parser -/

open Grammar

/-- A sentence is an expression with nothing behind it. -/
theorem sentence_eq (p : Parser) :
    sentence p =
      match Grammar.expression p with
      | .ok e q => if q.atEnd then .ok e q else .error q.unexpected q
      | .error fault q => .error fault q := by
  rw [sentence, ParseM.bind_eq]
  cases Grammar.expression p with
  | error fault q => rfl
  | ok e q =>
    simp only [ParseM.bind_eq]
    show (if q.atEnd then pure e else throw q.unexpected : ParseM Expr) q = _
    -- behind the expression there is the end of input, or a token too many
    by_cases hend : q.atEnd
    · rw [if_pos hend, if_pos hend]
      rfl
    · rw [if_neg hend, if_neg hend]
      rfl

/-- How a parse ends once its expression is read. Only the end of input may follow. -/
def Grammar.Outcome.conclude : Outcome → Outcome
  | .ok e q =>
    if q.atEnd then .ok e (q.record (.parsed q.tokens.size e))
    else .error q.unexpected (q.record (.failed q.cursor q.unexpected))
  | .error fault q => .error fault (q.record (.failed q.cursor fault))

/-- A parse comes to what the run of its expression does, with the check for the end of input. -/
theorem parse_of_run {tokens : Array Token} {limit : Nat} {r : Outcome}
    (h : Run .expression (ofTokens tokens limit) r) :
    parse tokens limit = Outcome.conclude r := by
  have hperform := run_iff.mp h
  rw [perform_expression] at hperform
  unfold parse
  rw [sentence_eq, hperform]
  cases r with
  | error fault q => rfl
  | ok e q =>
    -- what follows the expression decides, and is noted in the log
    by_cases hend : q.atEnd
    · simp only [Outcome.conclude, if_pos hend]
    · simp only [Outcome.conclude, if_neg hend]

end LoxExpr
