import Mathlib.Logic.Relation
import LoxExpr.Proofs.Grammar.Run

/-!
# The moments of a parse

A run says how a task ends. This module says what it goes through on the way. A `Moment` is a point
in the course of a parse: what is about to happen there, the procedures that wait for it, innermost
first, and the parser. `Step` leads from one moment to the next, by at most one move of the parser
(`Step.move`).

* `Run.steps`: the moments of a task lead to the outcome of its run, whatever waits for it;
* `Steps.onto_end`: no moment has two next ones, so every moment that a task comes to is on its way
  to that outcome.

So what one step keeps holds at every moment of a parse, and not only where it ends.
-/

namespace LoxExpr

open LoxExpr.Parser

namespace Grammar

/-- A procedure that waits for the tree of a task which it has started. -/
inductive Frame where
  /-- A tier waits for its first operand. -/
  | first (tier : Tier)
  /-- A tier waits for the right operand of an operator. -/
  | right (tier : Tier) (left : Expr) (operator : Token)
  /-- A level of nesting is to be left. -/
  | leave
  /-- A unary expression waits for the operand of its operator. -/
  | prefixed (operator : Token)
  /-- A unary expression without an operator waits for the primary expression that it is. -/
  | plain
  /-- A grouping waits for what it holds. -/
  | opened (opening : Token)
deriving DecidableEq

/-- A point in the course of a parse, with the procedures that wait, innermost first. -/
inductive Moment where
  /-- A task is about to begin. -/
  | begins (t : Task) (frames : List Frame) (p : Parser)
  /-- A tree has come out. -/
  | yields (e : Expr) (frames : List Frame) (p : Parser)
  /-- The parse has failed. -/
  | fails (fault : Fault) (frames : List Frame) (p : Parser)

namespace Moment

def parser : Moment → Parser
  | .begins _ _ p => p
  | .yields _ _ p => p
  | .fails _ _ p => p

def frames : Moment → List Frame
  | .begins _ fs _ => fs
  | .yields _ fs _ => fs
  | .fails _ fs _ => fs

/-- The moment at which a task has ended. -/
def ended (fs : List Frame) : Outcome → Moment
  | .ok e q => .yields e fs q
  | .error fault q => .fails fault fs q

@[simp] theorem parser_ended (fs : List Frame) (r : Outcome) :
    (ended fs r).parser = Outcome.parser r := by
  cases r <;> rfl

end Moment

/-- What happens at a moment. -/
inductive Step : Moment → Moment → Prop where
  | expression {fs : List Frame} {p : Parser} :
      Step (.begins .expression fs p)
        (.begins (.level .equality) fs (p.record (.entered .expression p.cursor)))
  | level {tier : Tier} {fs : List Frame} {p : Parser} :
      Step (.begins (.level tier) fs p)
        (.begins tier.operand (.first tier :: fs) (p.record (.entered tier.rule p.cursor)))
  | first {tier : Tier} {e : Expr} {fs : List Frame} {p : Parser} :
      Step (.yields e (.first tier :: fs) p) (.begins (.loop tier e) fs p)
  | loopEnds {tier : Tier} {left : Expr} {fs : List Frame} {p : Parser}
      (hoff : p.offers tier.rule.kinds = false) :
      Step (.begins (.loop tier left) fs p) (.yields left fs p)
  | loopTurns {tier : Tier} {left : Expr} {fs : List Frame} {p : Parser}
      (hoff : p.offers tier.rule.kinds = true) :
      Step (.begins (.loop tier left) fs p)
        (.begins tier.operand (.right tier left p.current :: fs) p.advance)
  | right {tier : Tier} {left e : Expr} {operator : Token} {fs : List Frame} {p : Parser}
      (hfits : (Expr.binary left operator e).depth ≤ p.limit) :
      Step (.yields e (.right tier left operator :: fs) p)
        (.begins (.loop tier (.binary left operator e)) fs p)
  | rightTooDeep {tier : Tier} {left e : Expr} {operator : Token} {fs : List Frame} {p : Parser}
      (hdeep : p.limit < (Expr.binary left operator e).depth) :
      Step (.yields e (.right tier left operator :: fs) p)
        (.fails (p.tooDeep operator.start) fs p)
  | enters {t : Task} {fs : List Frame} {p : Parser} (hfits : p.nesting + 1 < p.limit) :
      Step (.begins (.nested t) fs p) (.begins t (.leave :: fs) p.deeper)
  | tooNested {t : Task} {fs : List Frame} {p : Parser} (hdeep : p.limit ≤ p.nesting + 1) :
      Step (.begins (.nested t) fs p) (.fails (p.tooDeep p.position) fs p.deeper)
  | leaves {e : Expr} {fs : List Frame} {p : Parser} :
      Step (.yields e (.leave :: fs) p) (.yields e fs p.shallower)
  | prefixed {fs : List Frame} {p : Parser} (hoff : p.offers Rule.unary.kinds = true) :
      Step (.begins .unary fs p) (.begins (.nested .unary) (.prefixed p.current :: fs) p.advance)
  | unprefixed {fs : List Frame} {p : Parser} (hoff : p.offers Rule.unary.kinds = false) :
      Step (.begins .unary fs p) (.begins .primary (.plain :: fs) p)
  | plain {e : Expr} {fs : List Frame} {p : Parser} :
      Step (.yields e (.plain :: fs) p) (.yields e fs p)
  | operand {e : Expr} {operator : Token} {fs : List Frame} {p : Parser} {r : Outcome}
      (hr : bounded (.unary operator e) operator.start p = r) :
      Step (.yields e (.prefixed operator :: fs) p) (.ended fs r)
  | literal {v : Literal} {fs : List Frame} {p : Parser}
      (hoff : p.offers Rule.primary.kinds = true) (hv : p.current.value = .ok v) :
      Step (.begins .primary fs p) (.yields (.literal v) fs p.advance)
  | badLiteral {fault : Fault} {fs : List Frame} {p : Parser}
      (hoff : p.offers Rule.primary.kinds = true) (hv : p.current.value = .error fault) :
      Step (.begins .primary fs p) (.fails fault fs p.advance)
  | opened {fs : List Frame} {p : Parser} (hoff : p.offers Rule.primary.kinds = false)
      (hopen : p.offers [.openParen] = true) :
      Step (.begins .primary fs p) (.begins (.grouping p.current) fs p.advance)
  | missing {fs : List Frame} {p : Parser} (hoff : p.offers Rule.primary.kinds = false)
      (hopen : p.offers [.openParen] = false) :
      Step (.begins .primary fs p)
        (.fails ⟨.expectedExpression .primary p.current.describe, p.position⟩ fs p)
  | grouping {opening : Token} {fs : List Frame} {p : Parser} :
      Step (.begins (.grouping opening) fs p)
        (.begins (.nested .expression) (.opened opening :: fs) p)
  | closed {e : Expr} {opening : Token} {fs : List Frame} {p : Parser} {r : Outcome}
      (hclose : p.check .closeParen = true)
      (hr : bounded (.grouping e) opening.start p.advance = r) :
      Step (.yields e (.opened opening :: fs) p) (.ended fs r)
  | unclosed {e : Expr} {opening : Token} {fs : List Frame} {p : Parser}
      (hclose : p.check .closeParen = false) :
      Step (.yields e (.opened opening :: fs) p)
        (.fails ⟨.unclosedGrouping opening.lexeme, opening.start⟩ fs p)
  /-- No procedure that waits goes on after a fault. -/
  | unwinds {fault : Fault} {frame : Frame} {fs : List Frame} {p : Parser} :
      Step (.fails fault (frame :: fs) p) (.fails fault fs p)

/-- Any number of steps. -/
abbrev Steps : Moment → Moment → Prop :=
  Relation.ReflTransGen Step

/-- What happens at a moment is settled by it. -/
theorem Step.det {m m' m'' : Moment} (h : Step m m') (h' : Step m m'') : m'' = m' := by
  cases h <;> cases h' <;> grind

/-! ## From the beginning of a task to its end -/

/-- The rules that an expression begins before it comes to a unary expression, loosest first. -/
def looseRules : List Rule :=
  [.expression, .equality, .comparison, .term, .factor]

/-- The tiers that wait for their first operand then, innermost first. -/
def tierFrames : List Frame :=
  [.first .factor, .first .term, .first .comparison, .first .equality]

/-- An expression goes down to its first unary expression whatever the tokens are. -/
theorem steps_unary (fs : List Frame) (p : Parser) :
    Steps (.begins .expression fs p) (.begins .unary (tierFrames ++ fs)
      (looseRules.foldl (fun p rule => p.record (.entered rule p.cursor)) p)) :=
  .head .expression (.head .level (.head .level (.head .level (.single .level))))

/-- A unary expression without an operator ends like its primary expression. -/
theorem step_plain (fs : List Frame) (r : Outcome) :
    Step (.ended (.plain :: fs) r) (.ended fs r) := by
  cases r with
  | ok e q => exact .plain
  | error fault q => exact .unwinds

/-- The moments of a task lead to the outcome of its run. -/
theorem Run.steps {t : Task} {p : Parser} {r : Outcome} (h : Run t p r) (fs : List Frame) :
    Steps (.begins t fs p) (.ended fs r) := by
  -- The induction is on the run, for any procedures that wait: a part of the run has one more of
  -- them waiting, and hands over to it when it is over.
  induction h generalizing fs with
  | expression _ ih => exact (ih fs).head .expression
  | @levelFails tier _ _ _ _ ih => exact ((ih (.first tier :: fs)).tail .unwinds).head .level
  | @level tier _ _ _ _ _ _ ihFirst ihRest =>
    exact ((ihFirst (.first tier :: fs)).head .level).trans ((ihRest fs).head .first)
  | loopEnds hoff => exact .single (.loopEnds hoff)
  | @loopFails tier p _ left _ hoff _ ih =>
    exact ((ih (.right tier left p.current :: fs)).tail .unwinds).head (.loopTurns hoff)
  | @loopTooDeep tier p _ left _ hoff _ hdeep ih =>
    exact ((ih (.right tier left p.current :: fs)).tail (.rightTooDeep hdeep)).head
      (.loopTurns hoff)
  | @loopTurns tier p _ left _ _ hoff _ hfits _ ih ihRest =>
    exact ((ih (.right tier left p.current :: fs)).head (.loopTurns hoff)).trans
      ((ihRest fs).head (.right hfits))
  | tooNested hdeep => exact .single (.tooNested hdeep)
  | nestedFails hfits _ ih => exact ((ih (.leave :: fs)).tail .unwinds).head (.enters hfits)
  | nested hfits _ ih => exact ((ih (.leave :: fs)).tail .leaves).head (.enters hfits)
  | @prefixFails p _ _ hoff _ ih =>
    exact ((ih (.prefixed p.current :: fs)).tail .unwinds).head (.prefixed hoff)
  | @prefixed p _ _ _ hoff _ hr ih =>
    exact ((ih (.prefixed p.current :: fs)).tail (.operand hr)).head (.prefixed hoff)
  | unprefixed hoff _ ih =>
    exact ((ih (.plain :: fs)).tail (step_plain fs _)).head (.unprefixed hoff)
  | literal hoff hv => exact .single (.literal hoff hv)
  | badLiteral hoff hv => exact .single (.badLiteral hoff hv)
  | opened hoff hopen _ ih => exact (ih fs).head (.opened hoff hopen)
  | missing hoff hopen => exact .single (.missing hoff hopen)
  | @groupingFails opening _ _ _ _ ih =>
    exact ((ih (.opened opening :: fs)).tail .unwinds).head .grouping
  | @unclosed opening _ _ _ _ hclose ih =>
    exact ((ih (.opened opening :: fs)).tail (.unclosed hclose)).head .grouping
  | @closed opening _ _ _ _ _ hclose hr ih =>
    exact ((ih (.opened opening :: fs)).tail (.closed hclose hr)).head .grouping

/-- A task that nobody waits for is over with its outcome. -/
theorem not_step_ended (r : Outcome) (m : Moment) : ¬ Step (.ended [] r) m := by
  intro h
  cases r <;> cases h

/-- What a task comes to lies on the way to its end. -/
theorem Steps.onto_end {m m' : Moment} {r : Outcome} (h : Steps m m')
    (hend : Steps m (.ended [] r)) : Steps m' (.ended [] r) := by
  induction h with
  | refl => exact hend
  | tail _ hstep ih =>
    rcases Relation.ReflTransGen.cases_head ih with hended | ⟨next, hnext, hrest⟩
    · rw [hended] at hstep
      exact absurd hstep (not_step_ended r _)
    · rw [hstep.det hnext] at hrest
      exact hrest

/-! ## What a step does to the parser -/

end Grammar

/-- A single thing that a procedure does to its parser. -/
inductive Parser.Move (p : Parser) : Parser → Prop where
  | stay : p.Move p
  | enter (rule : Rule) : p.Move (p.record (.entered rule p.cursor))
  | consume (hend : p.atEnd = false) : p.Move p.advance
  | deeper : p.Move p.deeper
  | shallower : p.Move p.shallower

namespace Grammar

/-- A step does one of five things to the parser. -/
theorem Step.move {m m' : Moment} (h : Step m m') : m.parser.Move m'.parser := by
  -- most steps only pass the work on; the others consume, enter a rule or a level, or leave one
  cases h with
  | expression => exact .enter .expression
  | level => exact .enter _
  | first => exact .stay
  | loopEnds _ => exact .stay
  | loopTurns hoff => exact .consume (atEnd_of_offers hoff)
  | right _ => exact .stay
  | rightTooDeep _ => exact .stay
  | enters _ => exact .deeper
  | tooNested _ => exact .deeper
  | leaves => exact .shallower
  | prefixed hoff => exact .consume (atEnd_of_offers hoff)
  | unprefixed _ => exact .stay
  | plain => exact .stay
  | operand hr =>
    rw [Moment.parser_ended, parser_bounded hr]
    exact .stay
  | literal hoff _ => exact .consume (atEnd_of_offers hoff)
  | badLiteral hoff _ => exact .consume (atEnd_of_offers hoff)
  | opened _ hopen => exact .consume (atEnd_of_offers hopen)
  | missing _ _ => exact .stay
  | grouping => exact .stay
  | closed hclose hr =>
    rw [Moment.parser_ended, parser_bounded hr]
    exact .consume (check_eq_true_iff.mp hclose).1
  | unclosed _ => exact .stay
  | unwinds => exact .stay

end Grammar

end LoxExpr
