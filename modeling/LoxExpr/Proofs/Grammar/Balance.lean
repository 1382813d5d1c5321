import LoxExpr.Proofs.Grammar.Moment
import LoxExpr.Proofs.Grammar.Operation

/-!
# The nesting counter

The counter says how many prefix operators and groupings are open. Every step keeps that true
(`Step.sound`): while a parse goes on, the counter has grown by the levels of nesting that wait to
be left, and there is one of these for every operator and parenthesis that was opened, but for the
last one before its level is entered. A level is only entered below the limit, which bounds all of
them. After a fault nothing is left any more, and the counter stays what it was.

So the counter is balanced where a procedure succeeds, and bounded where it fails or is still at it:
`nesting_balanced`.
-/

namespace LoxExpr

open LoxExpr.Parser

namespace Grammar

/-! ## What is open at a moment -/

/-- The levels of nesting that wait to be left. -/
def levels : List Frame → Nat
  | [] => 0
  | .leave :: fs => levels fs + 1
  | _ :: fs => levels fs

/-- The unary expressions and groupings that wait for what their operator or parenthesis opened. -/
def openings : List Frame → Nat
  | [] => 0
  | .prefixed _ :: fs => openings fs + 1
  | .opened _ :: fs => openings fs + 1
  | _ :: fs => openings fs

/-- The unary expressions that wait, with and without an operator. -/
def unaries : List Frame → Nat
  | [] => 0
  | .prefixed _ :: fs => unaries fs + 1
  | .plain :: fs => unaries fs + 1
  | _ :: fs => unaries fs

/-- How many operators and parentheses are open. A grouping is from its very beginning. -/
def Moment.openings : Moment → Nat
  | .begins (.grouping _) fs _ => Grammar.openings fs + 1
  | m => Grammar.openings m.frames

/-- How many unary expressions are being read. -/
def Moment.unaries : Moment → Nat
  | .begins .unary fs _ => Grammar.unaries fs + 1
  | m => Grammar.unaries m.frames

/-- What the innermost of the procedures that wait is waiting for. -/
inductive Phase where
  /-- An operand, or a whole level of them. -/
  | operand
  /-- The primary expression in place of an operand. -/
  | primary
  /-- What an operator or a parenthesis opened. A level is to be entered for it first. -/
  | pending

namespace Phase

/-- What is open without a level of its own. -/
def openings : Phase → Nat
  | .pending => 1
  | _ => 0

/-- The unary expressions that have begun since the last level was entered. -/
def unaries : Phase → Nat
  | .operand => 0
  | _ => 1

theorem openings_le (phase : Phase) : phase.openings ≤ 1 := by
  cases phase <;> decide

theorem unaries_le (phase : Phase) : phase.unaries ≤ 1 := by
  cases phase <;> decide

end Phase

/--
The procedures that wait alternate: whoever opens something enters a level for it before anything
else is opened, and one unary expression is enough to get from a level to what opens the next.
-/
inductive Alternating : Phase → List Frame → Prop where
  | nil : Alternating .operand []
  | nilPrimary : Alternating .primary []
  | first {tier : Tier} {fs : List Frame} (h : Alternating .operand fs) :
      Alternating .operand (.first tier :: fs)
  | right {tier : Tier} {left : Expr} {operator : Token} {fs : List Frame}
      (h : Alternating .operand fs) : Alternating .operand (.right tier left operator :: fs)
  | leave {fs : List Frame} (h : Alternating .pending fs) : Alternating .operand (.leave :: fs)
  | prefixed {operator : Token} {fs : List Frame} (h : Alternating .operand fs) :
      Alternating .pending (.prefixed operator :: fs)
  | plain {fs : List Frame} (h : Alternating .operand fs) : Alternating .primary (.plain :: fs)
  | opened {opening : Token} {fs : List Frame} (h : Alternating .primary fs) :
      Alternating .pending (.opened opening :: fs)

namespace Alternating

variable {phase : Phase} {fs : List Frame}

/-- Every opening has entered its level, but for one that is pending. -/
theorem openings_eq (h : Alternating phase fs) : openings fs = levels fs + phase.openings := by
  induction h with
  | nil => rfl
  | nilPrimary => rfl
  | first _ ih => exact ih
  | right _ ih => exact ih
  | leave _ ih => exact ih
  | prefixed _ ih => exact congrArg (· + 1) ih
  | plain _ ih => exact ih
  | opened _ ih => exact congrArg (· + 1) ih

/-- Every level was entered for something that is open. -/
theorem levels_le (h : Alternating phase fs) : levels fs ≤ openings fs := by
  have heq := h.openings_eq
  omega

theorem openings_le (h : Alternating phase fs) : openings fs ≤ levels fs + 1 := by
  have heq := h.openings_eq
  have hle := phase.openings_le
  omega

/-- Each level has at most one unary expression between it and the next. -/
theorem unaries_le (h : Alternating phase fs) : unaries fs ≤ levels fs + phase.unaries := by
  induction h with
  | nil => exact Nat.le_refl _
  | nilPrimary => exact Nat.zero_le _
  | first _ ih => exact ih
  | right _ ih => exact ih
  | leave _ ih => exact ih
  | prefixed _ ih => exact Nat.succ_le_succ ih
  | plain _ ih => exact Nat.succ_le_succ ih
  | opened _ ih => exact ih

/-- At most one unary expression waits for every level, and one before the first. -/
theorem unaries_le_succ (h : Alternating phase fs) : unaries fs ≤ levels fs + 1 :=
  Nat.le_trans h.unaries_le (Nat.add_le_add_left phase.unaries_le _)

/-- What waits below the innermost procedure alternates, too. -/
theorem tail {f : Frame} (h : Alternating phase (f :: fs)) : ∃ phase', Alternating phase' fs := by
  cases h with
  | first h => exact ⟨_, h⟩
  | right h => exact ⟨_, h⟩
  | leave h => exact ⟨_, h⟩
  | prefixed h => exact ⟨_, h⟩
  | plain h => exact ⟨_, h⟩
  | opened h => exact ⟨_, h⟩

end Alternating

/-- What waits when a task begins. Levels are entered for operands and for groupings only. -/
def Task.Under (fs : List Frame) : Task → Prop
  | .nested t => Alternating .pending fs ∧ (t = .unary ∨ t = .expression)
  | .primary => Alternating .primary fs
  | .grouping _ => Alternating .primary fs
  | _ => Alternating .operand fs

theorem under_operand {tier : Tier} {fs : List Frame} (h : Alternating .operand fs) :
    tier.operand.Under fs := by
  cases tier <;> exact h

/-- Whatever begins, the procedures that wait for it alternate. -/
theorem Task.Under.exists_alternating {t : Task} {fs : List Frame} (h : t.Under fs) :
    ∃ phase, Alternating phase fs := by
  cases t with
  | nested t => exact ⟨_, h.1⟩
  | _ => exact ⟨_, h⟩

/-! ## What every step keeps -/

/--
The counter of a parse that goes on, with the levels that it waits to leave. `start` is the parser
that it began with, and `given` counts what its caller had opened for it.
-/
structure Counts (start : Parser) (given : Nat) (fs : List Frame) (opened : Nat) (p : Parser) :
    Prop where
  limit_eq : p.limit = start.limit
  nesting_eq : p.nesting = start.nesting + levels fs
  /-- Every level was entered below the limit. -/
  levels_lt : levels fs = 0 ∨ start.nesting + levels fs < start.limit
  /-- Every opening was consumed, but for one that was given. -/
  opened_le : start.cursor + opened ≤ p.cursor + given

/-- The counter of a parse that has failed, with the levels that it has not left. -/
structure Overcounts (start : Parser) (given : Nat) (fs : List Frame) (p : Parser) : Prop where
  nesting_ge : start.nesting + levels fs ≤ p.nesting
  nesting_le : p.nesting ≤ max (start.nesting + 1) start.limit
  levels_lt : levels fs = 0 ∨ start.nesting + levels fs < start.limit
  entered_le : start.cursor + p.nesting ≤ start.nesting + p.cursor + given

/-- What holds at every moment of a parse. -/
def Moment.Sound (start : Parser) (given : Nat) (m : Moment) : Prop :=
  match m with
  | .begins t fs p => t.Under fs ∧ Counts start given fs m.openings p
  | .yields _ fs p =>
    (∃ phase, Alternating phase fs) ∧ Counts start given fs (Grammar.openings fs) p
  | .fails _ fs p => (∃ phase, Alternating phase fs) ∧ Overcounts start given fs p

section Step

variable {start p : Parser} {given : Nat} {fs : List Frame}

/-- Of what a parse waits for, only levels and openings count. -/
theorem Counts.congr {fs' : List Frame} {opened opened' : Nat} (h : Counts start given fs opened p)
    (hlevels : levels fs' = levels fs) (hopened : opened' ≤ opened) :
    Counts start given fs' opened' p where
  limit_eq := h.limit_eq
  nesting_eq := by rw [hlevels]; exact h.nesting_eq
  levels_lt := by rw [hlevels]; exact h.levels_lt
  opened_le := by have hle := h.opened_le; omega

theorem Counts.record {opened : Nat} (h : Counts start given fs opened p) (event : Event) :
    Counts start given fs opened (p.record event) :=
  ⟨h.limit_eq, h.nesting_eq, h.levels_lt, h.opened_le⟩

/-- A token that is consumed may open something. -/
theorem Counts.advance {opened : Nat} (h : Counts start given fs opened p) (hend : p.atEnd = false) :
    Counts start given fs (opened + 1) p.advance where
  limit_eq := (limit_advance p).trans h.limit_eq
  nesting_eq := (nesting_advance p).trans h.nesting_eq
  levels_lt := h.levels_lt
  opened_le := by
    have hle := h.opened_le
    rw [cursor_advance hend]
    omega

/-- A level that fits is counted, and waits to be left. -/
theorem Counts.deeper {opened : Nat} (h : Counts start given fs opened p)
    (hfits : p.nesting + 1 < p.limit) : Counts start given (.leave :: fs) opened p.deeper where
  limit_eq := h.limit_eq
  nesting_eq := congrArg (· + 1) h.nesting_eq
  levels_lt := by
    have hnesting := h.nesting_eq
    rw [h.limit_eq] at hfits
    exact Or.inr (show start.nesting + (levels fs + 1) < start.limit by omega)
  opened_le := h.opened_le

/-- A level that is left is counted no more. -/
theorem Counts.shallower {opened : Nat} (h : Counts start given (.leave :: fs) opened p) :
    Counts start given fs opened p.shallower where
  limit_eq := h.limit_eq
  nesting_eq := by
    have hnesting : p.nesting = start.nesting + (levels fs + 1) := h.nesting_eq
    exact show p.nesting - 1 = start.nesting + levels fs by omega
  levels_lt := by
    have hlt : levels fs + 1 = 0 ∨ start.nesting + (levels fs + 1) < start.limit := h.levels_lt
    exact Or.inr (by omega)
  opened_le := h.opened_le

/-- Where a parse fails, the counter is left as it is. -/
theorem Counts.overcounts {opened : Nat} (h : Counts start given fs opened p)
    (hlevels : levels fs ≤ opened) : Overcounts start given fs p := by
  have hnesting := h.nesting_eq
  have hlt := h.levels_lt
  have hle := h.opened_le
  exact ⟨by omega, by omega, hlt, by omega⟩

/-- A level that is one too many is counted, though nobody waits to leave it. -/
theorem Counts.overcounts_deeper {opened : Nat} (h : Counts start given fs opened p)
    (hlevels : levels fs < opened) : Overcounts start given fs p.deeper := by
  have hnesting : p.deeper.nesting = start.nesting + levels fs + 1 :=
    congrArg (· + 1) h.nesting_eq
  have hcursor : p.deeper.cursor = p.cursor := rfl
  have hlt := h.levels_lt
  have hle := h.opened_le
  exact ⟨by omega, by omega, hlt, by omega⟩

theorem levels_le_tail (f : Frame) (fs : List Frame) : levels fs ≤ levels (f :: fs) := by
  cases f with
  | leave => exact Nat.le_succ _
  | _ => exact Nat.le_refl _

/-- A procedure that gives up leaves the counter as it is. -/
theorem Overcounts.tail {f : Frame} (h : Overcounts start given (f :: fs) p) :
    Overcounts start given fs p := by
  have hle := levels_le_tail f fs
  have hge := h.nesting_ge
  have hlt := h.levels_lt
  exact ⟨by omega, h.nesting_le, by omega, h.entered_le⟩

/-- A tree that is checked comes out at the moment, or is at fault there. -/
theorem sound_bounded {e : Expr} {pos : Position} {r : Outcome} {phase : Phase} {opened : Nat}
    (hr : bounded e pos p = r) (halt : Alternating phase fs)
    (hcounts : Counts start given fs opened p) (hopened : openings fs ≤ opened) :
    (Moment.ended fs r).Sound start given := by
  have hcounts' := hcounts.congr (rfl : levels fs = levels fs) hopened
  unfold bounded at hr
  split at hr
  · subst hr
    exact ⟨⟨_, halt⟩, hcounts'.overcounts halt.levels_le⟩
  · subst hr
    exact ⟨⟨_, halt⟩, hcounts'⟩

/-- No operand of a tier opens anything by beginning. -/
theorem openings_begins_operand (tier : Tier) (fs : List Frame) (p : Parser) :
    (Moment.begins tier.operand fs p).openings = openings fs := by
  cases tier <;> rfl

/-- A parse that goes on has opened what it waits to leave, so it may fail. -/
theorem sound_fails {fault : Fault} {phase : Phase} {opened : Nat} (halt : Alternating phase fs)
    (hcounts : Counts start given fs opened p) (hopened : openings fs ≤ opened) :
    (Moment.fails fault fs p).Sound start given :=
  ⟨⟨_, halt⟩, hcounts.overcounts (Nat.le_trans halt.levels_le hopened)⟩

/-- Whatever step is taken at a sound moment, the next moment is sound. -/
theorem Step.sound {m m' : Moment} (h : Step m m') (hm : m.Sound start given) :
    m'.Sound start given := by
  -- One case for each step. A step hands the work on, opens something with a token, or answers the
  -- innermost of the procedures that wait; how these alternate tells which phase is below it.
  cases h with
  | expression => exact ⟨hm.1, hm.2.record _⟩
  | level =>
    refine ⟨under_operand (.first hm.1), ?_⟩
    rw [openings_begins_operand]
    exact (hm.2.record _).congr rfl (Nat.le_refl _)
  | first =>
    -- the operand is answered, and its level goes on as a loop
    obtain ⟨⟨_, halt⟩, hcounts⟩ := hm
    cases halt with
    | first halt => exact ⟨halt, hcounts.congr rfl (Nat.le_refl _)⟩
  | loopEnds _ => exact ⟨⟨_, hm.1⟩, hm.2⟩
  | loopTurns hoff =>
    -- the operator was consumed, but it opens no level
    refine ⟨under_operand (.right hm.1), ?_⟩
    rw [openings_begins_operand]
    exact (hm.2.advance (atEnd_of_offers hoff)).congr rfl (Nat.le_succ _)
  | right _ =>
    obtain ⟨⟨_, halt⟩, hcounts⟩ := hm
    cases halt with
    | right halt => exact ⟨halt, hcounts.congr rfl (Nat.le_refl _)⟩
  | rightTooDeep _ =>
    -- nothing is pending at a right operand, so there are as many openings as levels
    obtain ⟨⟨_, halt⟩, hcounts⟩ := hm
    cases halt with
    | right halt => exact sound_fails halt (hcounts.congr rfl (Nat.le_refl _)) (Nat.le_refl _)
  | enters hfits =>
    -- the level that is entered belongs to the opening that was pending
    obtain ⟨⟨halt, htask⟩, hcounts⟩ := hm
    rcases htask with rfl | rfl
    · exact ⟨.leave halt, hcounts.deeper hfits⟩
    · exact ⟨.leave halt, hcounts.deeper hfits⟩
  | tooNested _ =>
    -- the level belongs to what was opened last
    obtain ⟨⟨halt, -⟩, hcounts⟩ := hm
    exact ⟨⟨_, halt⟩, hcounts.overcounts_deeper (Nat.le_of_eq halt.openings_eq.symm)⟩
  | leaves =>
    -- the tree is handed out of its level, for which whoever opened it still waits
    obtain ⟨⟨_, halt⟩, hcounts⟩ := hm
    cases halt with
    | leave halt => exact ⟨⟨_, halt⟩, hcounts.shallower⟩
  | prefixed hoff =>
    -- the operator is open from now on, and one more token has been consumed
    exact ⟨⟨.prefixed hm.1, Or.inl rfl⟩,
      (hm.2.advance (atEnd_of_offers hoff)).congr rfl (Nat.le_refl _)⟩
  | unprefixed _ => exact ⟨.plain hm.1, hm.2.congr rfl (Nat.le_refl _)⟩
  | plain =>
    obtain ⟨⟨_, halt⟩, hcounts⟩ := hm
    cases halt with
    | plain halt => exact ⟨⟨_, halt⟩, hcounts.congr rfl (Nat.le_refl _)⟩
  | operand hr =>
    -- with its operand, the operator is open no more
    obtain ⟨⟨_, halt⟩, hcounts⟩ := hm
    cases halt with
    | prefixed halt =>
      exact sound_bounded hr halt (hcounts.congr rfl (Nat.le_refl _)) (Nat.le_succ _)
  | literal hoff _ =>
    exact ⟨⟨_, hm.1⟩, (hm.2.advance (atEnd_of_offers hoff)).congr rfl (Nat.le_succ _)⟩
  | badLiteral hoff _ =>
    exact sound_fails hm.1 (hm.2.advance (atEnd_of_offers hoff)) (Nat.le_succ _)
  | opened _ hopen => exact ⟨hm.1, hm.2.advance (atEnd_of_offers hopen)⟩
  | missing _ _ => exact sound_fails hm.1 hm.2 (Nat.le_refl _)
  | grouping => exact ⟨⟨.opened hm.1, Or.inr rfl⟩, hm.2.congr rfl (Nat.le_refl _)⟩
  | closed hclose hr =>
    -- the closing parenthesis is one token more, and what it closes is open no more
    obtain ⟨⟨_, halt⟩, hcounts⟩ := hm
    cases halt with
    | opened halt =>
      have hclosed := hcounts.advance (check_eq_true_iff.mp hclose).1
      exact sound_bounded hr halt (hclosed.congr rfl (Nat.le_refl _)) (Nat.le_add_right _ 2)
  | unclosed _ =>
    obtain ⟨⟨_, halt⟩, hcounts⟩ := hm
    cases halt with
    | opened halt => exact sound_fails halt (hcounts.congr rfl (Nat.le_refl _)) (Nat.le_succ _)
  | unwinds =>
    -- on the way out of a fault no level is left, and the counter stays as it is
    obtain ⟨⟨_, halt⟩, hover⟩ := hm
    exact ⟨halt.tail, hover.tail⟩

/-- What every step keeps holds at every moment of a parse. -/
theorem Steps.sound {m m' : Moment} (h : Steps m m') (hm : m.Sound start given) :
    m'.Sound start given := by
  induction h with
  | refl => exact hm
  | tail _ hstep ih => exact hstep.sound ih

end Step

/-! ## What follows for the counter -/

section Sound

variable {start : Parser} {given : Nat} {m : Moment}

namespace Moment

/-- At no moment has the counter grown by more than the levels below the limit, or by one. -/
theorem Sound.nesting_le (h : m.Sound start given) :
    m.parser.nesting ≤ max (start.nesting + 1) start.limit := by
  have going {fs : List Frame} {opened : Nat} {p : Parser} (hc : Counts start given fs opened p) :
      p.nesting ≤ max (start.nesting + 1) start.limit := by
    have hnesting := hc.nesting_eq
    have hlt := hc.levels_lt
    omega
  -- while the parse goes on, the counter is made of the levels, and afterwards it stays
  cases m with
  | begins t fs p => exact going h.2
  | yields e fs p => exact going h.2
  | fails fault fs p => exact h.2.nesting_le

/-- The levels that wait to be left were all entered below the limit. -/
theorem Sound.levels_lt (h : m.Sound start given) :
    levels m.frames = 0 ∨ start.nesting + levels m.frames < start.limit := by
  cases m with
  | begins t fs p => exact h.2.levels_lt
  | yields e fs p => exact h.2.levels_lt
  | fails fault fs p => exact h.2.levels_lt

/-- At most one of what is open has not entered its level, or has left it. -/
theorem Sound.openings_le (h : m.Sound start given) : m.openings ≤ levels m.frames + 1 := by
  cases m with
  | begins t fs p =>
    -- a grouping has its parenthesis open already, though it waits for nothing yet
    cases t with
    | grouping opening => exact Nat.succ_le_succ (Nat.le_of_eq (Alternating.openings_eq h.1))
    | _ =>
      obtain ⟨_, halt⟩ := h.1.exists_alternating
      exact halt.openings_le
  | yields e fs p =>
    obtain ⟨⟨_, halt⟩, -⟩ := h
    exact halt.openings_le
  | fails fault fs p =>
    obtain ⟨⟨_, halt⟩, -⟩ := h
    exact halt.openings_le

/-- At most one unary expression is being read for every level, and one before the first. -/
theorem Sound.unaries_le (h : m.Sound start given) : m.unaries ≤ levels m.frames + 1 := by
  cases m with
  | begins t fs p =>
    -- a unary expression counts from its beginning, where an operand was waited for
    cases t with
    | unary => exact Nat.succ_le_succ (Alternating.unaries_le h.1)
    | _ =>
      obtain ⟨_, halt⟩ := h.1.exists_alternating
      exact halt.unaries_le_succ
  | yields e fs p =>
    obtain ⟨⟨_, halt⟩, -⟩ := h
    exact halt.unaries_le_succ
  | fails fault fs p =>
    obtain ⟨⟨_, halt⟩, -⟩ := h
    exact halt.unaries_le_succ

end Moment

end Sound

/-! ## Procedures that a caller starts -/

/-- What a caller has opened for a procedure: the parenthesis of a grouping. -/
def Procedure.given : Procedure → Nat
  | .grouping _ => 1
  | _ => 0

/-- The first moment of a procedure. -/
def Procedure.begins (f : Procedure) (p : Parser) : Moment :=
  .begins f.task [] p

/-- How the counter of a procedure ends: where it was, or at most at the limit. -/
structure Procedure.Balanced (f : Procedure) (p : Parser) : Prop where
  nesting_eq : ∀ e q, f.parse p = .ok e q → q.nesting = p.nesting
  nesting_ge : ∀ fault q, f.parse p = .error fault q → p.nesting ≤ q.nesting
  nesting_le : ∀ fault q, f.parse p = .error fault q → q.nesting ≤ max (p.nesting + 1) p.limit
  /-- Every level was entered for a token. -/
  entered_le : ∀ fault q, f.parse p = .error fault q →
    q.nesting - p.nesting ≤ q.cursor - p.cursor + f.given

/-- Before a procedure has done anything, nothing is out of balance. -/
theorem Procedure.sound_begins (f : Procedure) (p : Parser) : (f.begins p).Sound p f.given := by
  cases f with
  | grouping opening => exact ⟨.nilPrimary, rfl, rfl, Or.inl rfl, Nat.le_refl _⟩
  | primary => exact ⟨.nilPrimary, rfl, rfl, Or.inl rfl, Nat.le_refl _⟩
  -- all the others read an operand, and nobody waits for it yet
  | _ => exact ⟨.nil, rfl, rfl, Or.inl rfl, Nat.le_refl _⟩

/-- A procedure gets from its first moment to what it comes to. -/
theorem Procedure.steps_ended (f : Procedure) (p : Parser) :
    Steps (f.begins p) (.ended [] (f.parse p)) :=
  (f.run_parse p).steps []

/-- Every procedure leaves the counter balanced, whatever parser it is started with. -/
theorem Procedure.balanced (f : Procedure) (p : Parser) : f.Balanced p := by
  -- the last moment is sound, with nobody waiting for anything any more
  have hended := (f.steps_ended p).sound (f.sound_begins p)
  have hfailed {fault : Fault} {q : Parser} (h : f.parse p = .error fault q) :
      Overcounts p f.given [] q := by
    rw [h] at hended
    exact hended.2
  refine ⟨fun e q h => ?_, fun fault q h => ?_, fun fault q h => ?_, fun fault q h => ?_⟩
  · rw [h] at hended
    exact hended.2.nesting_eq
  · exact (hfailed h).nesting_ge
  · exact (hfailed h).nesting_le
  · have hle := (hfailed h).entered_le
    have hge := (hfailed h).nesting_ge
    omega

/-- What is open at any moment of a procedure stays at the limit, as the counter does. -/
theorem Procedure.open_le {f : Procedure} {p : Parser} {m : Moment} (h : Steps (f.begins p) m) :
    m.parser.nesting ≤ max (p.nesting + 1) p.limit ∧
      p.nesting + m.openings ≤ max (p.nesting + 1) p.limit ∧
      p.nesting + m.unaries ≤ max (p.nesting + 1) p.limit := by
  have hsound := h.sound (f.sound_begins p)
  have hlt := hsound.levels_lt
  have hopenings := hsound.openings_le
  have hunaries := hsound.unaries_le
  exact ⟨hsound.nesting_le, by omega, by omega⟩

/-- Of the end of input that must follow, nothing is counted. -/
theorem Outcome.nesting_conclude (r : Outcome) :
    (parser (conclude r)).nesting = (parser r).nesting := by
  cases r with
  | error fault q => rfl
  | ok e q =>
    rw [conclude]
    split <;> rfl

/--
How the counter of a whole parse goes: never above the limit, and back to zero for a tree.

What is open at a moment is counted in two ways. `openings` counts the activations that the counter
is for: the prefix operators and the parentheses that have been consumed, and whose operand or
content is not complete. A unary expression without an operator opens nothing, so it is not among
them, and the counter does not know it either. `unaries` counts the unary expressions that are being
read, with an operator or without; of those there is at most one more than there are levels.
-/
structure StaysBounded (tokens : Array Token) (limit : Nat) : Prop where
  /-- All moments of a parse lead to its outcome. -/
  ends : ∃ r, parse tokens limit = Outcome.conclude r ∧
    ∀ m, Steps (Procedure.expression.begins (ofTokens tokens limit)) m → Steps m (.ended [] r)
  nesting_le : ∀ m, Steps (Procedure.expression.begins (ofTokens tokens limit)) m →
    m.parser.nesting ≤ max limit 1
  /-- Prefix operators and parentheses, taken together, are never open beyond the limit. -/
  openings_le : ∀ m, Steps (Procedure.expression.begins (ofTokens tokens limit)) m →
    m.openings ≤ max limit 1
  /-- Nor are unary expressions, and here those without an operator count, too. -/
  unaries_le : ∀ m, Steps (Procedure.expression.begins (ofTokens tokens limit)) m →
    m.unaries ≤ max limit 1
  nesting_eq_zero : ∀ e q, parse tokens limit = .ok e q → q.nesting = 0
  nesting_le_of_error : ∀ fault q, parse tokens limit = .error fault q → q.nesting ≤ max limit 1

/-- Every parse keeps its counter within the bounds, at every moment of it. -/
theorem staysBounded (tokens : Array Token) (limit : Nat) : StaysBounded tokens limit := by
  have hends := Procedure.expression.steps_ended (ofTokens tokens limit)
  have hparse : parse tokens limit =
      Outcome.conclude (Procedure.expression.parse (ofTokens tokens limit)) :=
    parse_of_run (Procedure.expression.run_parse (ofTokens tokens limit))
  -- at every moment the levels are those below the limit, and one opening may be pending
  have hopen {m : Moment} (h : Steps (Procedure.expression.begins (ofTokens tokens limit)) m) :
      m.parser.nesting ≤ max limit 1 ∧ m.openings ≤ max limit 1 ∧ m.unaries ≤ max limit 1 := by
    have hle := Procedure.open_le h
    rw [nesting_ofTokens, limit_ofTokens] at hle
    omega
  -- the check for the end of input leaves the counter alone
  have hnesting : (Outcome.parser (parse tokens limit)).nesting =
      (Outcome.parser (Procedure.expression.parse (ofTokens tokens limit))).nesting := by
    rw [hparse, Outcome.nesting_conclude]
  refine ⟨⟨_, hparse, fun m h => h.onto_end hends⟩, fun m h => (hopen h).1,
    fun m h => (hopen h).2.1, fun m h => (hopen h).2.2, fun e q h => ?_, fun fault q h => ?_⟩
  · rw [h] at hnesting
    cases hres : Procedure.expression.parse (ofTokens tokens limit) with
    | ok e' q' =>
      rw [hres] at hnesting
      have hbalanced := (Procedure.expression.balanced _).nesting_eq e' q' hres
      rw [nesting_ofTokens] at hbalanced
      exact hnesting.trans hbalanced
    | error fault q' =>
      rw [hparse, hres] at h
      cases h
  · rw [h] at hnesting
    have hle := (hopen hends).1
    rw [Moment.parser_ended, ← hnesting] at hle
    exact hle

end Grammar

/--
**The counter is balanced, and bounded.** Whatever procedure is started at whatever parser, the
counter is back where it was if a tree comes out. If it fails, the counter has not fallen, it has
risen to the limit at most, or by one, and it has risen by no more than the tokens that were
consumed and the parenthesis that the caller had seen. So in the course of a whole parse it never
exceeds the limit, or one, and neither do the open operators and parentheses, nor the unary
expressions that are being read; with a tree it is back at zero.
-/
theorem nesting_balanced :
    (∀ (f : Grammar.Procedure) (p : Parser), f.Balanced p) ∧
      ∀ (tokens : Array Token) (limit : Nat), Grammar.StaysBounded tokens limit :=
  ⟨fun f p => f.balanced p, Grammar.staysBounded⟩

/-- The tokens of `((nil`. -/
def twiceOpened : Array Token := #[
  ⟨.openParen, "(", none, ⟨⟨0, "t"⟩, ⟨1, "t"⟩⟩⟩, ⟨.openParen, "(", none, ⟨⟨1, "t"⟩, ⟨2, "t"⟩⟩⟩,
  ⟨.kwNil, "nil", none, ⟨⟨2, "t"⟩, ⟨5, "t"⟩⟩⟩]

/-- Behind the second parenthesis both are open, and there is a level for the first one only. -/
theorem steps_twiceOpened :
    ∃ m, Grammar.Steps (Grammar.Procedure.expression.begins (ofTokens twiceOpened 2)) m ∧
      m.openings = 2 ∧ m.unaries = 2 ∧ m.parser.nesting = 1 := by
  -- down to the first parenthesis, into its level, and down to the second
  refine ⟨_, (Grammar.steps_unary _ _).trans (.head (.unprefixed rfl) (.head (.opened rfl rfl)
    (.head .grouping (.head (.enters (by decide)) ((Grammar.steps_unary _ _).trans
      (.head (.unprefixed rfl) (.single (.opened rfl rfl)))))))), ?_⟩
  decide

/--
Two levels are one too many for a limit of two. Both parentheses are open when the parse comes to
the second, which is as many as the limit allows; the counter stays at the limit when the parse has
failed.
-/
theorem nesting_balanced_at_limit :
    (∃ m, Grammar.Steps (Grammar.Procedure.expression.begins (ofTokens twiceOpened 2)) m ∧
      m.openings = 2 ∧ m.openings ≤ max 2 1 ∧ m.unaries = 2 ∧ m.unaries ≤ max 2 1 ∧
      m.parser.nesting ≤ max 2 1) ∧
    ∃ fault q, parse twiceOpened 2 = .error fault q ∧ q.nesting = 2 ∧ q.nesting ≤ max 2 1 := by
  have hbounded := nesting_balanced.2 twiceOpened 2
  obtain ⟨m, hsteps, hopenings, hunaries, -⟩ := steps_twiceOpened
  exact ⟨⟨m, hsteps, hopenings, hbounded.openings_le m hsteps, hunaries,
      hbounded.unaries_le m hsteps, hbounded.nesting_le m hsteps⟩,
    _, _, rfl, rfl, hbounded.nesting_le_of_error _ _ rfl⟩

end LoxExpr
