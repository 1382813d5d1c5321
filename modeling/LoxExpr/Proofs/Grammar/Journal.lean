import LoxExpr.Proofs.Grammar.Moment

/-!
# The log of a parse

A parser notes every rule that it begins and every token that it consumes. This module says what the
notes of a run look like.

* The consumed tokens are those up to the cursor, each once and in order. Every single thing that a
  procedure does to its parser keeps that (`Parser.Move.recorded`), so it holds of every run.
* The rules come in descents. Behind a consumed token the log may have one descent, from any of the
  rules down to the tightest tier, and nothing else before the next token (`Trail`). A run appends
  such a trail, with a descent in front of it where it has to begin with a rule (`Run.tells`).
* How often each rule is begun can be read off the tree that comes out: once at the beginning, once
  for every grouping, and once for every operator that is looser than the rule (`Run.tally`).
-/

namespace LoxExpr

open LoxExpr.Parser

namespace Event

/-- The token that was consumed, and where it stands. -/
def consumed? : Event → Option (Token × Nat)
  | .consumed token cursor => some (token, cursor)
  | _ => none

/-- Is this the beginning of a rule? -/
def isEntry : Event → Bool
  | .entered _ _ => true
  | _ => false

/-- Is this the beginning of the rule? -/
def isEntryOf (rule : Rule) : Event → Bool
  | .entered rule' _ => rule' = rule
  | _ => false

end Event

/-! ## The tokens that were consumed -/

/-- The log has consumed the tokens up to the cursor, each where it stands, and no others. -/
def Parser.Recorded (p : Parser) : Prop :=
  p.log.toList.filterMap Event.consumed? = p.tokens.toList.zipIdx.take p.cursor

namespace Parser

variable {p q : Parser}

/-- A token that is consumed is written down behind those in front of it. -/
theorem Recorded.advance (h : p.Recorded) (hend : p.atEnd = false) : p.advance.Recorded := by
  -- the record that is added shows the token under the cursor, which is the next to be listed
  have hcurrent : p.tokens.toList.zipIdx[p.cursor]? = some (p.current, p.cursor) := by
    have htoken : p.tokens.toList[p.cursor]? = some p.current := by
      rw [Array.getElem?_toList]
      exact Array.getElem?_eq_getElem p.cursor_lt
    rw [List.getElem?_zipIdx, htoken]
    simp
  have hlog : p.advance.log.toList = p.log.toList ++ [.consumed p.current p.cursor] := by
    rw [log_advance]
    exact Array.toList_push ..
  rw [Recorded, hlog, tokens_advance, cursor_advance hend, List.take_add_one, hcurrent,
    List.filterMap_append, h]
  rfl

/-- The beginning of a rule is no consumed token. -/
theorem Recorded.record_entered (h : p.Recorded) (rule : Rule) :
    (p.record (.entered rule p.cursor)).Recorded := by
  have hlog : (p.record (.entered rule p.cursor)).log.toList =
      p.log.toList ++ [.entered rule p.cursor] := Array.toList_push ..
  rw [Recorded, hlog, List.filterMap_append, h]
  exact List.append_nil _

/-- Whatever a step does to the parser, the consumed tokens stay recorded. -/
theorem Move.recorded (h : p.Move q) (hp : p.Recorded) : q.Recorded := by
  cases h with
  | stay => exact hp
  | enter rule => exact hp.record_entered rule
  | consume hend => exact hp.advance hend
  | deeper => exact hp
  | shallower => exact hp

end Parser

namespace Grammar

/-- What every single thing that a procedure does keeps, a parse keeps. -/
theorem Steps.keeps {P : Parser → Prop} (hP : ∀ p q : Parser, p.Move q → P p → P q)
    {m m' : Moment} (h : Steps m m') (hm : P m.parser) : P m'.parser := by
  induction h with
  | refl => exact hm
  | tail _ hstep ih => exact hP _ _ hstep.move ih

/-- However a task ends, its log has consumed the tokens up to the cursor. -/
theorem Run.recorded {t : Task} {p : Parser} {r : Outcome} (h : Run t p r) (hp : p.Recorded) :
    (Outcome.parser r).Recorded := by
  have hended := (h.steps []).keeps (fun _ _ hmove => hmove.recorded) hp
  rwa [Moment.parser_ended] at hended

/-! ## The rules that were begun -/

/-- The rules from a rule down to the tightest tier, as far as their beginning is noted. -/
def onwards (rule : Rule) : List Rule :=
  [.expression, .equality, .comparison, .term, .factor].filter (rule.rank ≤ ·.rank)

/-- The beginnings of the rules from a rule down to the tightest tier, all at one cursor. -/
def descent (rule : Rule) (cursor : Nat) : List Event :=
  (onwards rule).map (.entered · cursor)

/--
The events of a run from one cursor to another: the tokens between them are consumed one by one, and
behind a token there may be a descent.
-/
inductive Trail : Nat → List Event → Nat → Prop where
  | nil {c : Nat} : Trail c [] c
  | consumed {token : Token} {c d : Nat} {es : List Event} (h : Trail (c + 1) es d) :
      Trail c (.consumed token c :: es) d
  | led {token : Token} {rule : Rule} {c d : Nat} {es : List Event}
      (h : Trail (c + 1) es d) :
      Trail c (.consumed token c :: (descent rule (c + 1) ++ es)) d

/-- A trail with a descent in front of it. -/
def Led (rule : Rule) (c : Nat) (es : List Event) (d : Nat) : Prop :=
  ∃ rest, es = descent rule c ++ rest ∧ Trail c rest d

/-- The events of a task. What enters a level of nesting has none if there is no room for it. -/
def Task.Tells : Task → Nat → List Event → Nat → Prop
  | .expression, c, es, d => Led .expression c es d
  | .level tier, c, es, d => Led tier.rule c es d
  | .nested t, c, es, d => Trail c es d ∨ t.Tells c es d
  | .grouping _, c, es, d => Trail c es d ∨ Led .expression c es d
  | _, c, es, d => Trail c es d

section Trail

variable {c d d' : Nat} {es es' : List Event}

/-- Trails that follow one another are one trail. -/
theorem Trail.append (h : Trail c es d) (h' : Trail d es' d') : Trail c (es ++ es') d' := by
  induction h with
  | nil => exact h'
  | consumed _ ih => exact .consumed (ih h')
  | led _ ih =>
    rw [List.cons_append, List.append_assoc]
    exact .led (ih h')

/-- A descent stays in front, however long the trail behind it gets. -/
theorem Led.append {rule : Rule} (h : Led rule c es d) (h' : Trail d es' d') :
    Led rule c (es ++ es') d' := by
  obtain ⟨rest, rfl, htrail⟩ := h
  exact ⟨rest ++ es', List.append_assoc .., htrail.append h'⟩

/-- A descent behind a consumed token is part of a trail. -/
theorem Led.consumed {rule : Rule} {token : Token} (h : Led rule (c + 1) es d) :
    Trail c (.consumed token c :: es) d := by
  obtain ⟨rest, rfl, htrail⟩ := h
  exact .led htrail

/-- What a task tells may be followed by any trail from where it ends. -/
theorem Task.Tells.append {t : Task} (h : t.Tells c es d) (h' : Trail d es' d') :
    t.Tells c (es ++ es') d' := by
  induction t generalizing c d with
  | nested t ih => exact h.imp (·.append h') (ih · h')
  | grouping opening => exact h.imp (·.append h') (·.append h')
  | expression => exact Led.append h h'
  | level tier => exact Led.append h h'
  | loop tier left => exact Trail.append h h'
  | unary => exact Trail.append h h'
  | primary => exact Trail.append h h'

/-- A tier begins with its own rule, and then goes on to its operand. -/
theorem Task.Tells.entered {tier : Tier} (h : tier.operand.Tells c es d) :
    Led tier.rule c (.entered tier.rule c :: es) d := by
  cases tier with
  | factor => exact ⟨es, rfl, h⟩
  | equality | comparison | term =>
    obtain ⟨rest, rfl, htrail⟩ := h
    exact ⟨rest, rfl, htrail⟩

/--
Behind an operator, the operand descends from the next tighter rule, or is a unary expression.
-/
theorem Task.Tells.consumed {tier : Tier} {token : Token} (h : tier.operand.Tells (c + 1) es d) :
    Trail c (.consumed token c :: es) d := by
  cases tier with
  | factor => exact .consumed h
  | equality | comparison | term => exact Led.consumed h

end Trail

/-- Between two parsers the log has grown by events of a kind. -/
def Adds (T : Nat → List Event → Nat → Prop) (p q : Parser) : Prop :=
  ∃ es, q.log.toList = p.log.toList ++ es ∧ T p.cursor es q.cursor

section Adds

variable {T T' : Nat → List Event → Nat → Prop} {p q q' : Parser}

/-- Events of one kind are events of every wider kind. -/
theorem Adds.imp (h : Adds T p q) (hT : ∀ c es d, T c es d → T' c es d) : Adds T' p q := by
  obtain ⟨es, hlog, hes⟩ := h
  exact ⟨es, hlog, hT _ _ _ hes⟩

theorem adds_refl (p : Parser) : Adds Trail p p :=
  ⟨[], (List.append_nil _).symm, .nil⟩

/-- What a task adds and the trail behind it are added together. -/
theorem Adds.append {t : Task} (h : Adds t.Tells p q) (h' : Adds Trail q q') :
    Adds t.Tells p q' := by
  obtain ⟨es, hlog, hes⟩ := h
  obtain ⟨es', hlog', hes'⟩ := h'
  exact ⟨es ++ es', by rw [hlog', hlog, List.append_assoc], hes.append hes'⟩

/-- An event that is noted first is in front of what is added later. -/
theorem Adds.record {event : Event} (h : Adds T (p.record event) q)
    (hT : ∀ es d, T p.cursor es d → T' p.cursor (event :: es) d) : Adds T' p q := by
  obtain ⟨es, hlog, hes⟩ := h
  have hrecord : (p.record event).log.toList = p.log.toList ++ [event] := Array.toList_push ..
  rw [hrecord, List.append_assoc] at hlog
  exact ⟨event :: es, hlog, hT _ _ hes⟩

/-- A token that is consumed first is in front of what is added later. -/
theorem Adds.advance (h : Adds T p.advance q) (hend : p.atEnd = false)
    (hT : ∀ es d, T (p.cursor + 1) es d → T' p.cursor (.consumed p.current p.cursor :: es) d) :
    Adds T' p q := by
  obtain ⟨es, hlog, hes⟩ := h
  rw [log_advance, Array.toList_push, List.append_assoc] at hlog
  rw [cursor_advance hend] at hes
  exact ⟨_, hlog, hT _ _ hes⟩

end Adds

/-- What a run adds to the log. -/
theorem Run.tells {t : Task} {p : Parser} {r : Outcome} (h : Run t p r) :
    Adds t.Tells p (Outcome.parser r) := by
  -- The induction is on the run: its own events are put in front of what its parts add, and only
  -- one descent comes between two tokens.
  induction h with
  | expression _ ih =>
    refine ih.record ?_
    rintro es d ⟨rest, rfl, htrail⟩
    exact ⟨rest, rfl, htrail⟩
  | levelFails _ ih => exact ih.record fun _ _ => Task.Tells.entered
  | level _ _ ihFirst ihRest =>
    -- the rule of the level heads the descent of its operand, and the loop only adds a trail
    exact Adds.append (t := .level _) (ihFirst.record fun _ _ => Task.Tells.entered) ihRest
  | loopEnds _ => exact adds_refl _
  | loopFails hoff _ ih => exact ih.advance (atEnd_of_offers hoff) fun _ _ => Task.Tells.consumed
  | loopTooDeep hoff _ _ ih =>
    exact ih.advance (atEnd_of_offers hoff) fun _ _ => Task.Tells.consumed
  | @loopTurns tier _ _ left _ _ hoff _ _ _ ih ihRest =>
    -- the operator is consumed, and the operand behind it is led by a descent of its own
    exact Adds.append (t := .loop tier left)
      (ih.advance (atEnd_of_offers hoff) fun _ _ => Task.Tells.consumed) ihRest
  | tooNested _ => exact (adds_refl _).imp fun _ _ _ htrail => Or.inl htrail
  | nestedFails _ _ ih => exact Adds.imp ih fun _ _ _ htells => Or.inr htells
  | nested _ _ ih => exact Adds.imp ih fun _ _ _ htells => Or.inr htells
  | prefixFails hoff _ ih =>
    -- where there is no room for the operand, it adds nothing
    exact ih.advance (atEnd_of_offers hoff) fun _ _ htells =>
      htells.elim Trail.consumed Trail.consumed
  | prefixed hoff _ hr ih =>
    rw [parser_bounded hr]
    exact ih.advance (atEnd_of_offers hoff) fun _ _ htells =>
      htells.elim Trail.consumed Trail.consumed
  | unprefixed _ _ ih => exact ih
  | literal hoff _ => exact (adds_refl _).advance (atEnd_of_offers hoff) fun _ _ => Trail.consumed
  | badLiteral hoff _ =>
    exact (adds_refl _).advance (atEnd_of_offers hoff) fun _ _ => Trail.consumed
  | opened _ hopen _ ih =>
    exact ih.advance (atEnd_of_offers hopen) fun _ _ htells =>
      htells.elim Trail.consumed Led.consumed
  | missing _ _ => exact adds_refl _
  | groupingFails _ ih => exact ih
  | unclosed _ _ ih => exact ih
  | @closed opening _ q _ _ _ hclose hr ih =>
    rw [parser_bounded hr]
    have hclosing : Adds Trail q q.advance :=
      (adds_refl _).advance (check_eq_true_iff.mp hclose).1 fun _ _ => Trail.consumed
    exact Adds.append (t := .nested .expression) ih hclosing

/-! ### What a trail looks like -/

/-- Every expression that is begun goes straight down to the tightest tier. -/
def Descends (es : List Event) : Prop :=
  ∀ before c after, es = before ++ .entered .expression c :: after → descent .equality c <+: after

/-- Where two lists of events descend as they should, so do they in a row. -/
theorem Descends.append {es es' : List Event} (h : Descends es) (h' : Descends es') :
    Descends (es ++ es') := by
  intro before c after hsplit
  -- the expression begins in one of the two lists, and if in the first, it also goes down there
  rcases List.append_eq_append_iff.mp hsplit with ⟨between, rfl, hes'⟩ | ⟨between, hes, hafter⟩
  · exact h' between c after hes'
  · cases between with
    | nil => exact h' [] c after hafter.symm
    | cons event between =>
      rw [List.cons_append, List.cons.injEq] at hafter
      obtain ⟨rfl, rfl⟩ := hafter
      exact (h before c between hes).trans (List.prefix_append ..)

/-- Events that begin no expression have none to go down from. -/
theorem descends_of_forall_ne {es : List Event} (h : ∀ c, .entered .expression c ∉ es) :
    Descends es := by
  rintro before c after rfl
  exact absurd (by simp) (h c)

/-- A descent goes down by definition, and begins an expression only at its top. -/
theorem descends_descent (rule : Rule) (c : Nat) : Descends (descent rule c) := by
  by_cases hrule : rule = .expression
  · subst hrule
    show Descends ([.entered .expression c] ++ descent .equality c)
    intro before c' after hsplit
    -- the descent begins its expression first, and every rule only once
    cases before with
    | nil =>
      cases hsplit
      exact List.prefix_refl _
    | cons event before =>
      refine descends_of_forall_ne ?_ before c' after (List.cons.inj hsplit).2
      simp [descent, onwards, Rule.rank]
  · refine descends_of_forall_ne fun c' hmem => ?_
    -- a descent from a tighter rule does not come to the expression
    obtain ⟨rule', hrule', heq⟩ := List.mem_map.mp hmem
    cases heq
    have hrank := (List.mem_filter.mp hrule').2
    cases rule <;> simp [Rule.rank] at hrank hrule

/-- A consumed token in front changes nothing. -/
theorem Descends.consumed {es : List Event} (h : Descends es) (token : Token) (c : Nat) :
    Descends (.consumed token c :: es) := by
  have hone : Descends [.consumed token c] := descends_of_forall_ne (by simp)
  exact hone.append h

/-- All the expressions along a trail go down to the tightest tier. -/
theorem Trail.descends {c d : Nat} {es : List Event} (h : Trail c es d) : Descends es := by
  induction h with
  | nil => exact descends_of_forall_ne (by simp)
  | consumed _ ih => exact ih.consumed _ _
  | led _ ih => exact ((descends_descent _ _).append ih).consumed _ _

/-- A descent begins each of the five rules at most once. -/
theorem countP_descent_le (rule : Rule) (c : Nat) :
    (descent rule c).countP Event.isEntry ≤ 5 := by
  have hle : (onwards rule).length ≤ 5 := List.length_filter_le ..
  have hlength : (descent rule c).length = (onwards rule).length := List.length_map ..
  exact Nat.le_trans List.countP_le_length (by omega)

/-- At most one descent comes with a token. -/
theorem Trail.entries_le {c d : Nat} {es : List Event} (h : Trail c es d) :
    es.countP Event.isEntry + 5 * c ≤ 5 * d := by
  -- each token moves the cursor by one, and at most five beginnings come with it
  induction h with
  | nil => simp
  | @consumed token c d es _ ih =>
    have hcons : (Event.consumed token c :: es).countP Event.isEntry = es.countP Event.isEntry :=
      List.countP_cons_of_neg (by simp [Event.isEntry])
    omega
  | @led token rule c d es _ ih =>
    have hle := countP_descent_le rule (c + 1)
    have hcons : (Event.consumed token c :: (descent rule (c + 1) ++ es)).countP Event.isEntry =
        (descent rule (c + 1)).countP Event.isEntry + es.countP Event.isEntry := by
      rw [List.countP_cons_of_neg (by simp [Event.isEntry]), List.countP_append]
    omega

end Grammar

/-! ## How often the rules were begun -/

namespace Expr

/-- The number of groupings in a tree. -/
def groupings : Expr → Nat
  | .literal _ => 0
  | .unary _ operand => operand.groupings
  | .binary left _ right => left.groupings + right.groupings
  | .grouping inner => inner.groupings + 1

/-- The number of binary operators of a tier in a tree. -/
def operators (tier : Tier) : Expr → Nat
  | .literal _ => 0
  | .unary _ operand => operand.operators tier
  | .binary left operator right => left.operators tier + right.operators tier +
      if operator.kind.tier? = some tier then 1 else 0
  | .grouping inner => inner.operators tier

/-- How often a rule is begun inside a tree: in every grouping, and behind every looser operator. -/
def entries (rule : Rule) : Expr → Nat
  | .literal _ => 0
  | .unary _ operand => operand.entries rule
  | .binary left operator right => left.entries rule + right.entries rule +
      if operator.kind.tier?.any (·.rank < rule.rank) then 1 else 0
  | .grouping inner => inner.entries rule + 1

/-- The number of binary operators in a tree that are looser than a rule. -/
def looser (rule : Rule) (e : Expr) : Nat :=
  match rule with
  | .expression | .equality => 0
  | .comparison => e.operators .equality
  | .term => e.operators .equality + e.operators .comparison
  | .factor => e.operators .equality + e.operators .comparison + e.operators .term
  | .unary | .primary =>
    e.operators .equality + e.operators .comparison + e.operators .term + e.operators .factor

/-- An operator counts for the rules that are tighter than it. -/
theorem looser_binary (rule : Rule) (left right : Expr) (operator : Token) :
    (binary left operator right).looser rule = left.looser rule + right.looser rule +
      if operator.kind.tier?.any (·.rank < rule.rank) then 1 else 0 := by
  cases htier : operator.kind.tier? with
  | none => cases rule <;> simp [looser, operators, htier] <;> omega
  | some tier =>
    cases rule <;> cases tier <;>
      simp [looser, operators, htier, Tier.rank, Tier.rule, Rule.rank] <;> omega

/-- A rule is begun in every grouping, and behind every operator that is looser. -/
theorem entries_eq (rule : Rule) (e : Expr) : e.entries rule = e.groupings + e.looser rule := by
  -- by the shape of the tree; each grouping begins the whole chain of rules again
  induction e with
  | literal value => cases rule <;> rfl
  | unary operator operand ih =>
    rw [entries, groupings, ih]
    cases rule <;> rfl
  | binary left operator right ihLeft ihRight =>
    rw [entries, groupings, looser_binary, ihLeft, ihRight]
    omega
  | grouping inner ih =>
    have hlooser : (grouping inner).looser rule = inner.looser rule := by cases rule <;> rfl
    rw [entries, groupings, hlooser, ih]
    omega

end Expr

/-- How often the log has the rule begin. -/
def Parser.begun (rule : Rule) (p : Parser) : Nat :=
  p.log.toList.countP (Event.isEntryOf rule)

namespace Grammar

/-- How often the log of a task has the rule begin before it is inside a tree. -/
def Task.begins (rule : Rule) : Task → Nat
  | .expression => 1
  | .level tier => if tier.rank ≤ rule.rank then 1 else 0
  | .nested t => t.begins rule
  | _ => 0

/-- What the log had before a loop went on with a tree. -/
def Task.began (rule : Rule) : Task → Nat
  | .loop _ left => left.entries rule
  | .nested t => t.began rule
  | _ => 0

section Tally

variable {rule : Rule}

/-- The beginning of a rule is counted for that rule only. -/
theorem begun_record (p : Parser) (rule' : Rule) :
    (p.record (.entered rule' p.cursor)).begun rule =
      p.begun rule + if rule' = rule then 1 else 0 := by
  have hlog : (p.record (.entered rule' p.cursor)).log.toList =
      p.log.toList ++ [.entered rule' p.cursor] := Array.toList_push ..
  rw [Parser.begun, hlog, List.countP_append, Parser.begun]
  congr 1
  by_cases heq : rule' = rule <;> simp [Event.isEntryOf, heq]

theorem begun_advance (p : Parser) : p.advance.begun rule = p.begun rule := by
  rw [Parser.begun, log_advance, Array.toList_push, List.countP_append]
  rfl

/-- Behind an operator of a tier, the rules begin that are tighter. -/
theorem begins_operand (tier : Tier) (hrule : rule.rank ≤ Rule.factor.rank) :
    tier.operand.begins rule = if tier.rank < rule.rank then 1 else 0 := by
  cases tier <;> cases rule <;> first | rfl | (simp [Rule.rank] at hrule)

/-- A level begins its own rule and those of its operand. -/
theorem begins_level (tier : Tier) (hrule : rule.rank ≤ Rule.factor.rank) :
    (if tier.rule = rule then 1 else 0) + tier.operand.begins rule =
      (Task.level tier).begins rule := by
  cases tier <;> cases rule <;> first | rfl | (simp [Rule.rank] at hrule)

theorem began_operand (tier : Tier) : tier.operand.began rule = 0 := by
  cases tier <;> rfl

/-- An expression begins its own rule and those of the loosest tier. -/
theorem begins_expression :
    (if Rule.expression = rule then 1 else 0) + (Task.level .equality).begins rule = 1 := by
  cases rule <;> rfl

/-- An operator that a tier offers counts for the rules that are tighter. -/
theorem entries_binary {tier : Tier} {p : Parser} (left right : Expr)
    (hoff : p.offers tier.rule.kinds = true) :
    (Expr.binary left p.current right).entries rule =
      left.entries rule + right.entries rule + if tier.rank < rule.rank then 1 else 0 := by
  have htier : p.current.kind.tier? = some tier :=
    Kind.mem_kinds_iff.mp (offers_eq_true_iff.mp hoff).2
  rw [Expr.entries, htier]
  simp

/-- A tree that comes out of a check has the tally of what was checked. -/
theorem tally_bounded {e : Expr} {pos : Position} {q : Parser} {r : Outcome} {n : Nat}
    (hr : bounded e pos q = r) (hq : q.begun rule = n + e.entries rule) :
    Outcome.Meets r (fun e' q' => q'.begun rule = n + e'.entries rule) (fun _ _ => True) :=
  (meets_bounded hr).imp (fun _ _ h => h.1 ▸ h.2.1 ▸ hq) (fun _ _ _ => trivial)

/-- What a run that ends with a tree adds to the tally of a rule. -/
theorem Run.tally {t : Task} {p : Parser} {r : Outcome} (h : Run t p r)
    (hrule : rule.rank ≤ Rule.factor.rank) :
    Outcome.Meets r (fun e q => q.begun rule + t.began rule =
      p.begun rule + t.begins rule + e.entries rule) (fun _ _ => True) := by
  -- The induction is on the run. Faults are not tallied, and along the other cases the beginnings
  -- add up to those of the tree.
  induction h with
  | expression _ ih =>
    refine ih.imp (fun e q h => ?_) (fun _ _ h => h)
    rw [begun_record, Nat.add_assoc (Parser.begun rule _), begins_expression] at h
    exact h
  | levelFails _ _ => trivial
  | @level tier _ _ left _ _ _ ihFirst ihRest =>
    refine ihRest.imp (fun e q h => ?_) (fun _ _ h => h)
    have hfirst : _ = _ := ihFirst
    have hrest : q.begun rule + left.entries rule = _ + 0 + e.entries rule := h
    rw [begun_record, began_operand] at hfirst
    have hlevel := begins_level tier hrule
    show q.begun rule + 0 = _
    omega
  | loopEnds _ => rfl
  | loopFails _ _ _ => trivial
  | loopTooDeep _ _ _ _ => trivial
  | @loopTurns tier _ _ left right _ hoff _ _ _ ih ihRest =>
    -- the operand adds what its tree says, and the beginnings that the operator leads to
    refine ihRest.imp (fun e q h => ?_) (fun _ _ h => h)
    have hoperand : _ = _ := ih
    rw [begun_advance, began_operand, begins_operand tier hrule] at hoperand
    have hrest : q.begun rule + (Expr.binary left _ right).entries rule =
        _ + 0 + e.entries rule := h
    rw [entries_binary left right hoff] at hrest
    show q.begun rule + left.entries rule = _ + 0 + e.entries rule
    omega
  | tooNested _ => trivial
  | nestedFails _ _ _ => trivial
  | nested _ _ ih => exact ih
  | prefixFails _ _ _ => trivial
  | prefixed _ _ hr ih =>
    have hoperand : _ = _ := ih
    rw [begun_advance] at hoperand
    exact tally_bounded hr hoperand
  | unprefixed _ _ ih => exact ih
  | literal _ _ => exact begun_advance _
  | badLiteral _ _ => trivial
  | opened _ _ _ ih =>
    refine ih.imp (fun e q h => ?_) (fun _ _ h => h)
    rw [begun_advance] at h
    exact h
  | missing _ _ => trivial
  | groupingFails _ _ => trivial
  | unclosed _ _ _ => trivial
  | @closed _ _ q inner _ _ _ hr ih =>
    -- in a grouping, every rule begins once more
    have hinner : q.begun rule + 0 = _ + 1 + inner.entries rule := ih
    refine tally_bounded hr ?_
    rw [begun_advance]
    show q.begun rule = _ + 0 + (inner.entries rule + 1)
    omega

end Tally

/-! ## Whole parses -/

/-- What the log of a parser says of the way that it came. -/
structure Faithful (q : Parser) : Prop where
  /-- The tokens up to the cursor were consumed, each once and in order. -/
  recorded : q.Recorded
  /-- Every expression that was begun went straight down to the tightest tier. -/
  descends : Descends q.log.toList
  /-- No cursor has more than one descent. -/
  entries_le : q.log.toList.countP Event.isEntry ≤ 5 * (q.cursor + 1)

/-- How often the log of a parser has each rule begin if a tree came out. -/
structure Tallied (e : Expr) (q : Parser) : Prop where
  expression_eq : q.begun .expression = 1 + e.groupings
  equality_eq : q.begun .equality = 1 + e.groupings
  comparison_eq : q.begun .comparison = 1 + e.groupings + e.operators .equality
  term_eq : q.begun .term =
    1 + e.groupings + e.operators .equality + e.operators .comparison
  factor_eq : q.begun .factor =
    1 + e.groupings + e.operators .equality + e.operators .comparison + e.operators .term

/-- Before the first step, there may only be a note on the end of input. -/
theorem mem_log_ofTokens {tokens : Array Token} {limit : Nat} {event : Event}
    (h : event ∈ (ofTokens tokens limit).log.toList) : event = .endAdded := by
  unfold ofTokens at h
  split at h
  · cases h
  · exact List.mem_singleton.mp h

/-- A parse ends with an event of its own. -/
theorem Outcome.exists_parser_conclude (r : Outcome) :
    ∃ event, parser (conclude r) = (parser r).record event ∧ event.consumed? = none ∧
      event.isEntry = false := by
  cases r with
  | error fault q => exact ⟨_, rfl, rfl, rfl⟩
  | ok e q =>
    rw [conclude]
    split
    · exact ⟨_, rfl, rfl, rfl⟩
    · exact ⟨_, rfl, rfl, rfl⟩

/-- At the start nothing is consumed, and no token is in front of the cursor. -/
theorem recorded_ofTokens (tokens : Array Token) (limit : Nat) :
    (ofTokens tokens limit).Recorded := by
  rw [Recorded, cursor_ofTokens, List.take_zero, List.filterMap_eq_nil_iff]
  intro event hmem
  rw [mem_log_ofTokens hmem]
  rfl

/-- An event that neither consumes a token nor begins a rule leaves a log faithful. -/
theorem Faithful.record {q : Parser} {event : Event} (h : Faithful q)
    (hconsumed : event.consumed? = none) (hentry : event.isEntry = false) :
    Faithful (q.record event) := by
  have hlog : (q.record event).log.toList = q.log.toList ++ [event] := Array.toList_push ..
  refine ⟨?_, ?_, ?_⟩
  · rw [Recorded, hlog, List.filterMap_append, h.recorded, List.filterMap_cons_none hconsumed]
    exact List.append_nil _
  · rw [hlog]
    refine h.descends.append (descends_of_forall_ne fun c hmem => ?_)
    rw [← List.mem_singleton.mp hmem] at hentry
    cases hentry
  · rw [hlog, List.countP_append, List.countP_singleton, hentry]
    exact h.entries_le

/-- A parse ends with the tokens that it began with. -/
theorem tokens_parser_parse (tokens : Array Token) (limit : Nat) :
    (Outcome.parser (parse tokens limit)).tokens = (ofTokens tokens limit).tokens := by
  have hrun : Run .expression (ofTokens tokens limit) _ := run_perform .expression _
  obtain ⟨event, hconclude, -⟩ := Outcome.exists_parser_conclude
    (Task.expression.perform (ofTokens tokens limit))
  rw [parse_of_run hrun, hconclude]
  exact hrun.onward.tokens_eq

/-- The log of a parse is faithful, however the parse ends. -/
theorem faithful_parse (tokens : Array Token) (limit : Nat) :
    Faithful (Outcome.parser (parse tokens limit)) := by
  have hrun : Run .expression (ofTokens tokens limit) _ := run_perform .expression _
  obtain ⟨event, hconclude, hconsumed, hentry⟩ := Outcome.exists_parser_conclude
    (Task.expression.perform (ofTokens tokens limit))
  have hrecorded := hrun.recorded (recorded_ofTokens tokens limit)
  obtain ⟨_, hlog, rest, rfl, htrail⟩ := hrun.tells
  rw [cursor_ofTokens] at hlog htrail
  rw [parse_of_run hrun, hconclude]
  refine Faithful.record ⟨hrecorded, ?_, ?_⟩ hconsumed hentry
  · rw [hlog]
    -- the log of the start has no expression, and what the run adds descends
    refine (descends_of_forall_ne fun c hmem => ?_).append
      ((descends_descent .expression 0).append htrail.descends)
    cases mem_log_ofTokens hmem
  · rw [hlog]
    have hbefore : (ofTokens tokens limit).log.toList.countP Event.isEntry = 0 := by
      refine List.countP_eq_zero.mpr fun event hmem => ?_
      rw [mem_log_ofTokens hmem]
      exact Bool.false_ne_true
    have hfirst := countP_descent_le .expression 0
    have hrest := htrail.entries_le
    rw [List.countP_append, List.countP_append]
    omega

theorem begun_ofTokens (rule : Rule) (tokens : Array Token) (limit : Nat) :
    (ofTokens tokens limit).begun rule = 0 := by
  refine List.countP_eq_zero.mpr fun event hmem => ?_
  rw [mem_log_ofTokens hmem]
  exact Bool.false_ne_true

/-- A parse begins each rule once, and as often again as the tree says. -/
theorem begun_of_parse {tokens : Array Token} {limit : Nat} {e : Expr} {q : Parser} {rule : Rule}
    (h : parse tokens limit = .ok e q) (hrule : rule.rank ≤ Rule.factor.rank) :
    q.begun rule = 1 + e.entries rule := by
  have hrun : Run .expression (ofTokens tokens limit) _ := run_perform .expression _
  have htally := hrun.tally hrule
  rw [parse_of_run hrun] at h
  cases hres : Task.expression.perform (ofTokens tokens limit) with
  | error fault q' =>
    rw [hres] at h
    cases h
  | ok e' q' =>
    rw [hres] at h htally
    have hbegun : q'.begun rule + 0 = _ + 1 + e'.entries rule := htally
    rw [begun_ofTokens] at hbegun
    -- the note that the parse is done begins no rule
    rw [Outcome.conclude] at h
    split at h
    · cases h
      have hlog : (q'.record (.parsed q'.tokens.size e)).log.toList =
          q'.log.toList ++ [.parsed q'.tokens.size e] := Array.toList_push ..
      rw [Parser.begun, hlog, List.countP_append]
      exact (show q'.begun rule + 0 = 1 + e.entries rule by omega)
    · cases h

/-- The log of a parse that succeeds has the tally of its tree. -/
theorem tallied_of_parse {tokens : Array Token} {limit : Nat} {e : Expr} {q : Parser}
    (h : parse tokens limit = .ok e q) : Tallied e q := by
  -- every rule is begun once, in each grouping, and behind the operators that are looser
  have hbegun {rule : Rule} (hrule : rule.rank ≤ Rule.factor.rank) :
      q.begun rule = 1 + e.groupings + e.looser rule := by
    rw [begun_of_parse h hrule, Expr.entries_eq, Nat.add_assoc]
  exact {
    expression_eq := hbegun (by decide)
    equality_eq := hbegun (by decide)
    comparison_eq := hbegun (by decide)
    term_eq := by
      have heq : q.begun .term = 1 + e.groupings + (_ + _) := hbegun (by decide)
      omega
    factor_eq := by
      have heq : q.begun .factor = 1 + e.groupings + (_ + _ + _) := hbegun (by decide)
      omega }

end Grammar

end LoxExpr
