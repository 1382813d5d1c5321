import LoxExpr.Proofs.Grammar.Lookahead

/-!
# What may come behind the cursor

Where a run stops, other tokens might have followed, and then it could have gone on: an operator
that binds more tightly makes the last operand longer, and each tree above it is built anew. None of
this makes a tree any less deep. If a parser sees the same tokens as a run up to the cursor that the
run ends with, it gets at least that far, the tree that it reads is at least as deep, and if the run
was stopped by the limit, no tree is read under that limit (`Run.passed`).
-/

namespace LoxExpr

open LoxExpr.Parser

namespace Grammar

variable {n : Nat} {s s' p p' : Parser} {t : Task} {r : Outcome}

/-! ## Where a run may go on -/

/-- A loop builds on the tree that it is given. -/
theorem Run.depth_le_of_loop {tier : Tier} {left e : Expr} {q : Parser}
    (h : Run (.loop tier left) p (.ok e q)) : left.depth ≤ e.depth := by
  generalize htask : Task.loop tier left = t at h
  generalize hres : (EStateM.Result.ok e q : Outcome) = r at h
  -- Each turn puts the tree so far below a new node, so the depth only grows along the loop.
  induction h generalizing left with
  | loopEnds _ =>
    cases htask
    cases hres
    exact Nat.le_refl _
  | loopTurns _ _ _ _ _ ihRest =>
    cases htask
    have hle := ihRest rfl hres
    rw [Expr.depth] at hle
    omega
  | loopFails _ _ _ => cases hres
  | loopTooDeep _ _ _ _ => cases hres
  | _ => cases htask

/-- A loop that finds no operator hands back what it was given. -/
theorem Run.loop_moves_or_ends {tier : Tier} {left : Expr} (h : Run (.loop tier left) p r) :
    p.cursor < (Outcome.parser r).cursor ∨ r = .ok left p := by
  cases h with
  | loopEnds _ => exact Or.inr rfl
  | loopFails hoff h => exact Or.inl (cursor_lt_of_offers hoff h.onward)
  | loopTooDeep hoff h _ => exact Or.inl (cursor_lt_of_offers hoff h.onward)
  | loopTurns hoff h _ rest => exact Or.inl (cursor_lt_of_offers hoff (h.onward.trans rest.onward))

/-- A primary that reads no token fails, and not because of the limit. -/
theorem Run.primary_moves_or_misses (h : Run .primary p r) :
    p.cursor < (Outcome.parser r).cursor ∨
      ∃ fault, r = .error fault p ∧ fault.isTooDeep = false := by
  cases h with
  | literal hoff _ => exact Or.inl (cursor_lt_of_offers hoff (Onward.refl _))
  | badLiteral hoff _ => exact Or.inl (cursor_lt_of_offers hoff (Onward.refl _))
  | opened _ hopen h => exact Or.inl (cursor_lt_of_offers hopen h.onward)
  | missing _ _ => exact Or.inr ⟨_, rfl, rfl⟩

/-- An operand in front of a loop is all seen, unless the loop ends where the operand does. -/
theorem Run.operand_seen_or_last {tier : Tier} {e left : Expr} {q : Parser}
    (h : Run t p (.ok e q)) (rest : Run (.loop tier left) q r) (hs : Sight n s s')
    (hp : Abreast s s' p p') (hn : (Outcome.parser r).cursor ≤ n) :
    (∃ q', Run t p' (.ok e q') ∧ Abreast s s' q q') ∨ r = .ok left q := by
  rcases rest.loop_moves_or_ends with hmoves | hends
  · exact Or.inl (h.abreast_ok hs hp (Nat.lt_of_lt_of_le hmoves hn))
  · exact Or.inr hends

/-! ## The parts of a run

A task runs others on its way, and so ends with a fault of theirs, or goes on behind a tree. Which
task comes first is settled by the token at the cursor.
-/

/--
What a part of a run comes to, and what the run does: a fault of the part is one of the run, and a
tree of the part is where the run goes on from.
-/
def Outcome.PartOf (r₁ r : Outcome) : Prop :=
  r₁ = r ∨ ∃ e q, r₁ = .ok e q ∧ q.cursor ≤ (parser r).cursor

/-- A run ends no earlier than its parts. -/
theorem Outcome.PartOf.cursor_le {r₁ : Outcome} (h : PartOf r₁ r) :
    (parser r₁).cursor ≤ (parser r).cursor := by
  rcases h with rfl | ⟨e, q, rfl, hle⟩
  · exact Nat.le_refl _
  · exact hle

section Parts

variable {tier : Tier} {left right e : Expr} {opening : Token} {q : Parser}

/-- A level begins with its first operand. -/
theorem Run.exists_first (h : Run (.level tier) p r) :
    ∃ r₁, Run tier.operand (p.record (.entered tier.rule p.cursor)) r₁ ∧ Outcome.PartOf r₁ r := by
  cases h with
  | levelFails h1 => exact ⟨_, h1, Or.inl rfl⟩
  | level first rest => exact ⟨_, first, Or.inr ⟨_, _, rfl, rest.onward.cursor_le⟩⟩

/-- Behind its first operand, a level is a loop. -/
theorem Run.rest_of_first (h : Run (.level tier) p r)
    (hfirst : Run tier.operand (p.record (.entered tier.rule p.cursor)) (.ok e q)) :
    Run (.loop tier e) q r := by
  cases h with
  | levelFails h1 => cases hfirst.det h1
  | level first rest =>
    cases hfirst.det first
    exact rest

/-- A loop at an operator begins with the right operand. -/
theorem Run.exists_right (h : Run (.loop tier left) p r)
    (hoff : p.offers tier.rule.kinds = true) :
    ∃ r₁, Run tier.operand p.advance r₁ ∧ Outcome.PartOf r₁ r := by
  cases h with
  | loopEnds hnot => cases hoff.symm.trans hnot
  | loopFails _ h1 => exact ⟨_, h1, Or.inl rfl⟩
  | loopTooDeep _ h1 _ => exact ⟨_, h1, Or.inr ⟨_, _, rfl, Nat.le_refl _⟩⟩
  | loopTurns _ h1 _ rest => exact ⟨_, h1, Or.inr ⟨_, _, rfl, rest.onward.cursor_le⟩⟩

/-- Behind a right operand that fits, a loop goes on with the new tree. -/
theorem Run.rest_of_right (h : Run (.loop tier left) p r) (hoff : p.offers tier.rule.kinds = true)
    (hright : Run tier.operand p.advance (.ok right q))
    (hfits : (Expr.binary left p.current right).depth ≤ q.limit) :
    Run (.loop tier (.binary left p.current right)) q r := by
  cases h with
  | loopEnds hnot => cases hoff.symm.trans hnot
  | loopFails _ h1 => cases hright.det h1
  | loopTooDeep _ h1 hdeep =>
    cases hright.det h1
    exact absurd hfits (Nat.not_le_of_lt hdeep)
  | loopTurns _ h1 _ rest =>
    cases hright.det h1
    exact rest

/-- Where there is room for a level of nesting, the task inside it is run. -/
theorem Run.exists_nested (h : Run (.nested t) p r) (hfits : p.nesting + 1 < p.limit) :
    ∃ r₁, Run t p.deeper r₁ ∧ Outcome.PartOf r₁ r := by
  cases h with
  | tooNested hdeep => exact absurd hfits (Nat.not_lt_of_le hdeep)
  | nestedFails _ h1 => exact ⟨_, h1, Or.inl rfl⟩
  | nested _ h1 => exact ⟨_, h1, Or.inr ⟨_, _, rfl, Nat.le_refl _⟩⟩

/-- A unary expression at an operator begins with the operand. -/
theorem Run.exists_operand (h : Run .unary p r) (hoff : p.offers Rule.unary.kinds = true) :
    ∃ r₁, Run (.nested .unary) p.advance r₁ ∧ Outcome.PartOf r₁ r := by
  cases h with
  | prefixFails _ h1 => exact ⟨_, h1, Or.inl rfl⟩
  | prefixed _ h1 hr =>
    have hcursor := congrArg Parser.cursor (parser_bounded hr)
    exact ⟨_, h1, Or.inr ⟨_, _, rfl, Nat.le_of_eq hcursor.symm⟩⟩
  | unprefixed hnot _ => cases hoff.symm.trans hnot

/-- A grouping begins with the expression in it. -/
theorem Run.exists_inner (h : Run (.grouping opening) p r) :
    ∃ r₁, Run (.nested .expression) p r₁ ∧ Outcome.PartOf r₁ r := by
  cases h with
  | groupingFails h1 => exact ⟨_, h1, Or.inl rfl⟩
  | unclosed h1 _ => exact ⟨_, h1, Or.inr ⟨_, _, rfl, Nat.le_refl _⟩⟩
  | closed h1 _ hr =>
    refine ⟨_, h1, Or.inr ⟨_, _, rfl, ?_⟩⟩
    rw [parser_bounded hr]
    exact (onward_advance _).cursor_le

end Parts

/-! ## One outcome past another -/

/--
What an outcome says about another one that saw the same tokens as far as the first one got: that
one got at least as far, its tree is at least as deep, and the same limit stops it too.
-/
structure Passed (s s' : Parser) (r r' : Outcome) : Prop where
  cursor_le : (Outcome.parser r).cursor ≤ (Outcome.parser r').cursor
  depth_le : ∀ e q e' q', r = .ok e q → r' = .ok e' q' → e.depth ≤ e'.depth
  ne_ok : Outcome.isTooDeep r = true → s'.limit = s.limit → ∀ e' q', r' ≠ .ok e' q'

/-- A fault passes all that stopped no further on: there is no tree to compare. -/
theorem passed_error {fault' : Fault} {q' : Parser}
    (hle : (Outcome.parser r).cursor ≤ q'.cursor) : Passed s s' r (.error fault' q') :=
  ⟨hle, nofun, nofun⟩

/-- A tree passes every tree that is no deeper and was read no further. -/
theorem passed_ok {e e' : Expr} {q q' : Parser} (hle : q.cursor ≤ q'.cursor)
    (hdepth : e.depth ≤ e'.depth) : Passed s s' (.ok e q) (.ok e' q') := by
  refine ⟨hle, fun _ _ _ _ h h' => ?_, nofun⟩
  cases h
  cases h'
  exact hdepth

/-- What the limit stopped is passed by what the same limit stops. -/
theorem passed_of_stopped {fault : Fault} {q : Parser} {r' : Outcome}
    (hle : q.cursor ≤ (Outcome.parser r').cursor)
    (hne : s'.limit = s.limit → ∀ e' q', r' ≠ .ok e' q') : Passed s s' (.error fault q) r' :=
  ⟨hle, nofun, fun _ => hne⟩

/-- A fault that the limit has no part in is passed by all that gets as far. -/
theorem passed_of_fault {fault : Fault} {q : Parser} {r' : Outcome}
    (hle : q.cursor ≤ (Outcome.parser r').cursor) (hfault : fault.isTooDeep = false) :
    Passed s s' (.error fault q) r' := by
  refine ⟨hle, nofun, fun hdeep => ?_⟩
  have hdeep' : fault.isTooDeep = true := hdeep
  rw [hfault] at hdeep'
  cases hdeep'

/-- What passes a fault in a part of its run does so with all that comes behind the part. -/
theorem Passed.of_part {fault : Fault} {q : Parser} {r' r₁ : Outcome}
    (h : Passed s s' (.error fault q) r₁) (hpart : Outcome.PartOf r₁ r') :
    Passed s s' (.error fault q) r' := by
  rcases hpart with rfl | ⟨e, q₁, rfl, hle⟩
  · exact h
  · exact ⟨Nat.le_trans h.cursor_le hle, nofun,
      fun hdeep hsame => absurd rfl (h.ne_ok hdeep hsame e q₁)⟩

/-- A loop that begins behind a tree, with a tree at least as deep, keeps ahead of it. -/
theorem Run.passed_of_loop {tier : Tier} {left e : Expr} {q : Parser} {r' : Outcome}
    (h : Run (.loop tier left) p' r') (hle : q.cursor ≤ p'.cursor) (hdepth : e.depth ≤ left.depth) :
    Passed s s' (.ok e q) r' := by
  have hcursor : q.cursor ≤ (Outcome.parser r').cursor := Nat.le_trans hle h.onward.cursor_le
  cases r' with
  | ok e' q' => exact passed_ok hcursor (Nat.le_trans hdepth h.depth_le_of_loop)
  | error fault' q' => exact passed_error hcursor

/-- A limit that stops one tree stops every deeper one. -/
theorem passed_bounded {e e' : Expr} {pos pos' : Position} {q q' : Parser} {r' : Outcome}
    (hr : bounded e pos q = r) (hr' : bounded e' pos' q' = r') (hle : q.cursor ≤ q'.cursor)
    (hdepth : e.depth ≤ e'.depth) (hq : s.Onward q) (hq' : s'.Onward q') : Passed s s' r r' := by
  have hcursor : (Outcome.parser r).cursor ≤ q'.cursor := by
    rw [parser_bounded hr]
    exact hle
  unfold bounded at hr hr'
  -- if the deeper tree is let through, the other one is as well, unless the limits differ
  by_cases hdeep' : q'.limit < e'.depth
  · rw [if_pos hdeep'] at hr'
    subst hr'
    exact passed_error hcursor
  · rw [if_neg hdeep'] at hr'
    subst hr'
    by_cases hdeep : q.limit < e.depth
    · rw [if_pos hdeep] at hr
      subst hr
      refine passed_of_stopped hcursor fun hsame => ?_
      rw [hq.limit_eq] at hdeep
      rw [hq'.limit_eq, hsame] at hdeep'
      omega
    · rw [if_neg hdeep] at hr
      subst hr
      exact passed_ok hcursor hdepth

/-! ### Trees that the other run makes larger

A run may end with an operand that the other run reads on from. Each of these facts takes one that
passes the operand, and says that the whole is passed then.
-/

section Larger

variable {tier : Tier} {left right e : Expr} {op opening : Token} {pos : Position} {q : Parser}
  {r' : Outcome}

/-- The first operand of a level is all that was read, and is passed. -/
theorem Run.passed_of_first (h' : Run (.level tier) p' r')
    (hfirst : ∀ r₁, Run tier.operand (p'.record (.entered tier.rule p'.cursor)) r₁ →
      Passed s s' (.ok e q) r₁) : Passed s s' (.ok e q) r' := by
  cases h' with
  | levelFails h1 => exact hfirst _ h1
  | level first' rest' =>
    -- behind the first operand, the loop starts with a tree that is as deep or deeper
    have hpass := hfirst _ first'
    exact rest'.passed_of_loop hpass.cursor_le (hpass.depth_le _ _ _ _ rfl rfl)

/-- The right operand of a loop is the last that was read, and is passed. -/
theorem Run.passed_of_right (h' : Run (.loop tier left) p' r')
    (hoff' : p'.offers tier.rule.kinds = true)
    (hright : ∀ r₁, Run tier.operand p'.advance r₁ → Passed s s' (.ok right q) r₁) :
    Passed s s' (.ok (.binary left op right) q) r' := by
  cases h' with
  | loopEnds hnot => cases hoff'.symm.trans hnot
  | loopFails _ h1 => exact passed_error (hright _ h1).cursor_le
  | loopTooDeep _ h1 _ => exact passed_error (hright _ h1).cursor_le
  | loopTurns _ h1 _ rest' =>
    -- the loop goes on with the tree of the larger operand, and that only grows
    have hpass := hright _ h1
    have hdepth := hpass.depth_le _ _ _ _ rfl rfl
    refine rest'.passed_of_loop hpass.cursor_le ?_
    rw [Expr.depth, Expr.depth]
    omega

/-- The right operand made a tree that is too deep, and so does every one that passes it. -/
theorem Run.passed_of_tooDeep {fault : Fault} (h' : Run (.loop tier left) p' r')
    (hoff' : p'.offers tier.rule.kinds = true) (hp' : s'.Onward p'.advance)
    (hright : ∀ r₁, Run tier.operand p'.advance r₁ → Passed s s' (.ok right q) r₁)
    (hdeep : s.limit < (Expr.binary left op right).depth) : Passed s s' (.error fault q) r' := by
  cases h' with
  | loopEnds hnot => cases hoff'.symm.trans hnot
  | loopFails _ h1 => exact passed_error (hright _ h1).cursor_le
  | loopTooDeep _ h1 _ => exact passed_error (hright _ h1).cursor_le
  | @loopTurns _ _ q' _ _ _ _ h1 hfits rest' =>
    have hpass := hright _ h1
    have hdepth := hpass.depth_le _ _ _ _ rfl rfl
    refine passed_of_stopped (Nat.le_trans hpass.cursor_le rest'.onward.cursor_le) fun hsame => ?_
    -- under the same limit, the deeper tree cannot have fitted
    have hlimit : q'.limit = s'.limit := (hp'.trans h1.onward).limit_eq
    rw [hlimit, hsame] at hfits
    rw [Expr.depth] at hdeep hfits
    omega

/-- A level of nesting is left again, and what it held is passed. -/
theorem Run.passed_of_nested {t : Task} (h' : Run (.nested t) p' r')
    (hfits' : p'.nesting + 1 < p'.limit)
    (hinner : ∀ r₁, Run t p'.deeper r₁ → Passed s s' (.ok e q) r₁) :
    Passed s s' (.ok e q.shallower) r' := by
  cases h' with
  | tooNested hdeep => exact absurd hfits' (Nat.not_lt_of_le hdeep)
  | nestedFails _ h1 => exact passed_error (hinner _ h1).cursor_le
  | nested _ h1 =>
    have hpass := hinner _ h1
    exact passed_ok hpass.cursor_le (hpass.depth_le _ _ _ _ rfl rfl)

/--
The operand of a prefix operator is passed, and the check decides on a tree as deep or deeper.
-/
theorem Run.passed_of_operand (h' : Run .unary p' r') (hoff' : p'.offers Rule.unary.kinds = true)
    (hoperand : ∀ r₁, Run (.nested .unary) p'.advance r₁ → Passed s s' (.ok e q) r₁)
    (hr : bounded (.unary op e) pos q = r) (hq : s.Onward q) (hp' : s'.Onward p'.advance) :
    Passed s s' r r' := by
  cases h' with
  | prefixFails _ h1 =>
    -- the operand fails further on, so the whole does
    refine passed_error ?_
    rw [parser_bounded hr]
    exact (hoperand _ h1).cursor_le
  | prefixed _ h1 hr' =>
    have hpass := hoperand _ h1
    have hdepth := hpass.depth_le _ _ _ _ rfl rfl
    refine passed_bounded hr hr' hpass.cursor_le ?_ hq (hp'.trans h1.onward)
    rw [Expr.depth, Expr.depth]
    omega
  | unprefixed hnot _ => cases hoff'.symm.trans hnot

/-- A grouping whose closing parenthesis was seen is checked alike. -/
theorem Run.passed_of_closed {q' : Parser} (h' : Run (.grouping opening) p' r')
    (hinner : Run (.nested .expression) p' (.ok e q')) (hclose' : q'.check .closeParen = true)
    (hr : bounded (.grouping e) opening.start q.advance = r)
    (hadvance : Abreast s s' q.advance q'.advance) : Passed s s' r r' := by
  cases h' with
  | groupingFails h1 => cases hinner.det h1
  | unclosed h1 hnot =>
    cases hinner.det h1
    cases hclose'.symm.trans hnot
  | closed h1 _ hr' =>
    cases hinner.det h1
    exact passed_bounded hr hr' (Nat.le_of_eq hadvance.cursor_eq.symm) (Nat.le_refl _)
      hadvance.onward hadvance.onward'

/-- A literal is a tree of its own, and nothing that comes behind it changes it. -/
theorem Run.passed_of_literal {v : Literal} (h' : Run .primary p' r')
    (hoff' : p'.offers Rule.primary.kinds = true) (hle : q.cursor ≤ p'.advance.cursor) :
    Passed s s' (.ok (.literal v) q) r' := by
  cases h' with
  | literal _ _ => exact passed_ok hle (Nat.le_refl _)
  | badLiteral _ _ => exact passed_error hle
  | opened hnot _ _ => cases hoff'.symm.trans hnot
  | missing hnot _ => cases hoff'.symm.trans hnot

end Larger

/-! ### The induction -/

/--
Where a run stops at the index or before, any run of the task from a parser that sees the same
tokens up to the index passes it.
-/
theorem Run.passed (h : Run t p r) (hs : Sight n s s') (hp : Abreast s s' p p')
    (hn : (Outcome.parser r).cursor ≤ n) {r' : Outcome} (h' : Run t p' r') : Passed s s' r r' := by
  -- A part of the run that stops in front of the index is repeated exactly. One that stops right at
  -- it may go on in the other run, and there the induction hypothesis takes over.
  induction h generalizing p' r' with
  | expression _ ih =>
    -- the same rule is noted on both sides
    cases h' with
    | expression h1 => exact ih (hp.enter _) hn h1
  | levelFails _ ih =>
    -- the other level begins with an operand too, and passing that it passes the fault
    obtain ⟨r₁, h1, hpart⟩ := h'.exists_first
    exact (ih (hp.enter _) hn h1).of_part hpart
  | level first rest ihFirst ihRest =>
    rcases first.operand_seen_or_last rest hs (hp.enter _) hn with ⟨q', hq, habreast⟩ | rfl
    · exact ihRest habreast hn (h'.rest_of_first hq)
    · exact h'.passed_of_first fun _ h1 => ihFirst (hp.enter _) hn h1
  | loopEnds _ => exact h'.passed_of_loop (hp.cursor_le (Onward.refl p')) (Nat.le_refl _)
  | loopFails hoff h ih =>
    -- the operator was consumed, so it was seen
    obtain ⟨hoff', -, hstep⟩ := hs.consumed hp hoff h.onward hn
    obtain ⟨r₁, h1, hpart⟩ := h'.exists_right hoff'
    exact (ih hstep hn h1).of_part hpart
  | @loopTooDeep _ _ q _ _ hoff h hdeep ih =>
    obtain ⟨hoff', -, hstep⟩ := hs.consumed hp hoff h.onward hn
    -- the limit never changes, so it is the one of the first parser that was exceeded
    have hlimit : q.limit = s.limit := (hstep.onward.trans h.onward).limit_eq
    rw [hlimit] at hdeep
    exact h'.passed_of_tooDeep hoff' hstep.onward' (fun _ h1 => ih hstep hn h1) hdeep
  | loopTurns hoff h hfits rest ih ihRest =>
    have hstop := Nat.le_trans rest.onward.cursor_le hn
    obtain ⟨hoff', hcurrent, hstep⟩ := hs.consumed hp hoff h.onward hstop
    rcases h.operand_seen_or_last rest hs hstep hn with ⟨q', hq, habreast⟩ | rfl
    · -- the operand is the same, and what fits on this side fits on the other
      have hfits' := Nat.le_trans hfits (hs.limit_le' habreast)
      rw [← hcurrent] at hfits' ihRest
      exact ihRest habreast hn (h'.rest_of_right hoff' hq hfits')
    · exact h'.passed_of_right hoff' fun _ h1 => ih hstep hstop h1
  | @tooNested t p hdeep =>
    have hcursor := hp.cursor_le h'.onward
    cases h' with
    | tooNested _ => exact passed_error hcursor
    | nestedFails _ _ => exact passed_error hcursor
    | nested hfits _ =>
      -- the nesting is the same on both sides, so the same limit stops both
      refine passed_of_stopped hcursor fun hsame => ?_
      rw [hp.nesting_eq, hp.limit_eq hsame] at hfits
      omega
  | nestedFails hfits _ ih =>
    obtain ⟨r₁, h1, hpart⟩ := h'.exists_nested (hs.fits hp hfits)
    exact (ih hp.deeper hn h1).of_part hpart
  | nested hfits _ ih =>
    exact h'.passed_of_nested (hs.fits hp hfits) fun _ h1 => ih hp.deeper hn h1
  | prefixFails hoff h ih =>
    obtain ⟨hoff', -, hstep⟩ := hs.consumed hp hoff h.onward hn
    obtain ⟨r₁, h1, hpart⟩ := h'.exists_operand hoff'
    exact (ih hstep hn h1).of_part hpart
  | prefixed hoff h hr ih =>
    -- the check of the tree reads no token, so the operand stops where the whole does
    rw [parser_bounded hr] at hn
    obtain ⟨hoff', -, hstep⟩ := hs.consumed hp hoff h.onward hn
    exact h'.passed_of_operand hoff' (fun _ h1 => ih hstep hn h1) hr
      (hstep.onward.trans h.onward) hstep.onward'
  | unprefixed hoff h ih =>
    -- a primary that reads a token has seen that it is no prefix operator
    rcases h.primary_moves_or_misses with hmoves | ⟨fault, rfl, hfault⟩
    · have hoff' := (hs.offers_eq hp (Nat.lt_of_lt_of_le hmoves hn) _).trans hoff
      cases h' with
      | prefixFails hnot _ => cases hoff'.symm.trans hnot
      | prefixed hnot _ _ => cases hoff'.symm.trans hnot
      | unprefixed _ h1 => exact ih hp hn h1
    · -- the token that was no beginning of an expression may lie behind the index
      exact passed_of_fault (hp.cursor_le h'.onward) hfault
  | literal hoff _ =>
    obtain ⟨hoff', -, hstep⟩ := hs.consumed hp hoff (Onward.refl _) hn
    exact h'.passed_of_literal hoff' (Nat.le_of_eq hstep.cursor_eq.symm)
  | badLiteral hoff hv =>
    obtain ⟨hoff', hcurrent, hstep⟩ := hs.consumed hp hoff (Onward.refl _) hn
    cases h' with
    | literal _ hv' =>
      rw [hcurrent, hv] at hv'
      cases hv'
    | badLiteral _ _ => exact passed_error (Nat.le_of_eq hstep.cursor_eq.symm)
    | opened hnot _ _ => cases hoff'.symm.trans hnot
    | missing hnot _ => cases hoff'.symm.trans hnot
  | opened hoff hopen h ih =>
    obtain ⟨hopen', hcurrent, hstep⟩ := hs.consumed hp hopen h.onward hn
    have hlt := Nat.lt_of_lt_of_le (cursor_lt_of_offers hopen h.onward) hn
    have hoff' := (hs.offers_eq hp hlt _).trans hoff
    cases h' with
    | literal hnot _ => cases hoff'.symm.trans hnot
    | badLiteral hnot _ => cases hoff'.symm.trans hnot
    | opened _ _ h1 =>
      rw [hcurrent] at h1
      exact ih hstep hn h1
    | missing _ hnot => cases hopen'.symm.trans hnot
  | missing _ _ => exact passed_of_fault (hp.cursor_le h'.onward) rfl
  | groupingFails _ ih =>
    obtain ⟨r₁, h1, hpart⟩ := h'.exists_inner
    exact (ih hp hn h1).of_part hpart
  | unclosed _ _ ih =>
    -- the closing parenthesis may come behind the index, so all that is known is the cursor
    obtain ⟨r₁, h1, hpart⟩ := h'.exists_inner
    exact passed_of_fault (Nat.le_trans (ih hp hn h1).cursor_le hpart.cursor_le) rfl
  | closed h hclose hr ih =>
    -- the closing parenthesis lies behind the inner expression, so all of that was seen
    rw [parser_bounded hr, cursor_advance (check_eq_true_iff.mp hclose).1] at hn
    obtain ⟨q', hq, habreast⟩ := h.abreast_ok hs hp hn
    have hclose' := (hs.check_eq habreast hn _).trans hclose
    exact h'.passed_of_closed hq hclose' hr (hs.advance habreast hn)

end Grammar

end LoxExpr
