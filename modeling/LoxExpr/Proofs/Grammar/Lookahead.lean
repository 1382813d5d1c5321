import LoxExpr.Proofs.Grammar.Pushdown

/-!
# One token of lookahead

Two parsers that stand at the same place do the same as long as they see the same tokens, and a run
sees no token behind the one that it stops at. `Sight n s s'` says that two parsers see the same
tokens up to the index `n`, `Abreast s s' p p'` that they have come as far as `p` and `p'` by the
same steps. The limits may differ, as long as the lower one is not what stops the run. If a run
stops in front of the index `n`, it goes the same way from both parsers, and ends abreast
(`Run.abreast`).
-/

namespace LoxExpr

open LoxExpr.Parser

namespace Parser

/-! ## Two parsers side by side -/

/-- The parsers see the same tokens up to the index `n`, the second with a limit no lower. -/
structure Sight (n : Nat) (s s' : Parser) : Prop where
  limit_le : s.limit ≤ s'.limit
  tokens_eq : ∀ i, s.cursor ≤ i → i < n → s'.tokens[i]? = s.tokens[i]?

/-- The parsers have come from `s` and `s'` to the same place, and have logged the same. -/
structure Abreast (s s' p p' : Parser) : Prop where
  onward : s.Onward p
  onward' : s'.Onward p'
  cursor_eq : p'.cursor = p.cursor
  nesting_eq : p'.nesting = p.nesting
  log_eq : ∃ events, p.log = s.log ++ events ∧ p'.log = s'.log ++ events

variable {n : Nat} {s s' p p' : Parser}

/-- Two parsers at the same index and nesting are abreast from there on. -/
theorem Abreast.refl (hcursor : s'.cursor = s.cursor) (hnesting : s'.nesting = s.nesting) :
    Abreast s s' s s' :=
  ⟨Onward.refl s, Onward.refl s', hcursor, hnesting, #[], by simp, by simp⟩

/-- What comes later on one side is no further back than either side is now. -/
theorem Abreast.cursor_le {q' : Parser} (hp : Abreast s s' p p') (h : p'.Onward q') :
    p.cursor ≤ q'.cursor := by
  rw [← hp.cursor_eq]
  exact h.cursor_le

/-- The token at the cursor is the current one. -/
theorem getElem?_cursor (p : Parser) : p.tokens[p.cursor]? = some p.current :=
  Array.getElem?_eq_getElem p.cursor_lt

/-- In front of the index the current tokens are the same, and so is all that depends on them. -/
theorem Sight.current_eq (hs : Sight n s s') (hp : Abreast s s' p p') (hn : p.cursor < n) :
    p'.current = p.current := by
  have hsame := hs.tokens_eq p.cursor hp.onward.cursor_le hn
  have hcurrent := getElem?_cursor p
  have hcurrent' := getElem?_cursor p'
  rw [hp.onward'.tokens_eq, hp.cursor_eq, hsame] at hcurrent'
  rw [hp.onward.tokens_eq, hcurrent'] at hcurrent
  exact Option.some.inj hcurrent

/-- In front of the index, the input ends on both sides or on neither. -/
theorem Sight.atEnd_eq (hs : Sight n s s') (hp : Abreast s s' p p') (hn : p.cursor < n) :
    p'.atEnd = p.atEnd := by
  rw [atEnd, atEnd, hs.current_eq hp hn]

/-- In front of the index, both sides are on a token of the kind or neither is. -/
theorem Sight.check_eq (hs : Sight n s s') (hp : Abreast s s' p p') (hn : p.cursor < n)
    (kind : Kind) : p'.check kind = p.check kind := by
  rw [check, check, hs.atEnd_eq hp hn, hs.current_eq hp hn]

/-- In front of the index, both sides offer one of the kinds or neither does. -/
theorem Sight.offers_eq (hs : Sight n s s') (hp : Abreast s s' p p') (hn : p.cursor < n)
    (kinds : List Kind) : p'.offers kinds = p.offers kinds := by
  have hcheck : p'.check = p.check := funext (hs.check_eq hp hn)
  rw [offers, offers, hcheck]

theorem Sight.position_eq (hs : Sight n s s') (hp : Abreast s s' p p') (hn : p.cursor < n) :
    p'.position = p.position :=
  congrArg Token.start (hs.current_eq hp hn)

/-! ## The limits on both sides -/

/-- The other limit is no lower at any later point either. -/
theorem Sight.limit_le' (hs : Sight n s s') (hp : Abreast s s' p p') : p.limit ≤ p'.limit := by
  rw [hp.onward.limit_eq, hp.onward'.limit_eq]
  exact hs.limit_le

/-- A level that the lower limit lets in is let in by the other. -/
theorem Sight.fits (hs : Sight n s s') (hp : Abreast s s' p p') (hfits : p.nesting + 1 < p.limit) :
    p'.nesting + 1 < p'.limit := by
  rw [hp.nesting_eq]
  exact Nat.lt_of_lt_of_le hfits (hs.limit_le' hp)

theorem Abreast.limit_eq (hp : Abreast s s' p p') (hlimit : s'.limit = s.limit) :
    p'.limit = p.limit := by
  rw [hp.onward.limit_eq, hp.onward'.limit_eq, hlimit]

/-- Under the same limit, a tree that is too deep is the same fault on both sides. -/
theorem Abreast.tooDeep_eq (hp : Abreast s s' p p') (hlimit : s'.limit = s.limit)
    (pos : Position) : p'.tooDeep pos = p.tooDeep pos := by
  rw [tooDeep, tooDeep, hp.limit_eq hlimit]

/-! ## The same step on both sides -/

/-- The same note on both sides keeps them abreast. -/
theorem Abreast.record (hp : Abreast s s' p p') (event : Event) :
    Abreast s s' (p.record event) (p'.record event) where
  onward := hp.onward.trans (onward_record p event)
  onward' := hp.onward'.trans (onward_record p' event)
  cursor_eq := hp.cursor_eq
  nesting_eq := hp.nesting_eq
  log_eq := by
    obtain ⟨events, hlog, hlog'⟩ := hp.log_eq
    refine ⟨events.push event, ?_, ?_⟩
    · rw [Parser.record, hlog, Array.push_append]
    · rw [Parser.record, hlog', Array.push_append]

/-- Both sides note a rule with the same index. -/
theorem Abreast.enter (hp : Abreast s s' p p') (rule : Rule) :
    Abreast s s' (p.record (.entered rule p.cursor)) (p'.record (.entered rule p'.cursor)) := by
  rw [hp.cursor_eq]
  exact hp.record _

theorem Abreast.deeper (hp : Abreast s s' p p') : Abreast s s' p.deeper p'.deeper :=
  ⟨hp.onward.trans (onward_deeper p), hp.onward'.trans (onward_deeper p'), hp.cursor_eq,
    congrArg (· + 1) hp.nesting_eq, hp.log_eq⟩

theorem Abreast.shallower (hp : Abreast s s' p p') : Abreast s s' p.shallower p'.shallower :=
  ⟨hp.onward.trans (onward_shallower p), hp.onward'.trans (onward_shallower p'), hp.cursor_eq,
    congrArg (· - 1) hp.nesting_eq, hp.log_eq⟩

/-- In front of the index, both sides consume the same token. -/
theorem Sight.advance (hs : Sight n s s') (hp : Abreast s s' p p') (hn : p.cursor < n) :
    Abreast s s' p.advance p'.advance where
  onward := hp.onward.trans (onward_advance p)
  onward' := hp.onward'.trans (onward_advance p')
  cursor_eq := by
    -- both cursors move, or neither does
    have hsame := hs.atEnd_eq hp hn
    cases hend : p.atEnd with
    | true =>
      rw [cursor_advance_of_atEnd hend, cursor_advance_of_atEnd (hsame.trans hend), hp.cursor_eq]
    | false => rw [cursor_advance hend, cursor_advance (hsame.trans hend), hp.cursor_eq]
  nesting_eq := by rw [nesting_advance, nesting_advance, hp.nesting_eq]
  log_eq := by
    obtain ⟨events, hlog, hlog'⟩ := hp.log_eq
    refine ⟨events.push (.consumed p.current p.cursor), ?_, ?_⟩
    · rw [log_advance, hlog, Array.push_append]
    · rw [log_advance, hlog', hs.current_eq hp hn, hp.cursor_eq, Array.push_append]

/-- Behind a token that was consumed, the cursor is further on than it was in front of it. -/
theorem cursor_lt_of_offers {p q : Parser} {kinds : List Kind} (hoff : p.offers kinds = true)
    (h : p.advance.Onward q) : p.cursor < q.cursor := by
  have hle := h.cursor_le
  rw [cursor_advance (atEnd_of_offers hoff)] at hle
  exact hle

/-- A token that is consumed on the way to the index is consumed on the other side as well. -/
theorem Sight.consumed {q : Parser} {kinds : List Kind} (hs : Sight n s s') (hp : Abreast s s' p p')
    (hoff : p.offers kinds = true) (h : p.advance.Onward q) (hn : q.cursor ≤ n) :
    p'.offers kinds = true ∧ p'.current = p.current ∧ Abreast s s' p.advance p'.advance := by
  have hlt : p.cursor < n := Nat.lt_of_lt_of_le (cursor_lt_of_offers hoff h) hn
  exact ⟨(hs.offers_eq hp hlt kinds).trans hoff, hs.current_eq hp hlt, hs.advance hp hlt⟩

end Parser

namespace Grammar

variable {n : Nat} {s s' p p' : Parser} {t : Task} {r : Outcome}

/-! ## Runs that see all that matters -/

/-- From the second parser the task ends as in the outcome, and abreast of it. -/
def Follows (s s' : Parser) (t : Task) (p' : Parser) (r : Outcome) : Prop :=
  Outcome.Meets r (fun e q => ∃ q', Run t p' (.ok e q') ∧ Abreast s s' q q')
    (fun fault q => ∃ q', Run t p' (.error fault q') ∧ Abreast s s' q q')

/-- A task that comes to all that another does follows where that one does. -/
theorem Follows.imp {t' : Task} {p'' : Parser} (h : Follows s s' t p' r)
    (hrun : ∀ r', Run t p' r' → Run t' p'' r') : Follows s s' t' p'' r := by
  refine Outcome.Meets.imp h (fun e q hok => ?_) (fun fault q herror => ?_)
  · obtain ⟨q', hq, habreast⟩ := hok
    exact ⟨q', hrun _ hq, habreast⟩
  · obtain ⟨q', hq, habreast⟩ := herror
    exact ⟨q', hrun _ hq, habreast⟩

/-- Two limits decide alike on a tree that the lower one lets pass, and equal ones on any. -/
theorem follows_bounded {e : Expr} {pos : Position} {q q' : Parser} (hs : Sight n s s')
    (hq : Abreast s s' q q') (hr : bounded e pos q = r)
    (hlimit : Outcome.isTooDeep r = true → s'.limit = s.limit)
    (hrun : ∀ r', bounded e pos q' = r' → Run t p' r') : Follows s s' t p' r := by
  unfold bounded at hr hrun
  by_cases hdeep : q.limit < e.depth
  · rw [if_pos hdeep] at hr
    subst hr
    -- a tree that is too deep on this side is so on the other, because the limits are the same
    have hsame := hlimit rfl
    refine ⟨q', hrun _ ?_, hq⟩
    rw [hq.limit_eq hsame, if_pos hdeep, hq.tooDeep_eq hsame]
  · rw [if_neg hdeep] at hr
    subst hr
    -- and one that fits fits under the other limit, which is no lower
    have hle := hs.limit_le' hq
    exact ⟨q', hrun _ (if_neg (by omega)), hq⟩

/--
A run that stops in front of the index is the same from any parser that sees the same tokens up to
there. Only if the limit stopped it does the limit have to be the same.
-/
theorem Run.abreast (h : Run t p r) (hs : Sight n s s') (hp : Abreast s s' p p')
    (hn : (Outcome.parser r).cursor < n)
    (hlimit : Outcome.isTooDeep r = true → s'.limit = s.limit) : Follows s s' t p' r := by
  -- the cursor never goes back, so each step of the run stops in front of the index as well
  induction h generalizing p' with
  | expression _ ih => exact (ih (hp.enter _) hn hlimit).imp fun _ => .expression
  | levelFails _ ih =>
    obtain ⟨q', hq, habreast⟩ := ih (hp.enter _) hn hlimit
    exact ⟨q', .levelFails hq, habreast⟩
  | level _ rest ihFirst ihRest =>
    have hle := rest.onward.cursor_le
    obtain ⟨q', hq, habreast⟩ := ihFirst (hp.enter _) (Nat.lt_of_le_of_lt hle hn) nofun
    exact (ihRest habreast hn hlimit).imp fun _ => .level hq
  | loopEnds hoff => exact ⟨p', .loopEnds ((hs.offers_eq hp hn _).trans hoff), hp⟩
  | loopFails hoff h ih =>
    obtain ⟨hoff', -, hstep⟩ := hs.consumed hp hoff h.onward (Nat.le_of_lt hn)
    obtain ⟨q', hq, habreast⟩ := ih hstep hn hlimit
    exact ⟨q', .loopFails hoff' hq, habreast⟩
  | loopTooDeep hoff h hdeep ih =>
    -- the operand is read on both sides, and the same tree is compared with the same limit
    obtain ⟨hoff', hcurrent, hstep⟩ := hs.consumed hp hoff h.onward (Nat.le_of_lt hn)
    have hsame := hlimit rfl
    obtain ⟨q', hq, habreast⟩ := ih hstep hn nofun
    rw [← hcurrent, ← habreast.limit_eq hsame] at hdeep
    have hrun := Run.loopTooDeep hoff' hq hdeep
    rw [habreast.tooDeep_eq hsame, hcurrent] at hrun
    exact ⟨q', hrun, habreast⟩
  | loopTurns hoff h hfits rest ih ihRest =>
    -- the operand stops in front of the index, because the loop behind it does
    have hstop := Nat.lt_of_le_of_lt rest.onward.cursor_le hn
    obtain ⟨hoff', hcurrent, hstep⟩ := hs.consumed hp hoff h.onward (Nat.le_of_lt hstop)
    obtain ⟨q', hq, habreast⟩ := ih hstep hstop nofun
    have hfits' := Nat.le_trans hfits (hs.limit_le' habreast)
    rw [← hcurrent] at hfits' ihRest
    exact (ihRest habreast hn hlimit).imp fun _ => .loopTurns hoff' hq hfits'
  | @tooNested t p hdeep =>
    have hsame := hlimit rfl
    rw [← hp.limit_eq hsame, ← hp.nesting_eq] at hdeep
    have hrun := Run.tooNested (t := t) hdeep
    rw [hp.tooDeep_eq hsame, hs.position_eq hp hn] at hrun
    exact ⟨p'.deeper, hrun, hp.deeper⟩
  | nestedFails hfits _ ih =>
    obtain ⟨q', hq, habreast⟩ := ih hp.deeper hn hlimit
    exact ⟨q', .nestedFails (hs.fits hp hfits) hq, habreast⟩
  | nested hfits _ ih =>
    -- a level that fits under the lower limit fits under the higher one
    obtain ⟨q', hq, habreast⟩ := ih hp.deeper hn hlimit
    exact ⟨q'.shallower, .nested (hs.fits hp hfits) hq, habreast.shallower⟩
  | prefixFails hoff h ih =>
    obtain ⟨hoff', -, hstep⟩ := hs.consumed hp hoff h.onward (Nat.le_of_lt hn)
    obtain ⟨q', hq, habreast⟩ := ih hstep hn hlimit
    exact ⟨q', .prefixFails hoff' hq, habreast⟩
  | prefixed hoff h hr ih =>
    rw [parser_bounded hr] at hn
    obtain ⟨hoff', hcurrent, hstep⟩ := hs.consumed hp hoff h.onward (Nat.le_of_lt hn)
    obtain ⟨q', hq, habreast⟩ := ih hstep hn nofun
    rw [← hcurrent] at hr
    exact follows_bounded hs habreast hr hlimit fun _ => .prefixed hoff' hq
  | unprefixed hoff h ih =>
    have hlt := Nat.lt_of_le_of_lt h.onward.cursor_le hn
    have hoff' := (hs.offers_eq hp hlt _).trans hoff
    exact (ih hp hn hlimit).imp fun _ => .unprefixed hoff'
  | @literal p v hoff hv =>
    obtain ⟨hoff', hcurrent, hstep⟩ := hs.consumed hp hoff (Onward.refl _) (Nat.le_of_lt hn)
    rw [← hcurrent] at hv
    exact ⟨p'.advance, .literal hoff' hv, hstep⟩
  | @badLiteral p fault hoff hv =>
    obtain ⟨hoff', hcurrent, hstep⟩ := hs.consumed hp hoff (Onward.refl _) (Nat.le_of_lt hn)
    rw [← hcurrent] at hv
    exact ⟨p'.advance, .badLiteral hoff' hv, hstep⟩
  | opened hoff hopen h ih =>
    obtain ⟨hopen', hcurrent, hstep⟩ := hs.consumed hp hopen h.onward (Nat.le_of_lt hn)
    have hlt := Nat.lt_trans (cursor_lt_of_offers hopen h.onward) hn
    have hoff' := (hs.offers_eq hp hlt _).trans hoff
    rw [← hcurrent] at ih
    exact (ih hstep hn hlimit).imp fun _ => .opened hoff' hopen'
  | missing hoff hopen =>
    -- the token that is blamed is still in front of the index
    have hoff' := (hs.offers_eq hp hn _).trans hoff
    have hopen' := (hs.offers_eq hp hn _).trans hopen
    have hrun := Run.missing hoff' hopen'
    rw [hs.current_eq hp hn, hs.position_eq hp hn] at hrun
    exact ⟨p', hrun, hp⟩
  | groupingFails _ ih =>
    obtain ⟨q', hq, habreast⟩ := ih hp hn hlimit
    exact ⟨q', .groupingFails hq, habreast⟩
  | unclosed _ hclose ih =>
    -- the token that should have closed the group is still in front of the index
    obtain ⟨q', hq, habreast⟩ := ih hp hn nofun
    have hclose' := (hs.check_eq habreast hn _).trans hclose
    exact ⟨q', .unclosed hq hclose', habreast⟩
  | @closed opening p q inner r _ hclose hr ih =>
    rw [parser_bounded hr] at hn
    have hlt := Nat.lt_of_le_of_lt (onward_advance q).cursor_le hn
    obtain ⟨q', hq, habreast⟩ := ih hp hlt nofun
    have hclose' := (hs.check_eq habreast hlt _).trans hclose
    exact follows_bounded hs (hs.advance habreast hlt) hr hlimit fun _ => .closed hq hclose'

/-- The limits do not matter to a tree that the lower one lets out. -/
theorem Run.abreast_ok {e : Expr} {q : Parser} (h : Run t p (.ok e q)) (hs : Sight n s s')
    (hp : Abreast s s' p p') (hn : q.cursor < n) :
    ∃ q', Run t p' (.ok e q') ∧ Abreast s s' q q' :=
  h.abreast hs hp hn nofun

end Grammar

end LoxExpr
