import LoxExpr.Proofs.Grammar.Bare
import LoxExpr.Proofs.Grammar.Limit

/-!
# Parses of tokens that stand elsewhere

Two token sequences mirror each other if the tokens at the same index are akin: the parser cannot
tell them apart, but for their places. `Mirrors` carries that over to all that a parse makes of the
tokens. Trees mirror each other if they are the same but for operators that stand at the same index,
and faults if they have the same cause and are placed at tokens of the same index. A task reflects
an outcome if it can come to the mirror image of it (`Task.Reflects`). It does so if its parts
reflect what they came to on the other side, hence a run has its mirror image (`Run.mirrors`), and
so has a whole parse (`parse_mirrors_of_akin`). In particular no place has a part in what is parsed.
-/

namespace LoxExpr

open LoxExpr.Parser

/-! ## Akin tokens -/

/-- What the parser asks of a token is the same of both, but for the place. -/
structure Token.Akin (t u : Token) : Prop where
  kind_eq : u.kind = t.kind
  lexeme_eq : u.lexeme = t.lexeme
  value_eq : u.value.mapError Fault.cause = t.value.mapError Fault.cause

/-- Akin tokens are described in the same words. -/
theorem Token.Akin.describe_eq {t u : Token} (h : t.Akin u) : u.describe = t.describe := by
  unfold describe
  rw [h.kind_eq, h.lexeme_eq]

/-- If one of two akin tokens has a value, the other has the same. -/
theorem Token.Akin.value_eq_ok {t u : Token} {v : Literal} (h : t.Akin u) (hv : t.value = .ok v) :
    u.value = .ok v := by
  have heq := h.value_eq
  rw [hv] at heq
  cases hu : u.value with
  | ok w =>
    rw [hu] at heq
    cases heq
    rfl
  | error fault =>
    rw [hu] at heq
    cases heq

/-- If one of two akin tokens has no value, the other has none for the same cause. -/
theorem Token.Akin.value_eq_error {t u : Token} {fault : Fault} (h : t.Akin u)
    (hv : t.value = .error fault) :
    ∃ fault', u.value = .error fault' ∧ fault'.cause = fault.cause := by
  have heq := h.value_eq
  rw [hv] at heq
  cases hu : u.value with
  | ok w =>
    rw [hu] at heq
    cases heq
  | error fault' =>
    rw [hu] at heq
    exact ⟨fault', rfl, Except.error.inj heq⟩

/-- A token without a value is a fault at its own place. -/
theorem Token.position_of_value {t : Token} {fault : Fault} (h : t.value = .error fault) :
    fault.position = t.start := by
  -- only a numeral that cannot be read, and a token that is no literal, have no value
  unfold value at h
  split at h
  · cases h
  · split at h
    · cases h
    · cases h
    · cases h
    · split at h <;> cases h
      rfl
    · cases h
    · cases h
      rfl

/-- Tokens that differ in their places only are akin. -/
theorem Token.akin_of_bare {t u : Token} (h : u.bare = t.bare) : t.Akin u := by
  obtain ⟨hkind, hlexeme, hliteral⟩ := bare_eq_bare_iff.mp h
  have hdescribe : u.describe = t.describe := by
    unfold describe
    rw [hkind, hlexeme]
  refine ⟨hkind, hlexeme, ?_⟩
  unfold value
  rw [hkind, hlexeme, hliteral, hdescribe]
  -- the kind and the literal decide the way, and only a fault takes the place in
  split
  · rfl
  · split
    · rfl
    · rfl
    · rfl
    · split <;> rfl
    · rfl
    · rfl

/-! ## Mirror images -/

section Mirrors

variable (ts us : Array Token)

/-- The tokens stand at the same index. -/
def Token.Mirrors (t u : Token) : Prop :=
  ∃ i : Nat, ts[i]? = some t ∧ us[i]? = some u

/-- The trees have the same shape and literals, and operators that stand at the same index. -/
inductive Expr.Mirrors : Expr → Expr → Prop where
  | literal (v : Literal) : Mirrors (.literal v) (.literal v)
  | unary {t u : Token} {e e' : Expr} (hop : t.Mirrors ts us u) (h : Mirrors e e') :
      Mirrors (.unary t e) (.unary u e')
  | binary {t u : Token} {left left' right right' : Expr} (hleft : Mirrors left left')
      (hop : t.Mirrors ts us u) (hright : Mirrors right right') :
      Mirrors (.binary left t right) (.binary left' u right')
  | grouping {e e' : Expr} (h : Mirrors e e') : Mirrors (.grouping e) (.grouping e')

/-- The faults have the same cause, and are placed where tokens of the same index start. -/
structure Fault.Mirrors (fault fault' : Fault) : Prop where
  cause_eq : fault'.cause = fault.cause
  position_eq : ∃ t u : Token, t.Mirrors ts us u ∧ fault.position = t.start ∧
    fault'.position = u.start

/-- The parsers are at the same point of the two sequences. -/
structure Parser.Mirrors (p p' : Parser) : Prop where
  tokens_eq : p.tokens = ts
  tokens_eq' : p'.tokens = us
  limit_eq : p'.limit = p.limit
  cursor_eq : p'.cursor = p.cursor
  nesting_eq : p'.nesting = p.nesting

/-- The tasks are the same, with mirror images in them. -/
inductive Grammar.Task.Mirrors : Task → Task → Prop where
  | expression : Mirrors .expression .expression
  | level (tier : Tier) : Mirrors (.level tier) (.level tier)
  | loop {tier : Tier} {left left' : Expr} (h : left.Mirrors ts us left') :
      Mirrors (.loop tier left) (.loop tier left')
  | nested {t t' : Task} (h : Mirrors t t') : Mirrors (.nested t) (.nested t')
  | unary : Mirrors .unary .unary
  | primary : Mirrors .primary .primary
  | grouping {t u : Token} (h : t.Mirrors ts us u) : Mirrors (.grouping t) (.grouping u)

/-- Both outcomes are trees or both are faults, and they and their parsers are mirror images. -/
inductive Grammar.Outcome.Mirrors : Outcome → Outcome → Prop where
  | ok {e e' : Expr} {q q' : Parser} (he : e.Mirrors ts us e') (hq : q.Mirrors ts us q') :
      Mirrors (.ok e q) (.ok e' q')
  | error {fault fault' : Fault} {q q' : Parser} (hfault : fault.Mirrors ts us fault')
      (hq : q.Mirrors ts us q') : Mirrors (.error fault q) (.error fault' q')

end Mirrors

variable {ts us : Array Token}

/-- The mirror image of a token among mapped tokens is what it is mapped to. -/
theorem Token.Mirrors.of_map {f : Token → Token} {t u : Token}
    (h : Token.Mirrors ts (ts.map f) t u) : t ∈ ts ∧ u = f t := by
  obtain ⟨i, ht, hu⟩ := h
  rw [Array.getElem?_map, ht, Option.map_some] at hu
  exact ⟨Array.mem_of_getElem? ht, (Option.some.inj hu).symm⟩

/-- Mirror images are equally deep. -/
theorem Expr.Mirrors.depth_eq {e e' : Expr} (h : e.Mirrors ts us e') : e'.depth = e.depth := by
  induction h with
  | literal v => rfl
  | unary _ _ ih => rw [depth, depth, ih]
  | binary _ _ _ ihLeft ihRight => rw [depth, depth, ihLeft, ihRight]
  | grouping _ ih => rw [depth, depth, ih]

/-- Without places, mirror images are the same tree. -/
theorem Expr.Mirrors.bare_eq {e e' : Expr} (h : e.Mirrors ts us e')
    (hbare : ∀ t u, Token.Mirrors ts us t u → u.bare = t.bare) : e'.bare = e.bare := by
  -- the operators are all that can differ, and what is left of them is the same
  induction h with
  | literal v => rfl
  | unary hop _ ih => rw [bare, bare, ih, hbare _ _ hop]
  | binary _ hop _ ihLeft ihRight => rw [bare, bare, ihLeft, ihRight, hbare _ _ hop]
  | grouping _ ih => rw [bare, bare, ih]

theorem Grammar.mirrors_operand (tier : Tier) : tier.operand.Mirrors ts us tier.operand := by
  cases tier with
  | equality => exact .level .comparison
  | comparison => exact .level .term
  | term => exact .level .factor
  | factor => exact .unary

/-! ## Mirrored steps -/

section Steps

variable {p p' q q' : Parser} {t u : Token} {e e' : Expr}

namespace Parser

/-- Parsers at the same point have current tokens of the same index. -/
theorem Mirrors.current (h : p.Mirrors ts us p') : p.current.Mirrors ts us p'.current := by
  refine ⟨p.cursor, ?_, ?_⟩
  · rw [← h.tokens_eq]
    exact getElem?_cursor p
  · rw [← h.tokens_eq', ← h.cursor_eq]
    exact getElem?_cursor p'

theorem Mirrors.record (h : p.Mirrors ts us p') (event event' : Event) :
    (p.record event).Mirrors ts us (p'.record event') :=
  ⟨h.tokens_eq, h.tokens_eq', h.limit_eq, h.cursor_eq, h.nesting_eq⟩

theorem Mirrors.deeper (h : p.Mirrors ts us p') : p.deeper.Mirrors ts us p'.deeper :=
  ⟨h.tokens_eq, h.tokens_eq', h.limit_eq, h.cursor_eq, congrArg (· + 1) h.nesting_eq⟩

theorem Mirrors.shallower (h : p.Mirrors ts us p') : p.shallower.Mirrors ts us p'.shallower :=
  ⟨h.tokens_eq, h.tokens_eq', h.limit_eq, h.cursor_eq, congrArg (· - 1) h.nesting_eq⟩

/-- Trees that begin at the same index are too deep for the same limit. -/
theorem Mirrors.tooDeep (h : p.Mirrors ts us p') (ht : t.Mirrors ts us u) :
    Fault.Mirrors ts us (p.tooDeep t.start) (p'.tooDeep u.start) :=
  ⟨congrArg Cause.tooDeep h.limit_eq, t, u, ht, rfl, rfl⟩

/-- A tree and its mirror image are both within the limit, or are both too deep. -/
theorem Mirrors.bounded (hq : q.Mirrors ts us q') (he : e.Mirrors ts us e')
    (ht : t.Mirrors ts us u) :
    Grammar.Outcome.Mirrors ts us (bounded e t.start q) (bounded e' u.start q') := by
  unfold Parser.bounded
  rw [he.depth_eq, hq.limit_eq]
  split
  · exact .error (hq.tooDeep ht) hq
  · exact .ok he hq

variable (hakin : ∀ t u, Token.Mirrors ts us t u → t.Akin u)

include hakin

/-- The input ends on both sides at the same index. -/
theorem Mirrors.atEnd_eq (h : p.Mirrors ts us p') : p'.atEnd = p.atEnd := by
  unfold atEnd
  rw [(hakin _ _ h.current).kind_eq]

/-- Both parsers are on a token of the kind, or neither is. -/
theorem Mirrors.check_eq (h : p.Mirrors ts us p') (kind : Kind) : p'.check kind = p.check kind := by
  unfold check
  rw [h.atEnd_eq hakin, (hakin _ _ h.current).kind_eq]

/-- Both parsers offer one of the kinds, or neither does. -/
theorem Mirrors.offers_eq (h : p.Mirrors ts us p') (kinds : List Kind) :
    p'.offers kinds = p.offers kinds := by
  unfold offers
  rw [funext (h.check_eq hakin)]

/-- Both parsers consume the token of the same index. -/
theorem Mirrors.advance (h : p.Mirrors ts us p') : p.advance.Mirrors ts us p'.advance where
  tokens_eq := (tokens_advance p).trans h.tokens_eq
  tokens_eq' := (tokens_advance p').trans h.tokens_eq'
  limit_eq := by rw [limit_advance, limit_advance, h.limit_eq]
  cursor_eq := by
    -- both cursors move, or neither does
    have hsame := h.atEnd_eq hakin
    cases hend : p.atEnd with
    | true =>
      rw [cursor_advance_of_atEnd hend, cursor_advance_of_atEnd (hsame.trans hend), h.cursor_eq]
    | false => rw [cursor_advance hend, cursor_advance (hsame.trans hend), h.cursor_eq]
  nesting_eq := by rw [nesting_advance, nesting_advance, h.nesting_eq]

/-- What is left over begins at the same index, and is described alike. -/
theorem Mirrors.unexpected (h : p.Mirrors ts us p') :
    Fault.Mirrors ts us p.unexpected p'.unexpected :=
  ⟨congrArg Cause.unexpected (hakin _ _ h.current).describe_eq, _, _, h.current, rfl, rfl⟩

end Parser

end Steps

/-! ## Mirrored runs

Each way to run a task has its image on the other side: the parts are run there as they are here,
and what they come to is put together in the same way. There is a lemma for each kind of part.
-/

namespace Grammar

variable {t t' : Task} {p p' : Parser} {r r' : Outcome}

variable (ts us) in
/-- The task can be run at the parser, and what it comes to mirrors the outcome. -/
def Task.Reflects (t : Task) (p : Parser) (r : Outcome) : Prop :=
  ∃ r', Run t p r' ∧ Outcome.Mirrors ts us r r'

section Reflected

variable {tier : Tier} {left left' right e : Expr} {opening opening' : Token} {fault : Fault}
  {q : Parser}

/-- What mirrors a tree is a tree. -/
theorem Task.Reflects.exists_ok (h : t.Reflects ts us p (.ok e q)) :
    ∃ e' q', Run t p (.ok e' q') ∧ e.Mirrors ts us e' ∧ q.Mirrors ts us q' := by
  obtain ⟨_, hrun, hr⟩ := h
  cases hr with
  | ok he hq => exact ⟨_, _, hrun, he, hq⟩

/-- A task that comes to all that a part of it comes to reflects what the part does. -/
theorem Task.Reflects.of_part (h : t.Reflects ts us p r) (hpart : ∀ r', Run t p r' → Run t' p' r') :
    t'.Reflects ts us p' r := by
  obtain ⟨r', hrun, hr⟩ := h
  exact ⟨r', hpart r' hrun, hr⟩

/-- A task that fails where a part of it does reflects the fault of the part. -/
theorem Task.Reflects.of_failed (h : t.Reflects ts us p (.error fault q))
    (hpart : ∀ fault' q', Run t p (.error fault' q') → Run t' p' (.error fault' q')) :
    t'.Reflects ts us p' (.error fault q) := by
  obtain ⟨_, hrun, hr⟩ := h
  cases hr with
  | error hfault hq => exact ⟨_, hpart _ _ hrun, .error hfault hq⟩

/-- A level whose first operand is mirrored is mirrored as far as its loop is. -/
theorem reflects_level
    (hfirst : tier.operand.Reflects ts us (p'.record (.entered tier.rule p'.cursor)) (.ok e q))
    (hrest : ∀ e' q', e.Mirrors ts us e' → q.Mirrors ts us q' →
      (Task.loop tier e').Reflects ts us q' r) : (Task.level tier).Reflects ts us p' r := by
  obtain ⟨e', q', hrun, he, hq⟩ := hfirst.exists_ok
  exact (hrest e' q' he hq).of_part fun _ => .level hrun

/-- A tree that the loop finds too deep is too deep on the other side. -/
theorem reflects_loopTooDeep (hp : p.Mirrors ts us p') (hleft : left.Mirrors ts us left')
    (hoff : p'.offers tier.rule.kinds = true)
    (hright : tier.operand.Reflects ts us p'.advance (.ok right q))
    (hdeep : q.limit < (Expr.binary left p.current right).depth) :
    (Task.loop tier left').Reflects ts us p' (.error (q.tooDeep p.current.start) q) := by
  obtain ⟨right', q', hrun, hright', hq⟩ := hright.exists_ok
  rw [← (Expr.Mirrors.binary hleft hp.current hright').depth_eq, ← hq.limit_eq] at hdeep
  exact ⟨_, .loopTooDeep hoff hrun hdeep, .error (hq.tooDeep hp.current) hq⟩

/-- A turn of the loop is a turn on the other side, and the tree it builds is the mirror image. -/
theorem reflects_loopTurns (hp : p.Mirrors ts us p') (hleft : left.Mirrors ts us left')
    (hoff : p'.offers tier.rule.kinds = true)
    (hright : tier.operand.Reflects ts us p'.advance (.ok right q))
    (hfits : (Expr.binary left p.current right).depth ≤ q.limit)
    (hrest : ∀ e' q', (Expr.binary left p.current right).Mirrors ts us e' → q.Mirrors ts us q' →
      (Task.loop tier e').Reflects ts us q' r) : (Task.loop tier left').Reflects ts us p' r := by
  obtain ⟨right', q', hrun, hright', hq⟩ := hright.exists_ok
  -- the new tree has operators of the same index, and so the same depth
  have hnode := Expr.Mirrors.binary hleft hp.current hright'
  rw [← hnode.depth_eq, ← hq.limit_eq] at hfits
  exact (hrest _ q' hnode hq).of_part fun _ => .loopTurns hoff hrun hfits

/--
The nesting is the same on both sides, so there is room for one more level on both or neither.
-/
theorem reflects_tooNested (hp : p.Mirrors ts us p') (hdeep : p.limit ≤ p.nesting + 1) :
    (Task.nested t').Reflects ts us p' (.error (p.tooDeep p.position) p.deeper) := by
  rw [← hp.limit_eq, ← hp.nesting_eq] at hdeep
  exact ⟨_, .tooNested hdeep, .error (hp.tooDeep hp.current) hp.deeper⟩

/-- A level of nesting that is left with a tree is left with its mirror image. -/
theorem reflects_nested (hfits : p'.nesting + 1 < p'.limit)
    (h : t'.Reflects ts us p'.deeper (.ok e q)) :
    (Task.nested t').Reflects ts us p' (.ok e q.shallower) := by
  obtain ⟨e', q', hrun, he, hq⟩ := h.exists_ok
  exact ⟨_, .nested hfits hrun, .ok he hq.shallower⟩

/--
A prefix operator is put in front of the mirror image of its operand, and that is checked alike.
-/
theorem reflects_prefixed (hp : p.Mirrors ts us p') (hoff : p'.offers Rule.unary.kinds = true)
    (h : (Task.nested .unary).Reflects ts us p'.advance (.ok e q))
    (hr : bounded (.unary p.current e) p.current.start q = r) : Task.unary.Reflects ts us p' r := by
  obtain ⟨e', q', hrun, he, hq⟩ := h.exists_ok
  subst hr
  exact ⟨_, .prefixed hoff hrun rfl, hq.bounded (.unary hp.current he) hp.current⟩

section Akin

variable (hakin : ∀ t u, Token.Mirrors ts us t u → t.Akin u)

include hakin

/-- Akin tokens have the same value, and so are the same literal. -/
theorem reflects_literal {v : Literal} (hp : p.Mirrors ts us p')
    (hoff : p'.offers Rule.primary.kinds = true) (hv : p.current.value = .ok v) :
    Task.primary.Reflects ts us p' (.ok (.literal v) p.advance) :=
  ⟨_, .literal hoff ((hakin _ _ hp.current).value_eq_ok hv), .ok (.literal v) (hp.advance hakin)⟩

/--
Where one token has no value, neither has the one akin to it, and each is blamed in its place.
-/
theorem reflects_badLiteral (hp : p.Mirrors ts us p') (hoff : p'.offers Rule.primary.kinds = true)
    (hv : p.current.value = .error fault) :
    Task.primary.Reflects ts us p' (.error fault p.advance) := by
  obtain ⟨fault', hv', hcause⟩ := (hakin _ _ hp.current).value_eq_error hv
  have hfault : fault.Mirrors ts us fault' :=
    ⟨hcause, _, _, hp.current, Token.position_of_value hv, Token.position_of_value hv'⟩
  exact ⟨_, .badLiteral hoff hv', .error hfault (hp.advance hakin)⟩

/-- A token that begins no expression is blamed with the words for the one akin to it. -/
theorem reflects_missing (hp : p.Mirrors ts us p') (hoff : p'.offers Rule.primary.kinds = false)
    (hopen : p'.offers [.openParen] = false) :
    Task.primary.Reflects ts us p'
      (.error ⟨.expectedExpression .primary p.current.describe, p.position⟩ p) := by
  have hdescribe := (hakin _ _ hp.current).describe_eq
  exact ⟨_, .missing hoff hopen,
    .error ⟨congrArg (Cause.expectedExpression _) hdescribe, _, _, hp.current, rfl, rfl⟩ hp⟩

/-- Where nothing closes the parenthesis, the opening one is blamed on both sides. -/
theorem reflects_unclosed (hopening : opening.Mirrors ts us opening')
    (h : (Task.nested .expression).Reflects ts us p' (.ok e q))
    (hclose : q.check .closeParen = false) :
    (Task.grouping opening').Reflects ts us p'
      (.error ⟨.unclosedGrouping opening.lexeme, opening.start⟩ q) := by
  obtain ⟨e', q', hrun, he, hq⟩ := h.exists_ok
  have hlexeme := (hakin _ _ hopening).lexeme_eq
  exact ⟨_, .unclosed hrun ((hq.check_eq hakin _).trans hclose),
    .error ⟨congrArg Cause.unclosedGrouping hlexeme, _, _, hopening, rfl, rfl⟩ hq⟩

/-- A grouping is closed by the parenthesis of the same index, and is checked alike. -/
theorem reflects_closed (hopening : opening.Mirrors ts us opening')
    (h : (Task.nested .expression).Reflects ts us p' (.ok e q))
    (hclose : q.check .closeParen = true)
    (hr : bounded (.grouping e) opening.start q.advance = r) :
    (Task.grouping opening').Reflects ts us p' r := by
  obtain ⟨e', q', hrun, he, hq⟩ := h.exists_ok
  subst hr
  exact ⟨_, .closed hrun ((hq.check_eq hakin _).trans hclose) rfl,
    (hq.advance hakin).bounded (.grouping he) hopening⟩

end Akin

end Reflected

/-- What can be run at one parser can be run at the other, and the outcome is the mirror image. -/
theorem Run.mirrors (hakin : ∀ t u, Token.Mirrors ts us t u → t.Akin u) (h : Run t p r)
    (ht : t.Mirrors ts us t') (hp : p.Mirrors ts us p') : t'.Reflects ts us p' r := by
  -- The other side asks its tokens the same questions and gets the same answers, so it goes the
  -- same way; the parts of the run are mirrored by the induction hypotheses.
  induction h generalizing t' p' with
  | expression _ ih =>
    cases ht
    exact (ih (.level .equality) (hp.record _ _)).of_part fun _ => .expression
  | @levelFails tier _ _ _ _ ih =>
    cases ht
    exact (ih (mirrors_operand tier) (hp.record _ _)).of_failed fun _ _ => .levelFails
  | @level tier _ _ _ _ _ _ ihFirst ihRest =>
    -- the loop goes on from the mirror image of the first operand
    cases ht
    exact reflects_level (ihFirst (mirrors_operand tier) (hp.record _ _)) fun _ _ he hq =>
      ihRest (.loop he) hq
  | loopEnds hoff =>
    cases ht with
    | loop hleft => exact ⟨_, .loopEnds ((hp.offers_eq hakin _).trans hoff), .ok hleft hp⟩
  | @loopFails tier _ _ _ _ hoff _ ih =>
    cases ht with
    | loop _ =>
      have hoff' := (hp.offers_eq hakin _).trans hoff
      exact (ih (mirrors_operand tier) (hp.advance hakin)).of_failed fun _ _ => .loopFails hoff'
  | @loopTooDeep tier _ _ _ _ hoff _ hdeep ih =>
    cases ht with
    | loop hleft =>
      have hoff' := (hp.offers_eq hakin _).trans hoff
      exact reflects_loopTooDeep hp hleft hoff' (ih (mirrors_operand tier) (hp.advance hakin)) hdeep
  | @loopTurns tier _ _ _ _ _ hoff _ hfits _ ih ihRest =>
    cases ht with
    | loop hleft =>
      have hoff' := (hp.offers_eq hakin _).trans hoff
      exact reflects_loopTurns hp hleft hoff' (ih (mirrors_operand tier) (hp.advance hakin)) hfits
        fun _ _ hnode hq => ihRest (.loop hnode) hq
  | tooNested hdeep =>
    cases ht with
    | nested _ => exact reflects_tooNested hp hdeep
  | nestedFails hfits _ ih =>
    cases ht with
    | nested hinner =>
      rw [← hp.limit_eq, ← hp.nesting_eq] at hfits
      exact (ih hinner hp.deeper).of_failed fun _ _ => .nestedFails hfits
  | nested hfits _ ih =>
    cases ht with
    | nested hinner =>
      rw [← hp.limit_eq, ← hp.nesting_eq] at hfits
      exact reflects_nested hfits (ih hinner hp.deeper)
  | prefixFails hoff _ ih =>
    cases ht
    have hoff' := (hp.offers_eq hakin _).trans hoff
    exact (ih (.nested .unary) (hp.advance hakin)).of_failed fun _ _ => .prefixFails hoff'
  | prefixed hoff _ hr ih =>
    cases ht
    have hoff' := (hp.offers_eq hakin _).trans hoff
    exact reflects_prefixed hp hoff' (ih (.nested .unary) (hp.advance hakin)) hr
  | unprefixed hoff _ ih =>
    cases ht
    have hoff' := (hp.offers_eq hakin _).trans hoff
    exact (ih .primary hp).of_part fun _ => .unprefixed hoff'
  | literal hoff hv =>
    cases ht
    exact reflects_literal hakin hp ((hp.offers_eq hakin _).trans hoff) hv
  | badLiteral hoff hv =>
    cases ht
    exact reflects_badLiteral hakin hp ((hp.offers_eq hakin _).trans hoff) hv
  | opened hoff hopen _ ih =>
    cases ht
    have hoff' := (hp.offers_eq hakin _).trans hoff
    have hopen' := (hp.offers_eq hakin _).trans hopen
    -- the grouping is told which parenthesis it is behind, and that is the one of the same index
    exact (ih (.grouping hp.current) (hp.advance hakin)).of_part fun _ => .opened hoff' hopen'
  | missing hoff hopen =>
    cases ht
    exact reflects_missing hakin hp ((hp.offers_eq hakin _).trans hoff)
      ((hp.offers_eq hakin _).trans hopen)
  | groupingFails _ ih =>
    cases ht with
    | grouping _ => exact (ih (.nested .expression) hp).of_failed fun _ _ => .groupingFails
  | unclosed _ hclose ih =>
    cases ht with
    | grouping hopening =>
      exact reflects_unclosed hakin hopening (ih (.nested .expression) hp) hclose
  | closed _ hclose hr ih =>
    cases ht with
    | grouping hopening =>
      exact reflects_closed hakin hopening (ih (.nested .expression) hp) hclose hr

/-- The check for the end of input has the same result on both sides. -/
theorem Outcome.Mirrors.conclude (hakin : ∀ t u, Token.Mirrors ts us t u → t.Akin u)
    (h : Outcome.Mirrors ts us r r') :
    Outcome.Mirrors ts us (Outcome.conclude r) (Outcome.conclude r') := by
  cases h with
  | error hfault hq => exact .error hfault (hq.record _ _)
  | ok he hq =>
    unfold Outcome.conclude
    -- the input is over on both sides, or on neither
    simp only [hq.atEnd_eq hakin]
    split
    · exact .ok he (hq.record _ _)
    · exact .error (hq.unexpected hakin) (hq.record _ _)

end Grammar

open Grammar

/-! ## Mirrored parses -/

/--
Sequences of akin tokens are parsed alike, whatever the two have to do with each other otherwise.
-/
theorem parse_mirrors_of_akin {tokens tokens' : Array Token} {limit : Nat}
    (hakin : ∀ t u, Token.Mirrors (ofTokens tokens limit).tokens (ofTokens tokens' limit).tokens t u →
      t.Akin u) :
    Outcome.Mirrors (ofTokens tokens limit).tokens (ofTokens tokens' limit).tokens
      (parse tokens limit) (parse tokens' limit) := by
  have hp : Parser.Mirrors (ofTokens tokens limit).tokens (ofTokens tokens' limit).tokens
      (ofTokens tokens limit) (ofTokens tokens' limit) := by
    -- a parse begins at the same point of any tokens
    refine ⟨rfl, rfl, ?_, ?_, ?_⟩
    · rw [limit_ofTokens, limit_ofTokens]
    · rw [cursor_ofTokens, cursor_ofTokens]
    · rw [nesting_ofTokens, nesting_ofTokens]
  obtain ⟨r, hrun, hparse⟩ := exists_parse_eq tokens limit
  obtain ⟨r', hrun', hr⟩ := hrun.mirrors hakin .expression hp
  rw [hparse, parse_of_run hrun']
  exact hr.conclude hakin

/-! ## Places -/

section Places

variable {tokens tokens' : Array Token}

/-- Where the sequences are the same but for places, so are the tokens of one index. -/
theorem bare_eq_of_mirrors (hbare : tokens'.map Token.bare = tokens.map Token.bare) {t u : Token}
    (h : Token.Mirrors tokens tokens' t u) : u.bare = t.bare := by
  obtain ⟨i, ht, hu⟩ := h
  have heq := congrArg (·[i]?) hbare
  simp only [Array.getElem?_map, ht, hu, Option.map_some, Option.some.injEq] at heq
  exact heq

/-- An end of input behind all the tokens does not depend on places. -/
theorem ended_of_bare (hbare : tokens'.map Token.bare = tokens.map Token.bare)
    (hended : tokens.back?.map Token.kind = some .eof) :
    tokens'.back?.map Token.kind = some .eof := by
  have hkinds (us : Array Token) :
      us.back?.map Token.kind = (us.map Token.bare).back?.map Token.kind := by
    rw [Array.back?_map, Option.map_map]
    rfl
  rw [hkinds, hbare, ← hkinds]
  exact hended

/-- Sequences that are the same but for places are parsed alike. -/
theorem mirrors_of_bare (hbare : tokens'.map Token.bare = tokens.map Token.bare)
    (hended : tokens.back?.map Token.kind = some .eof) (limit : Nat) :
    Outcome.Mirrors tokens tokens' (parse tokens limit) (parse tokens' limit) := by
  have h := @parse_mirrors_of_akin tokens tokens' limit
  rw [tokens_ofTokens, tokens_ofTokens, if_pos hended, if_pos (ended_of_bare hbare hended)] at h
  exact h fun t u htu => Token.akin_of_bare (bare_eq_of_mirrors hbare htu)

/--
**Places have no part in what is parsed.** Tokens that differ in their places only are parsed alike
under every limit. The parsers end at the same index and nesting; trees are the same but for the
places of their operators, which are the tokens of the same index on either side; and faults have
the same cause, and stand where the token of one index starts on either side.
-/
theorem parse_mirrors (hbare : tokens'.map Token.bare = tokens.map Token.bare)
    (hended : tokens.back?.map Token.kind = some .eof) (limit : Nat) :
    Outcome.Mirrors tokens tokens' (parse tokens limit) (parse tokens' limit) ∧
      ∀ e e' q q', parse tokens limit = .ok e q → parse tokens' limit = .ok e' q' →
        e'.bare = e.bare := by
  have hparse := mirrors_of_bare hbare hended limit
  refine ⟨hparse, fun e e' q q' hok hok' => ?_⟩
  rw [hok, hok'] at hparse
  cases hparse with
  | ok he hq => exact he.bare_eq fun t u => bare_eq_of_mirrors hbare

end Places

/-- The tokens of `(nil`, where a map of their places puts them. -/
def openNil (place : Nat → Position) : Array Token := #[
  ⟨.openParen, "(", none, ⟨place 0, place 1⟩⟩, ⟨.kwNil, "nil", none, ⟨place 1, place 4⟩⟩,
  Token.endOfInput (place 4)]

/-- The parenthesis that nothing closes is reported where it stands, on either side. -/
theorem parse_mirrors_openNil :
    let tokens := openNil fun i => ⟨.ofNat i, "a"⟩
    let tokens' := openNil fun i => ⟨.ofNat (i + 7), "b"⟩
    tokens'.map Token.bare = tokens.map Token.bare ∧
    tokens.back?.map Token.kind = some .eof ∧
    Outcome.Mirrors tokens tokens' (parse tokens 2) (parse tokens' 2) ∧
    Outcome.summary (parse tokens 2) = (some ⟨.unclosedGrouping "(", ⟨0, "a"⟩⟩, 2) ∧
    Outcome.summary (parse tokens' 2) = (some ⟨.unclosedGrouping "(", ⟨7, "b"⟩⟩, 2) := by
  intro tokens tokens'
  have hbare : tokens'.map Token.bare = tokens.map Token.bare := by
    simp [tokens, tokens', openNil, Token.bare, Token.endOfInput]
  have hended : tokens.back?.map Token.kind = some .eof := rfl
  refine ⟨hbare, hended, (parse_mirrors hbare hended 2).1, ?_, ?_⟩
  · decide +kernel
  · decide +kernel

end LoxExpr
