import LoxExpr.Proofs.Grammar.Acceptance
import LoxExpr.Proofs.Grammar.Lookahead
import LoxExpr.Proofs.Grammar.Operation

/-!
# The longest phrase

A procedure that succeeds has read the longest phrase of its rule that starts at its cursor. That it
has read a phrase is `Run.reads`, and that it stops in front of no operator of its own is
`Run.leaves`. That no longer phrase starts there is a matter of the grammar: a run sees no token
behind the one that it stops at (`Run.abreast`), so it would end in the same way if the longer
phrase were all that lies ahead; but in front of a phrase that nothing follows it hands back the
tree of all of it (`finds_of_yields`). This holds at every parser, and so after any use of one,
whatever failed before.
-/

namespace LoxExpr

open LoxExpr.Parser

/-! ## Stretches of tokens -/

namespace Parser

/-- The tokens from the cursor up to an index. -/
def upTo (p : Parser) (n : Nat) : List Token :=
  (p.tokens.toList.drop p.cursor).take (n - p.cursor)

theorem ahead_prefix (p : Parser) : p.ahead <+: p.tokens.toList.drop p.cursor :=
  List.takeWhile_prefix _

/-- What is ahead and no more is what lies between the cursors. -/
theorem Onward.upTo_eq {p q : Parser} {ts : List Token} (h : p.Onward q)
    (hts : p.ahead = ts ++ q.ahead) : p.upTo q.cursor = ts ∧ q.cursor = p.cursor + ts.length := by
  have hend := h.end_eq
  rw [hts, List.length_append] at hend
  have hcursor : q.cursor = p.cursor + ts.length := by omega
  obtain ⟨rest, hrest⟩ := p.ahead_prefix
  rw [upTo, hcursor, Nat.add_sub_cancel_left, ← hrest, hts, List.append_assoc, List.take_left]
  exact ⟨rfl, rfl⟩

/-- A stretch without an end of input stops in front of the last token. -/
theorem lt_size_of_upTo {p : Parser} {n : Nat} (hne : ∀ t ∈ p.upTo n, t.kind ≠ .eof) :
    n < p.tokens.size := by
  refine Nat.lt_of_not_le fun hge => ?_
  -- otherwise the stretch would go through the last token, which is an end of input
  obtain ⟨last, hlast, hkind⟩ := Option.map_eq_some_iff.mp p.ended
  have hlt : p.cursor < p.tokens.toList.length := by simpa using p.cursor_lt
  have hall : p.upTo n = p.tokens.toList.drop p.cursor := by
    refine List.take_of_length_le ?_
    rw [List.length_drop, Array.length_toList]
    omega
  have hmem : last ∈ p.tokens.toList.drop p.cursor := by
    refine List.mem_of_getLast? ?_
    rw [List.getLast?_drop, if_neg (Nat.not_le_of_lt hlt), Array.getLast?_toList]
    exact hlast
  exact hne last (hall ▸ hmem) hkind

/-- Up to an index there are as many tokens as it is ahead of the cursor. -/
theorem length_upTo {p : Parser} {n : Nat} (hn : n ≤ p.tokens.size) :
    (p.upTo n).length = n - p.cursor := by
  rw [upTo, List.length_take, List.length_drop, Array.length_toList]
  omega

/-- The parser with the end of input behind the next `k` tokens. -/
def curtail (p : Parser) (k : Nat) : Parser :=
  { p with
    tokens := (p.tokens.extract 0 (p.cursor + k)).push (Token.endOfInput p.position)
    ended := by simp [Token.endOfInput]
    cursor_lt := by
      have hlt := p.cursor_lt
      simp only [Array.size_push, Array.size_extract]
      omega }

/-- What lies ahead of the curtailed parser is the stretch that it was cut to. -/
theorem ahead_curtail {p : Parser} {k : Nat} (hne : ∀ t ∈ p.upTo (p.cursor + k), t.kind ≠ .eof) :
    (p.curtail k).ahead = p.upTo (p.cursor + k) := by
  have hlt : p.cursor < p.tokens.toList.length := by simpa using p.cursor_lt
  have hdrop : (p.curtail k).tokens.toList.drop p.cursor =
      p.upTo (p.cursor + k) ++ [Token.endOfInput p.position] := by
    rw [curtail, Array.toList_push, Array.toList_extract, List.extract_eq_take_drop, Nat.sub_zero,
      List.drop_zero, List.drop_append_of_le_length (by rw [List.length_take]; omega),
      List.drop_take, upTo]
  show beforeEnd ((p.curtail k).tokens.toList.drop p.cursor) = _
  rw [hdrop, beforeEnd_append hne]

/-- Up to there the tokens are the same. -/
theorem sight_curtail {p : Parser} {k : Nat} (hsize : p.cursor + k ≤ p.tokens.size) :
    Sight (p.cursor + k) p (p.curtail k) := by
  refine ⟨Nat.le_refl _, fun i _ hi => ?_⟩
  show ((p.tokens.extract 0 (p.cursor + k)).push _)[i]? = _
  have hextract : i < (p.tokens.extract 0 (p.cursor + k)).size := by
    rw [Array.size_extract]
    omega
  rw [Array.getElem?_push_lt hextract, ← Array.getElem?_eq_getElem hextract, Array.getElem?_extract,
    if_pos (by omega), Nat.zero_add]

end Parser

namespace Expr

theorem Yields.ne_nil {e : Expr} {ts : List Token} (h : e.Yields ts) : ts ≠ [] := by
  cases h with
  | literal _ _ => exact List.cons_ne_nil _ _
  | unary _ => exact List.cons_ne_nil _ _
  | binary _ _ => exact List.append_ne_nil_of_right_ne_nil _ (List.cons_ne_nil _ _)
  | grouping _ _ _ => exact List.cons_ne_nil _ _

end Expr

namespace Grammar

variable {p q : Parser} {e e' : Expr} {t : Task} {ts : List Token}

/-! ## What lies between the cursors -/

/-- The run consumed the tokens up to its last cursor, and made the tree of them. -/
theorem Run.reads_upTo (h : Run t p (.ok e q)) :
    t.Reads (p.upTo q.cursor) e ∧ ∀ u ∈ p.upTo q.cursor, u.kind ≠ .eof := by
  have honward : p.Onward q := h.onward
  obtain ⟨ts, hts, hreads⟩ := h.reads
  rw [(honward.upTo_eq hts).1]
  refine ⟨hreads, fun u hu => ?_⟩
  have hmem : u ∈ p.ahead := by
    rw [hts]
    exact List.mem_append_left _ hu
  exact kind_ne_of_mem_beforeEnd hmem

/-- The token that the run stops at is no operator that binds as tightly as its rule. -/
theorem Run.leaves_current (h : Run t p (.ok e q)) (hp : t.Enters p) {tier : Tier}
    (htier : q.current.kind.tier? = some tier) : tier.rank < t.rank := by
  have hstops : Stops t.rank q.ahead := h.leaves hp
  have hend : q.atEnd = false := by
    rw [atEnd_eq_false_iff]
    intro hkind
    rw [hkind] at htier
    cases htier
  exact hstops q.current (by rw [ahead_advance hend]; rfl) tier htier

/-! ## No longer phrase -/

/-- The task hands back the tree of every phrase of its rule that nothing follows. -/
def FindsAll (t : Task) : Prop :=
  ∀ (e : Expr) (ts : List Token), e.IsPhrase t.rank ts → Finds t e ts

/-- A level finds every phrase of its tier. -/
theorem findsAll_level (tier : Tier) : FindsAll (.level tier) := fun _ _ h =>
  finds_level ((finds_of_yields h.tree.yields h.tree.normal).1 tier h.rank_le)

/-- The expression rule finds every phrase of the loosest tier. -/
theorem findsAll_expression : FindsAll .expression := fun e ts h =>
  finds_expression (findsAll_level .equality e ts h)

/-- The unary rule finds every phrase that binds as tightly as it. -/
theorem findsAll_unary : FindsAll .unary := fun _ _ h =>
  (finds_of_yields h.tree.yields h.tree.normal).2 h.rank_le

/-- A run ends no earlier than any phrase of its rule that starts where it does. -/
theorem Run.le_of_isPhrase (h : Run t p (.ok e q)) (ht : FindsAll t) {n : Nat}
    (hne : ∀ u ∈ p.upTo n, u.kind ≠ .eof) (hphrase : e'.IsPhrase t.rank (p.upTo n)) :
    n ≤ q.cursor := by
  -- if the phrase went further, the run would be the same with nothing behind the phrase
  refine Nat.le_of_not_lt fun hlt => ?_
  have honward : p.Onward q := h.onward
  obtain ⟨k, rfl⟩ := Nat.exists_eq_add_of_le (Nat.le_trans honward.cursor_le (Nat.le_of_lt hlt))
  have hsize := Nat.le_of_lt (lt_size_of_upTo hne)
  have hstart : Abreast p (p.curtail k) p (p.curtail k) := Abreast.refl rfl rfl
  obtain ⟨q', hq', habreast⟩ := h.abreast_ok (sight_curtail hsize) hstart hlt
  -- but then all of the phrase would have been read
  have hahead : (p.curtail k).ahead = p.upTo (p.cursor + k) ++ [] := by
    rw [ahead_curtail hne, List.append_nil]
  rcases ht e' _ hphrase (p.curtail k) [] hahead (stops_nil _) with
    ⟨q'', hq'', hnil⟩ | ⟨⟨pos, q'', hq''⟩, -⟩
  · cases hq'.det hq''
    have hend : q'.cursor + q'.ahead.length = p.cursor + (p.curtail k).ahead.length :=
      habreast.onward'.end_eq
    rw [hnil, hahead, List.append_nil, length_upTo hsize, List.length_nil,
      habreast.cursor_eq] at hend
    omega
  · cases hq'.det hq''

/-! ## The phrase of a procedure -/

/-- A primary expression begins with no prefix operator, so the unary rule reads it as well. -/
theorem Run.unary_of_primary (h : Run .primary p (.ok e q)) : Run .unary p (.ok e q) := by
  refine .unprefixed (offers_eq_false_of_not_mem ?_) h
  rw [Kind.mem_unary_kinds_iff]
  cases h with
  | literal hoff _ =>
    exact (Kind.mem_primary_kinds_iff.mp (offers_eq_true_iff.mp hoff).2).not_isPrefixOp
  | opened _ hopen _ =>
    rw [List.mem_singleton.mp (offers_eq_true_iff.mp hopen).2]
    decide

/-- Tokens without an end of input have one tree. -/
theorem eq_of_isTreeOf (hne : ∀ u ∈ ts, u.kind ≠ .eof) (h : e.IsTreeOf ts)
    (h' : e'.IsTreeOf ts) : e' = e := by
  have hts : beforeEnd (ts ++ [Token.endOfInput (endOf #[])]).toArray.toList = ts :=
    beforeEnd_append hne
  exact tree_unique (hts.symm ▸ h) (hts.symm ▸ h')

/-- From the first parser to the second, the longest phrase of a rank was read as the tree. -/
structure Longest (rank : Nat) (p : Parser) (e : Expr) (q : Parser) : Prop where
  tokens_eq : q.tokens = p.tokens
  cursor_lt : p.cursor < q.cursor
  phrase : e.IsPhrase rank (p.upTo q.cursor)
  unique : ∀ e' : Expr, e'.IsTreeOf (p.upTo q.cursor) → e' = e
  /-- No more tokens than were read are a phrase of the rank, wherever the input may end. -/
  longest : ∀ (n : Nat) (e' : Expr), q.cursor < n → (∀ u ∈ p.upTo n, u.kind ≠ .eof) →
    ¬ e'.IsPhrase rank (p.upTo n)
  /-- Operators that bind at least as tightly are not left behind. -/
  leaves : ∀ tier, q.current.kind.tier? = some tier → tier.rank < rank

/-- From the first parser to the second, an expression and a closing parenthesis were read. -/
structure Closes (p : Parser) (e : Expr) (q : Parser) : Prop where
  tokens_eq : q.tokens = p.tokens
  reads : ∃ inner ts closing, e = .grouping inner ∧ p.upTo q.cursor = ts ++ [closing] ∧
    inner.IsTreeOf ts ∧ closing.kind = .closeParen

/-- A phrase that none is longer than is the longest, and no operator of its rule follows it. -/
theorem Run.longest (h : Run t p (.ok e q)) (hphrase : e.IsPhrase t.rank (p.upTo q.cursor))
    (hp : t.Enters p) (hmax : ∀ (n : Nat) (e' : Expr), (∀ u ∈ p.upTo n, u.kind ≠ .eof) →
      e'.IsPhrase t.rank (p.upTo n) → n ≤ q.cursor) : Longest t.rank p e q where
  tokens_eq := h.onward.tokens_eq
  cursor_lt := by
    -- a tree is made of one token at least
    have hpos := List.length_pos_iff.mpr hphrase.tree.yields.ne_nil
    rw [length_upTo (Nat.le_of_lt (lt_size_of_upTo h.reads_upTo.2))] at hpos
    omega
  phrase := hphrase
  unique _ h' := eq_of_isTreeOf h.reads_upTo.2 hphrase.tree h'
  longest n e' hlt hne h' := Nat.not_le_of_lt hlt (hmax n e' hne h')
  leaves _ htier := h.leaves_current hp htier

/-- A grouping reads the expression and the parenthesis behind it. -/
theorem Run.closes {opening : Token} (h : Run (.grouping opening) p (.ok e q)) : Closes p e q where
  tokens_eq := h.onward.tokens_eq
  reads := by
    have honward : p.Onward q := h.onward
    cases h with
    | @closed _ _ s inner _ hinner hclose hr =>
      obtain ⟨ts, hts, hphrase⟩ := hinner.reads
      obtain ⟨hend, hkind⟩ := check_eq_true_iff.mp hclose
      obtain ⟨rfl, rfl, -⟩ := meets_bounded hr
      -- what was read is the phrase inside and the parenthesis behind it
      have hahead : p.ahead = (ts ++ [s.current]) ++ s.advance.ahead := by
        rw [hts, ahead_advance hend, List.append_assoc, List.singleton_append]
      exact ⟨inner, ts, s.current, rfl, (honward.upTo_eq hahead).1, hphrase.tree, hkind⟩

/-- What a procedure has read when it hands back a tree. -/
def Procedure.HasRead : Procedure → Parser → Expr → Parser → Prop
  | .grouping _, p, e, q => Closes p e q
  | f, p, e, q => Longest f.task.rank p e q

/--
**A procedure reads the longest phrase of its rule.** If any of the procedures hands back a tree, at
whatever parser it was started, then it has moved on, and the tree is the only one of the tokens
that it moved over and belongs to its rule. No longer stretch of tokens from there is a phrase of
the rule, and the token that comes next is no operator of the rule or a tighter one. What reads on
behind an opening parenthesis has read an expression and one closing parenthesis.
-/
theorem hasRead_of_parse (f : Procedure) (p : Parser) (e : Expr) (q : Parser)
    (h : f.parse p = .ok e q) : f.HasRead p e q := by
  have hrun : Run f.task p (.ok e q) := h ▸ f.run_parse p
  cases f with
  | expression =>
    exact hrun.longest hrun.reads_upTo.1 trivial fun _ _ => hrun.le_of_isPhrase findsAll_expression
  | equality | comparison | term | factor =>
    exact hrun.longest hrun.reads_upTo.1 trivial fun _ _ => hrun.le_of_isPhrase (findsAll_level _)
  | unary =>
    exact hrun.longest hrun.reads_upTo.1 trivial fun _ _ => hrun.le_of_isPhrase findsAll_unary
  | primary =>
    -- a longer primary expression would be a longer unary one
    refine hrun.longest hrun.reads_upTo.1 trivial fun n e' hne hphrase => ?_
    have hunary : e'.IsPhrase Rule.unary.rank (p.upTo n) := hphrase.mono (by decide)
    exact hrun.unary_of_primary.le_of_isPhrase findsAll_unary hne hunary
  | grouping opening => exact hrun.closes

/-- The tokens of `== true - nil ) <`, which no expression begins with. -/
def headless : Array Token := #[
  ⟨.equals, "==", none, ⟨⟨0, "t"⟩, ⟨2, "t"⟩⟩⟩, ⟨.kwTrue, "true", none, ⟨⟨3, "t"⟩, ⟨7, "t"⟩⟩⟩,
  ⟨.dash, "-", none, ⟨⟨8, "t"⟩, ⟨9, "t"⟩⟩⟩, ⟨.kwNil, "nil", none, ⟨⟨10, "t"⟩, ⟨13, "t"⟩⟩⟩,
  ⟨.closeParen, ")", none, ⟨⟨14, "t"⟩, ⟨15, "t"⟩⟩⟩, ⟨.less, "<", none, ⟨⟨16, "t"⟩, ⟨17, "t"⟩⟩⟩]

/-- A parser that failed on the first token and was moved past it. -/
def resumed : Parser := (ofTokens headless 4).use [.parse .expression, .consume]

/-- Behind the failure, a term ends in front of the parenthesis and a grouping behind it. -/
theorem hasRead_resumed :
    (∃ e q, Procedure.term.parse resumed = .ok e q ∧ q.cursor = 4 ∧
      Procedure.term.HasRead resumed e q) ∧
    ∃ e q, (Procedure.grouping resumed.current).parse resumed = .ok e q ∧ q.cursor = 5 ∧
      (Procedure.grouping resumed.current).HasRead resumed e q :=
  ⟨⟨_, _, rfl, rfl, hasRead_of_parse .term resumed _ _ rfl⟩,
    ⟨_, _, rfl, rfl, hasRead_of_parse (.grouping resumed.current) resumed _ _ rfl⟩⟩

end Grammar

end LoxExpr
