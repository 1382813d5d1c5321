import LoxExpr.Proofs.Grammar.Phrase

/-!
# What the parser accepts

The parser accepts exactly the trees of the grammar that are within the limit. One direction is
`Run.reads` with `Run.depth_le`; this module adds the other. A task that stands in front of a phrase
of its rule, with nothing behind it that could carry the phrase on, hands back the tree of the
phrase, unless the limit stops it, and then the tree is too deep (`Finds`). A level finds a phrase
of its own tier turn by turn: reading the operands and operators of the phrase leads to the loop
that has folded all of them (`Folds`).
-/

namespace LoxExpr

open LoxExpr.Parser

namespace Grammar

/-- The limit stops the task, and that many nodes below the levels entered so far are too many. -/
def TooDeep (t : Task) (p : Parser) (depth : Nat) : Prop :=
  (∃ pos q, Run t p (.error ⟨.tooDeep p.limit, pos⟩ q)) ∧ max p.limit 1 < p.nesting + depth

/-- The task hands back the tree of the tokens, wherever these end its phrase. -/
def Finds (t : Task) (e : Expr) (ts : List Token) : Prop :=
  ∀ p rest, p.ahead = ts ++ rest → Stops t.rank rest →
    (∃ q, Run t p (.ok e q) ∧ q.ahead = rest) ∨ TooDeep t p e.depth

/-- The level gets to the loop that has folded the tokens into the tree. -/
def Folds (tier : Tier) (e : Expr) (ts : List Token) : Prop :=
  ∀ p rest, p.ahead = ts ++ rest → Stops (tier.rank + 1) rest →
    (∃ q, q.ahead = rest ∧ q.limit = p.limit ∧ q.nesting = p.nesting ∧
      ∀ r, Run (.loop tier e) q r → Run (.level tier) p r) ∨ TooDeep (.level tier) p e.depth

/-- A limit that stops a part of a task stops the task. -/
theorem TooDeep.lift {t t' : Task} {p p' : Parser} {depth depth' : Nat} (h : TooDeep t p depth)
    (hlimit : p.limit = p'.limit) (hdepth : p.nesting + depth ≤ p'.nesting + depth')
    (hrun : ∀ fault q, Run t p (.error fault q) → Run t' p' (.error fault q)) :
    TooDeep t' p' depth' := by
  obtain ⟨⟨pos, q, hq⟩, hlt⟩ := h
  rw [hlimit] at hq hlt
  exact ⟨⟨pos, q, hrun _ q hq⟩, Nat.lt_of_lt_of_le hlt hdepth⟩

theorem one_lt_succ_depth (e : Expr) : 1 < 1 + e.depth := by
  have hpos := e.depth_pos
  omega

/-- The last step of a task that builds a node. -/
theorem built_or_tooDeep {t : Task} {p q : Parser} {e : Expr} {pos : Position}
    (hlimit : q.limit = p.limit) (hdepth : 1 < e.depth)
    (hrun : ∀ r, bounded e pos q = r → Run t p r) :
    Run t p (.ok e q) ∨ TooDeep t p e.depth := by
  by_cases hdeep : q.limit < e.depth
  · have hbounded : bounded e pos q = .error (q.tooDeep pos) q := if_pos hdeep
    have herror := hrun _ hbounded
    rw [tooDeep, hlimit] at herror
    exact Or.inr ⟨⟨pos, q, herror⟩, by omega⟩
  · exact Or.inl (hrun _ (if_neg hdeep))

/-- A run that succeeds has the limit and the nesting that it began with. -/
theorem Run.frame {t : Task} {p q : Parser} {e : Expr} (h : Run t p (.ok e q)) :
    q.limit = p.limit ∧ q.nesting = p.nesting :=
  ⟨h.onward.limit_eq, h.nesting_eq⟩

/-! ## From tier to tier -/

/-- A level that has folded all the tokens ends in front of the rest. -/
theorem finds_level {tier : Tier} {e : Expr} {ts : List Token} (h : Folds tier e ts) :
    Finds (.level tier) e ts := by
  intro p rest hts hstops
  rcases h p rest hts (hstops.mono (Nat.le_succ _)) with ⟨q, hq, -, -, hloop⟩ | hdeep
  · -- no operator of the tier follows, so the loop ends at once
    have hoff : q.offers tier.rule.kinds = false := by
      apply Stops.offers_eq_false
      rw [hq]
      exact hstops
    exact Or.inl ⟨q, hloop _ (.loopEnds hoff), hq⟩
  · exact Or.inr hdeep

/-- A phrase of the operand is what the level has folded at first. -/
theorem folds_of_operand (tier : Tier) {e : Expr} {ts : List Token}
    (h : Finds tier.operand e ts) : Folds tier e ts := by
  intro p rest hts hstops
  rw [← rank_operand] at hstops
  rcases h (p.record (.entered tier.rule p.cursor)) rest hts hstops with ⟨q, hq, hrest⟩ | hdeep
  · obtain ⟨hlimit, hnesting⟩ := hq.frame
    exact Or.inl ⟨q, hrest, hlimit, hnesting, fun r hr => .level hq hr⟩
  · exact Or.inr (hdeep.lift rfl (Nat.le_refl _) fun _ _ hrun => .levelFails hrun)

/-- A phrase that a tier folds is an operand of all looser tiers. -/
theorem Folds.looser {tier tier' : Tier} {e : Expr} {ts : List Token} (h : Folds tier e ts)
    (hrank : tier'.rank ≤ tier.rank) : Folds tier' e ts := by
  -- each tier takes in the next tighter one, and the tiers in between are chained
  have hcomparison (h : Folds .comparison e ts) : Folds .equality e ts :=
    folds_of_operand .equality (finds_level h)
  have hterm (h : Folds .term e ts) : Folds .comparison e ts :=
    folds_of_operand .comparison (finds_level h)
  have hfactor (h : Folds .factor e ts) : Folds .term e ts :=
    folds_of_operand .term (finds_level h)
  cases tier <;> cases tier'
  case equality.equality | comparison.comparison | term.term | factor.factor => exact h
  case comparison.equality => exact hcomparison h
  case term.comparison => exact hterm h
  case term.equality => exact hcomparison (hterm h)
  case factor.term => exact hfactor h
  case factor.comparison => exact hterm (hfactor h)
  case factor.equality => exact hcomparison (hterm (hfactor h))
  all_goals exact absurd hrank (by decide)

/-- A unary expression is an operand of every tier. -/
theorem folds_of_unary {e : Expr} {ts : List Token} (h : Finds .unary e ts) (tier : Tier) :
    Folds tier e ts :=
  (folds_of_operand .factor h).looser (by cases tier <;> decide)

/-- An expression is a phrase of the loosest tier. -/
theorem finds_expression {e : Expr} {ts : List Token} (h : Finds (.level .equality) e ts) :
    Finds .expression e ts := by
  intro p rest hts hstops
  rcases h (p.record (.entered .expression p.cursor)) rest hts hstops with ⟨q, hq, hrest⟩ | hdeep
  · exact Or.inl ⟨q, .expression hq, hrest⟩
  · exact Or.inr (hdeep.lift rfl (Nat.le_refl _) fun _ _ hrun => .expression hrun)

/-! ## Phrases that begin with their own token -/

/-- A task one level down finds its phrase, or that level is one too many. -/
theorem Finds.nested {t : Task} {e : Expr} {ts : List Token} (h : Finds t e ts) (p : Parser)
    (rest : List Token) (hts : p.ahead = ts ++ rest) (hstops : Stops t.rank rest) :
    (∃ q, Run (.nested t) p (.ok e q) ∧ q.ahead = rest) ∨ TooDeep (.nested t) p (1 + e.depth) := by
  rcases Nat.lt_or_ge (p.nesting + 1) p.limit with hfits | hdeep
  · rcases h p.deeper rest hts hstops with ⟨q, hq, hrest⟩ | hdeep
    · exact Or.inl ⟨q.shallower, .nested hfits hq, hrest⟩
    · refine Or.inr (hdeep.lift rfl ?_ fun _ _ hrun => .nestedFails hfits hrun)
      show p.nesting + 1 + e.depth ≤ p.nesting + (1 + e.depth)
      omega
  · -- the level is one too many, and the phrase is at least one deep below it
    have hpos : 0 < e.depth := e.depth_pos
    exact Or.inr ⟨⟨_, _, .tooNested hdeep⟩, by omega⟩

/-- A literal is found by the unary rule, which finds no operator in front of it. -/
theorem finds_literal {t : Token} {v : Literal} (hkind : t.kind.IsLiteral) (hv : t.Carries v) :
    Finds .unary (.literal v) [t] := by
  intro p rest hts _
  obtain ⟨hend, rfl, hrest⟩ := of_ahead_eq_cons hts
  -- a literal is no prefix operator, so the unary expression passes it on to the primary
  have hunary : p.offers Rule.unary.kinds = false := by
    apply offers_eq_false_of_not_mem
    rw [Kind.mem_unary_kinds_iff]
    exact hkind.not_isPrefixOp
  have hprimary : p.offers Rule.primary.kinds = true :=
    offers_eq_true_iff.mpr ⟨hend, Kind.mem_primary_kinds_iff.mpr hkind⟩
  exact Or.inl ⟨p.advance, .unprefixed hunary (.literal hprimary (Token.value_eq_ok_iff.mpr hv)),
    hrest⟩

/-- A prefix operator in front of a unary expression makes one again, one level further in. -/
theorem finds_unary {operator : Token} {operand : Expr} {ts : List Token}
    (hop : operator.kind.IsPrefixOp) (h : Finds .unary operand ts) :
    Finds .unary (.unary operator operand) (operator :: ts) := by
  intro p rest hts hstops
  obtain ⟨hend, rfl, hadv⟩ := of_ahead_eq_cons hts
  have hoff : p.offers Rule.unary.kinds = true :=
    offers_eq_true_iff.mpr ⟨hend, Kind.mem_unary_kinds_iff.mpr hop⟩
  have hlimit := limit_advance p
  have hnesting := nesting_advance p
  -- behind the operator, the operand is found one level further in, or is too deep for that
  rcases h.nested p.advance rest hadv hstops with ⟨q, hq, hrest⟩ | hdeep
  · have hdepth : 1 < (Expr.unary p.current operand).depth := one_lt_succ_depth operand
    rcases built_or_tooDeep (hq.frame.1.trans hlimit) hdepth
      (fun r hr => Run.prefixed hoff hq hr) with hrun | hdeep
    · exact Or.inl ⟨q, hrun, hrest⟩
    · exact Or.inr hdeep
  · exact Or.inr (hdeep.lift hlimit (Nat.le_of_eq (by rw [hnesting, Expr.depth])) fun _ _ hrun =>
      .prefixFails hoff hrun)

/-- An expression between parentheses is found by the unary rule, one level further in. -/
theorem finds_grouping {opening closing : Token} {inner : Expr} {ts : List Token}
    (hopen : opening.kind = .openParen) (hclose : closing.kind = .closeParen)
    (h : Finds .expression inner ts) :
    Finds .unary (.grouping inner) (opening :: (ts ++ [closing])) := by
  intro p rest hts _
  rw [List.cons_append, List.append_assoc] at hts
  obtain ⟨hend, rfl, hadv⟩ := of_ahead_eq_cons hts
  -- neither a prefix operator nor a literal stands here
  have hunary : p.offers Rule.unary.kinds = false :=
    offers_eq_false_of_not_mem (by rw [hopen]; decide)
  have hprimary : p.offers Rule.primary.kinds = false :=
    offers_eq_false_of_not_mem (by rw [hopen]; decide)
  have hoff : p.offers [.openParen] = true :=
    offers_eq_true_iff.mpr ⟨hend, List.mem_singleton.mpr hopen⟩
  have hrun : ∀ r, Run (.grouping p.current) p.advance r → Run .unary p r :=
    fun r hr => .unprefixed hunary (.opened hprimary hoff hr)
  -- the closing parenthesis is no operator, so the inner expression ends in front of it
  have hstops : Stops Task.expression.rank ([closing] ++ rest) := by
    apply stops_cons
    intro tier htier
    rw [hclose] at htier
    cases htier
  have hlimit := limit_advance p
  have hnesting := nesting_advance p
  rcases h.nested p.advance ([closing] ++ rest) hadv hstops with ⟨q, hq, hrest⟩ | hdeep
  · obtain ⟨hqend, hqcur, hqadv⟩ := of_ahead_eq_cons hrest
    have hcheck : q.check .closeParen = true :=
      check_eq_true_iff.mpr ⟨hqend, by rw [hqcur]; exact hclose⟩
    have hdepth : 1 < (Expr.grouping inner).depth := one_lt_succ_depth inner
    have hframe : q.advance.limit = p.limit := by
      rw [limit_advance, hq.frame.1, hlimit]
    rcases built_or_tooDeep hframe hdepth
      (fun r hr => hrun r (.closed hq hcheck hr)) with hdone | hdeep
    · exact Or.inl ⟨q.advance, hdone, hqadv⟩
    · exact Or.inr hdeep
  · exact Or.inr (hdeep.lift hlimit (Nat.le_of_eq (by rw [hnesting, Expr.depth])) fun _ _ hfail =>
      hrun _ (.groupingFails hfail))

/-! ## Every phrase is found -/

/-- One turn of the loop: the left part is folded already, then come operator and right operand. -/
theorem folds_binary {tier : Tier} {left right : Expr} {operator : Token} {ts us : List Token}
    (hop : operator.kind.tier? = some tier) (hleft : Folds tier left ts)
    (hright : Finds tier.operand right us) :
    Folds tier (.binary left operator right) (ts ++ operator :: us) := by
  intro p rest hts hstops
  rw [List.append_assoc, List.cons_append] at hts
  -- the left part ends in front of the operator, which binds no more tightly
  have hstopsLeft : Stops (tier.rank + 1) (operator :: (us ++ rest)) := by
    apply stops_cons
    intro tier' htier'
    rw [hop] at htier'
    cases htier'
    exact Nat.lt_succ_self _
  rcases hleft p _ hts hstopsLeft with ⟨q, hq, hlimit, hnesting, hloop⟩ | hdeep
  · -- the loop stands in front of the operator, with the left part folded
    obtain ⟨hend, rfl, hadv⟩ := of_ahead_eq_cons hq
    have hoff : q.offers tier.rule.kinds = true :=
      offers_eq_true_iff.mpr ⟨hend, Kind.mem_kinds_iff.mpr hop⟩
    have hlimitAdv : q.advance.limit = p.limit := (limit_advance q).trans hlimit
    have hnestingAdv : q.advance.nesting = p.nesting := (nesting_advance q).trans hnesting
    rcases hright q.advance rest hadv (by rw [rank_operand]; exact hstops) with
      ⟨s, hs, hrest⟩ | hdeep
    · have hlimitS : s.limit = p.limit := hs.frame.1.trans hlimitAdv
      have hnestingS : s.nesting = p.nesting := hs.frame.2.trans hnestingAdv
      by_cases hfits : (Expr.binary left q.current right).depth ≤ s.limit
      · exact Or.inl ⟨s, hrest, hlimitS, hnestingS, fun r hr =>
          hloop r (.loopTurns hoff hs hfits hr)⟩
      · -- the node is deeper than the limit already without the levels above it
        have hpos := left.depth_pos
        have herror := hloop _ (.loopTooDeep hoff hs (Nat.lt_of_not_le hfits))
        rw [tooDeep, hlimitS] at herror
        refine Or.inr ⟨⟨_, _, herror⟩, ?_⟩
        rw [hlimitS] at hfits
        rw [Expr.depth] at hfits ⊢
        omega
    · -- a right operand that is too deep makes the node too deep
      refine Or.inr (hdeep.lift hlimitAdv ?_ fun _ _ hrun => hloop _ (.loopFails hoff hrun))
      rw [hnestingAdv, Expr.depth]
      omega
  · refine Or.inr (hdeep.lift rfl ?_ fun _ _ hrun => hrun)
    rw [Expr.depth]
    omega

/--
The tree of every phrase is found: by all levels of its rule and looser ones, and by the unary rule
if its root is no binary operator.
-/
theorem finds_of_yields {e : Expr} {ts : List Token} (hyields : e.Yields ts) (hnormal : e.Normal) :
    (∀ tier : Tier, tier.rank ≤ e.rank → Folds tier e ts) ∧
      (Rule.unary.rank ≤ e.rank → Finds .unary e ts) := by
  -- The induction is on the tree. A tree that binds as tightly as a tier is folded by it, and one
  -- that binds as tightly as a prefix operator is a unary expression.
  induction hyields with
  | literal hkind hv =>
    have hfinds := finds_literal hkind hv
    exact ⟨fun tier _ => folds_of_unary hfinds tier, fun _ => hfinds⟩
  | unary _ ih =>
    obtain ⟨hop, hrank, hoperand⟩ := hnormal
    have hfinds := finds_unary hop ((ih hoperand).2 hrank)
    exact ⟨fun tier _ => folds_of_unary hfinds tier, fun _ => hfinds⟩
  | @binary left right operator ts us _ _ ihLeft ihRight =>
    obtain ⟨tier, hop, hleft, hright, hnormalLeft, hnormalRight⟩ := hnormal
    obtain ⟨hfolds, hunary⟩ := ihRight hnormalRight
    -- the right operand is a phrase of the next tighter rule
    have hoperand : Finds tier.operand right us := by
      cases tier with
      | equality => exact finds_level (hfolds .comparison hright)
      | comparison => exact finds_level (hfolds .term hright)
      | term => exact finds_level (hfolds .factor hright)
      | factor => exact hunary hright
    have hbinary := folds_binary hop ((ihLeft hnormalLeft).1 tier hleft) hoperand
    -- the node is an operand of every looser tier, but never of a prefix operator
    rw [Expr.rank_binary hop]
    refine ⟨fun tier' hrank => hbinary.looser hrank, fun hrank => ?_⟩
    exact absurd hrank (by cases tier <;> decide)
  | grouping hopen hclose _ ih =>
    have hinner := (ih hnormal).1 .equality (Expr.equality_le_rank hnormal)
    have hfinds := finds_grouping hopen hclose (finds_expression (finds_level hinner))
    exact ⟨fun tier _ => folds_of_unary hfinds tier, fun _ => hfinds⟩

end Grammar

/-! ## The parser -/

open Grammar

/-- The tree of the tokens is found as an expression. -/
theorem finds_sentence {e : Expr} {ts : List Token} (h : e.IsTreeOf ts) :
    Finds .expression e ts :=
  finds_expression (finds_level
    ((finds_of_yields h.yields h.normal).1 .equality (Expr.equality_le_rank h.normal)))

/-- What the parser accepts is the tree of its tokens, and within the limit. -/
theorem tree_of_parse_eq_ok {tokens : Array Token} {limit : Nat} {e : Expr} {q : Parser}
    (h : parse tokens limit = .ok e q) :
    e.IsTreeOf (beforeEnd tokens.toList) ∧ e.depth ≤ max limit 1 := by
  -- the run of the expression tells what was read, and the parse adds that nothing is left
  have hrun := run_perform .expression (ofTokens tokens limit)
  rw [parse_of_run hrun] at h
  cases hres : Task.expression.perform (ofTokens tokens limit) with
  | error fault q' => rw [hres] at h; cases h
  | ok e' q' =>
    rw [hres] at h hrun
    simp only [Outcome.conclude] at h
    split at h
    · -- nothing is ahead of the parser any more, so the phrase is all of the tokens
      rename_i hend
      cases h
      obtain ⟨ts, hts, hphrase⟩ := hrun.reads
      have hdepth := hrun.depth_le trivial
      rw [ahead_ofTokens, ahead_eq_nil_iff.mpr hend, List.append_nil] at hts
      rw [limit_ofTokens] at hdepth
      rw [hts]
      exact ⟨hphrase.tree, hdepth⟩
    · cases h

/-- The tree of the tokens is accepted, or it is too deep and the limit stops the parser. -/
theorem parse_of_tree {tokens : Array Token} {e : Expr}
    (h : e.IsTreeOf (beforeEnd tokens.toList)) (limit : Nat) :
    (∃ q, parse tokens limit = .ok e q) ∨
      (∃ pos q, parse tokens limit = .error ⟨.tooDeep limit, pos⟩ q) ∧ max limit 1 < e.depth := by
  have hahead : (ofTokens tokens limit).ahead = beforeEnd tokens.toList ++ [] := by
    rw [ahead_ofTokens, List.append_nil]
  -- all the tokens are found as one expression, and then nothing is left
  rcases finds_sentence h _ [] hahead (stops_nil _) with ⟨q, hrun, hnil⟩ | ⟨⟨pos, q, hrun⟩, hlt⟩
  · left
    rw [parse_of_run hrun]
    exact ⟨_, if_pos (ahead_eq_nil_iff.mp hnil)⟩
  · right
    rw [parse_of_run hrun]
    rw [limit_ofTokens, nesting_ofTokens, Nat.zero_add] at hlt
    rw [limit_ofTokens]
    exact ⟨⟨pos, _, rfl⟩, hlt⟩

/-- Read with a limit that neither exceeds, two trees of the same tokens are the same. -/
theorem tree_unique {tokens : Array Token} {e e' : Expr}
    (h : e.IsTreeOf (beforeEnd tokens.toList)) (h' : e'.IsTreeOf (beforeEnd tokens.toList)) :
    e' = e := by
  -- under a limit that is high enough for both, the parser hands out either tree
  have haccept {d : Expr} (hd : d.IsTreeOf (beforeEnd tokens.toList))
      (hle : d.depth ≤ max e.depth e'.depth) :
      ∃ q, parse tokens (max e.depth e'.depth) = .ok d q := by
    rcases parse_of_tree hd (max e.depth e'.depth) with hok | ⟨-, hlt⟩
    · exact hok
    · omega
  obtain ⟨q, hq⟩ := haccept h (Nat.le_max_left _ _)
  obtain ⟨q', hq'⟩ := haccept h' (Nat.le_max_right _ _)
  rw [hq] at hq'
  cases hq'
  rfl

/--
**The parser accepts exactly its grammar, within the limit.** It hands back a tree if and only if
that is the tree of the tokens before the end of input and is not too deep. A token sequence has at
most one tree, and one that is too deep fails for that reason.
-/
theorem parse_eq_ok_iff_isTreeOf (tokens : Array Token) (limit : Nat) (e : Expr) :
    ((∃ q, parse tokens limit = .ok e q) ↔
      e.IsTreeOf (beforeEnd tokens.toList) ∧ e.depth ≤ max limit 1) ∧
    (e.IsTreeOf (beforeEnd tokens.toList) →
      (∀ e', e'.IsTreeOf (beforeEnd tokens.toList) → e' = e) ∧
      (max limit 1 < e.depth →
        ∃ pos q, parse tokens limit = .error ⟨.tooDeep limit, pos⟩ q)) := by
  refine ⟨⟨fun ⟨q, hq⟩ => tree_of_parse_eq_ok hq, fun ⟨htree, hdepth⟩ => ?_⟩,
    fun htree => ⟨fun e' h' => tree_unique htree h', fun hdeep => ?_⟩⟩
  · rcases parse_of_tree htree limit with hok | ⟨-, hlt⟩
    · exact hok
    · omega
  · rcases parse_of_tree htree limit with ⟨q, hq⟩ | ⟨herror, -⟩
    · -- a tree that came out would be no deeper than the limit
      have hle := (tree_of_parse_eq_ok hq).2
      omega
    · exact herror

/-- The tokens of `!!true`, without an end of input and without attached values. -/
def doubleNot : Array Token := #[
  ⟨.not, "!", none, ⟨⟨0, "t"⟩, ⟨1, "t"⟩⟩⟩, ⟨.not, "!", none, ⟨⟨1, "t"⟩, ⟨2, "t"⟩⟩⟩,
  ⟨.kwTrue, "true", none, ⟨⟨2, "t"⟩, ⟨6, "t"⟩⟩⟩]

/-- The tree of `!!true`, with the operators at their places. -/
def doubleNotTree : Expr :=
  .unary ⟨.not, "!", none, ⟨⟨0, "t"⟩, ⟨1, "t"⟩⟩⟩
    (.unary ⟨.not, "!", none, ⟨⟨1, "t"⟩, ⟨2, "t"⟩⟩⟩ (.literal (.boolean true)))

/-- One node too many for a limit of two. -/
theorem parse_doubleNot_eq_tooDeep :
    doubleNotTree.IsTreeOf (beforeEnd doubleNot.toList) ∧ max 2 1 < doubleNotTree.depth ∧
      ∃ pos q, parse doubleNot 2 = .error ⟨.tooDeep 2, pos⟩ q := by
  have hnormal : doubleNotTree.Normal := ⟨by decide, by decide, by decide, by decide, trivial⟩
  have hyields : doubleNotTree.Yields (beforeEnd doubleNot.toList) :=
    .unary (.unary (.literal (by decide) (.kwTrue rfl rfl)))
  have hdeep : max 2 1 < doubleNotTree.depth := by decide
  exact ⟨⟨hnormal, hyields⟩, hdeep,
    ((parse_eq_ok_iff_isTreeOf doubleNot 2 doubleNotTree).2 ⟨hnormal, hyields⟩).2 hdeep⟩

end LoxExpr
