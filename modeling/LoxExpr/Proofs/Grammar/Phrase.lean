import LoxExpr.Proofs.Grammar.Run

/-!
# What the procedures read

Every procedure that succeeds has read a phrase of its rule: the tokens that it consumed are the
yield of the tree that it hands back, and that tree is normal and binds at least as tightly as the
rule (`Run.reads`). It stops only in front of a token that cannot carry the phrase on
(`Run.leaves`), and it hands back no tree deeper than the limit (`Run.depth_le`).
-/

namespace LoxExpr

open LoxExpr.Parser

namespace Expr

/-- The tree of a phrase: it binds at least that tightly and is the tree of the tokens. -/
structure IsPhrase (e : Expr) (rank : Nat) (ts : List Token) : Prop where
  rank_le : rank ≤ e.rank
  tree : e.IsTreeOf ts

/-- A phrase that binds tightly is a phrase of every looser rule. -/
theorem IsPhrase.mono {e : Expr} {rank rank' : Nat} {ts : List Token} (h : e.IsPhrase rank ts)
    (hle : rank' ≤ rank) : e.IsPhrase rank' ts :=
  ⟨Nat.le_trans hle h.rank_le, h.tree⟩

/-- A literal token is a phrase of the tightest rule. -/
theorem isPhrase_literal {t : Token} {v : Literal} (hkind : t.kind.IsLiteral)
    (hv : t.Carries v) : (literal v).IsPhrase Rule.primary.rank [t] :=
  ⟨Nat.le_refl _, trivial, .literal hkind hv⟩

/-- A prefix operator in front of a phrase that binds as tightly makes one again. -/
theorem IsPhrase.unary {operator : Token} {operand : Expr} {ts : List Token}
    (hop : operator.kind.IsPrefixOp) (h : operand.IsPhrase Rule.unary.rank ts) :
    (Expr.unary operator operand).IsPhrase Rule.unary.rank (operator :: ts) :=
  ⟨Nat.le_refl _, ⟨hop, h.rank_le, h.tree.normal⟩, .unary h.tree.yields⟩

/-- Folding to the left: the accumulator may be of the tier itself, the new operand is tighter. -/
theorem IsPhrase.binary {tier : Tier} {left right : Expr} {operator : Token}
    {ts us : List Token} (hop : operator.kind.tier? = some tier)
    (hleft : left.IsPhrase tier.rank ts) (hright : right.IsPhrase (tier.rank + 1) us) :
    (Expr.binary left operator right).IsPhrase tier.rank (ts ++ operator :: us) where
  rank_le := Nat.le_of_eq (rank_binary hop).symm
  tree :=
    ⟨⟨tier, hop, hleft.rank_le, hright.rank_le, hleft.tree.normal, hright.tree.normal⟩,
      .binary hleft.tree.yields hright.tree.yields⟩

/-- Parentheses make a phrase of the tightest rule out of any phrase. -/
theorem IsPhrase.grouping {rank : Nat} {inner : Expr} {opening closing : Token} {ts : List Token}
    (hopen : opening.kind = .openParen) (hclose : closing.kind = .closeParen)
    (h : inner.IsPhrase rank ts) :
    (Expr.grouping inner).IsPhrase Rule.primary.rank (opening :: (ts ++ [closing])) :=
  ⟨Nat.le_refl _, h.tree.normal, .grouping hopen hclose h.tree.yields⟩

end Expr

namespace Grammar

def Task.rank : Task → Nat
  | .expression => Rule.equality.rank
  | .level tier => tier.rank
  | .loop tier _ => tier.rank
  | .nested t => t.rank
  | .unary => Rule.unary.rank
  | .primary => Rule.primary.rank
  | .grouping _ => Rule.primary.rank

/-- The operand of a tier is of the next tighter rule. -/
theorem rank_operand (tier : Tier) : tier.operand.rank = tier.rank + 1 := by
  cases tier <;> rfl

/--
What a task makes of the tokens that it consumes. A loop continues the phrase that it was given, and
a grouping the one that its parenthesis opened.
-/
def Task.Reads : Task → List Token → Expr → Prop
  | .loop tier left, ts, e => ∀ us, left.IsPhrase tier.rank us → e.IsPhrase tier.rank (us ++ ts)
  | .nested t, ts, e => t.Reads ts e
  | .grouping opening, ts, e =>
    opening.kind = .openParen → e.IsPhrase Rule.primary.rank (opening :: ts)
  | t, ts, e => e.IsPhrase t.rank ts

/-- What the operand of a tier reads is a phrase of the next tighter rule. -/
theorem reads_operand {tier : Tier} {ts : List Token} {e : Expr} :
    tier.operand.Reads ts e ↔ e.IsPhrase (tier.rank + 1) ts := by
  cases tier <;> rfl

/-! ## The phrase that was read -/

/-- The tokens that a task consumed, and the tree that it made of them. -/
def Consumes (t : Task) (p : Parser) (e : Expr) (q : Parser) : Prop :=
  ∃ ts, p.ahead = ts ++ q.ahead ∧ t.Reads ts e

/-- A run that succeeds has read a phrase of its rule, and its tree is the tree of that phrase. -/
theorem Run.reads {t : Task} {p : Parser} {r : Outcome} (h : Run t p r) :
    Outcome.Meets r (Consumes t p) (fun _ _ => True) := by
  -- The induction is on the run. The tokens of a phrase are those of its parts in a row, with the
  -- operators and parentheses between them; a loop makes the phrase that it is given longer.
  induction h with
  | expression _ ih => exact ih
  | levelFails _ _ => trivial
  | level _ _ ihFirst ihRest =>
    obtain ⟨ts, hts, hfirst⟩ := ihFirst
    refine ihRest.imp (fun e q hrest => ?_) (fun _ _ h => h)
    obtain ⟨us, hus, hloop⟩ := hrest
    refine ⟨ts ++ us, ?_, hloop ts ((reads_operand.mp hfirst).mono (Nat.le_succ _))⟩
    rw [List.append_assoc, ← hus]
    exact hts
  | loopEnds _ =>
    refine ⟨[], rfl, fun us hus => ?_⟩
    rw [List.append_nil]
    exact hus
  | loopFails _ _ _ => trivial
  | loopTooDeep _ _ _ _ => trivial
  | @loopTurns tier p _ left _ _ hoff _ _ _ ih ihRest =>
    obtain ⟨ts, hts, hright⟩ := ih
    obtain ⟨hend, hkind⟩ := offers_eq_true_iff.mp hoff
    refine ihRest.imp (fun e q hrest => ?_) (fun _ _ h => h)
    obtain ⟨us, hus, hloop⟩ := hrest
    refine ⟨p.current :: ts ++ us, ?_, fun ws hws => ?_⟩
    · rw [ahead_advance hend, hts, hus]
      simp
    · -- one turn makes the phrase of `left` longer by the operator and its right operand
      have hnode := Expr.IsPhrase.binary (Kind.mem_kinds_iff.mp hkind) hws
        (reads_operand.mp hright)
      have hphrase := hloop _ hnode
      rwa [List.append_assoc] at hphrase
  | tooNested _ => trivial
  | nestedFails _ _ _ => trivial
  | nested _ _ ih => exact ih
  | prefixFails _ _ _ => trivial
  -- the bound may turn the node into a fault, but not into another node
  | @prefixed p _ _ _ hoff _ hr ih =>
    obtain ⟨ts, hts, hoperand⟩ := ih
    obtain ⟨hend, hkind⟩ := offers_eq_true_iff.mp hoff
    refine (meets_bounded hr).imp (fun e q hbuilt => ?_) (fun _ _ _ => trivial)
    obtain ⟨rfl, rfl, -⟩ := hbuilt
    refine ⟨p.current :: ts, ?_, Expr.IsPhrase.unary (Kind.mem_unary_kinds_iff.mp hkind) hoperand⟩
    rw [ahead_advance hend, hts]
    rfl
  | unprefixed _ _ ih =>
    refine ih.imp (fun e q hprimary => ?_) (fun _ _ h => h)
    obtain ⟨ts, hts, hphrase⟩ := hprimary
    exact ⟨ts, hts, Expr.IsPhrase.mono hphrase (by decide)⟩
  | @literal p v hoff hv =>
    obtain ⟨hend, hkind⟩ := offers_eq_true_iff.mp hoff
    refine ⟨[p.current], ahead_advance hend, ?_⟩
    exact Expr.isPhrase_literal (Kind.mem_primary_kinds_iff.mp hkind) (Token.value_eq_ok_iff.mp hv)
  | badLiteral _ _ => trivial
  | @opened p r _ hopen _ ih =>
    obtain ⟨hend, hkind⟩ := offers_eq_true_iff.mp hopen
    refine ih.imp (fun e q hgrouping => ?_) (fun _ _ h => h)
    obtain ⟨ts, hts, hphrase⟩ := hgrouping
    refine ⟨p.current :: ts, ?_, hphrase (List.mem_singleton.mp hkind)⟩
    rw [ahead_advance hend, hts]
    rfl
  | missing _ _ => trivial
  | groupingFails _ _ => trivial
  | unclosed _ _ _ => trivial
  | @closed opening p q inner r _ hclose hr ih =>
    obtain ⟨ts, hts, hinner⟩ := ih
    -- the closing parenthesis is the last token of the phrase
    obtain ⟨hend, hkind⟩ := check_eq_true_iff.mp hclose
    refine (meets_bounded hr).imp (fun e q' hbuilt => ?_) (fun _ _ _ => trivial)
    obtain ⟨rfl, rfl, -⟩ := hbuilt
    refine ⟨ts ++ [q.current], ?_, fun hopen => Expr.IsPhrase.grouping hopen hkind hinner⟩
    rw [hts, ahead_advance hend]
    simp

/-! ## The token that was left -/

/-- The tokens do not begin with an operator that binds that tightly. -/
def Stops (rank : Nat) (ts : List Token) : Prop :=
  ∀ t ∈ ts.head?, ∀ tier, t.kind.tier? = some tier → tier.rank < rank

theorem stops_nil (rank : Nat) : Stops rank [] := by
  intro t ht
  cases ht

/-- What goes on or not is decided by the first token that is left. -/
theorem stops_cons {rank : Nat} {t : Token} {ts : List Token}
    (h : ∀ tier, t.kind.tier? = some tier → tier.rank < rank) : Stops rank (t :: ts) := by
  intro u hu
  cases hu
  exact h

/-- What does not carry a loose phrase on does not carry a tighter one on. -/
theorem Stops.mono {rank rank' : Nat} {ts : List Token} (h : Stops rank ts) (hle : rank ≤ rank') :
    Stops rank' ts :=
  fun t ht tier htier => Nat.lt_of_lt_of_le (h t ht tier htier) hle

/-- No binary operator binds as tightly as a prefix operator. -/
theorem stops_of_unary_le {rank : Nat} (hrank : Rule.unary.rank ≤ rank) (ts : List Token) :
    Stops rank ts := by
  intro t _ tier _
  have hlt : tier.rank < Rule.unary.rank := by cases tier <;> decide
  omega

/-- The tiers have different ranks. -/
theorem tier_eq_of_rank_eq {tier tier' : Tier} (h : tier'.rank = tier.rank) : tier' = tier := by
  cases tier <;> cases tier' <;> first | rfl | cases h

/-- In front of no operator of its tier, a loop is not offered any. -/
theorem Stops.offers_eq_false {tier : Tier} {p : Parser} (h : Stops tier.rank p.ahead) :
    p.offers tier.rule.kinds = false := by
  cases hoff : p.offers tier.rule.kinds with
  | false => rfl
  | true =>
    obtain ⟨hend, hkind⟩ := offers_eq_true_iff.mp hoff
    have hhead : p.current ∈ p.ahead.head? := by rw [ahead_advance hend]; rfl
    have hlt := h p.current hhead tier (Kind.mem_kinds_iff.mp hkind)
    exact absurd hlt (Nat.lt_irrefl _)

/-- A loop that is not offered another operator of its tier leaves none. -/
theorem Stops.of_offers_eq_false {tier : Tier} {p : Parser} (h : Stops (tier.rank + 1) p.ahead)
    (hoff : p.offers tier.rule.kinds = false) : Stops tier.rank p.ahead := by
  intro t ht tier' htier'
  have hle : tier'.rank < tier.rank + 1 := h t ht tier' htier'
  rcases Nat.lt_or_ge tier'.rank tier.rank with hlt | hge
  · exact hlt
  · -- an operator of the tier itself would have been offered
    have hsame : tier' = tier := tier_eq_of_rank_eq (by omega)
    obtain ⟨ts, hts⟩ := List.head?_eq_some_iff.mp ht
    obtain ⟨hend, hcur, -⟩ := of_ahead_eq_cons hts
    have hoff' : p.offers tier.rule.kinds = true := by
      rw [offers_eq_true_iff, Kind.mem_kinds_iff, hcur, ← hsame]
      exact ⟨hend, htier'⟩
    rw [hoff] at hoff'
    cases hoff'

/-- A loop starts behind an operand, in front of no tighter operator. -/
def Task.Enters : Task → Parser → Prop
  | .loop tier _, p => Stops (tier.rank + 1) p.ahead
  | .nested t, p => t.Enters p
  | _, _ => True

theorem enters_operand (tier : Tier) (p : Parser) : tier.operand.Enters p := by
  cases tier <;> trivial

/-- Whether a task can be begun depends on the tokens ahead only. -/
theorem Task.enters_of_ahead_eq {t : Task} {p q : Parser} (h : q.ahead = p.ahead)
    (hp : t.Enters p) : t.Enters q := by
  induction t with
  | loop tier left =>
    show Stops _ q.ahead
    rw [h]
    exact hp
  | nested t ih => exact ih hp
  | _ => trivial

/-- A task stops in front of a token that cannot carry its phrase on. -/
theorem Run.leaves {t : Task} {p : Parser} {r : Outcome} (h : Run t p r) (hp : t.Enters p) :
    Outcome.Meets r (fun _ q => Stops t.rank q.ahead) (fun _ _ => True) := by
  have hprimary : Rule.unary.rank ≤ Rule.primary.rank := by decide
  -- what binds as tightly as a prefix operator is carried on by no token at all
  have htight {r : Outcome} {rank : Nat} (hrank : Rule.unary.rank ≤ rank) :
      Outcome.Meets r (fun _ q => Stops rank q.ahead) (fun _ _ => True) := by
    cases r with
    | ok e q => exact stops_of_unary_le hrank _
    | error fault q => trivial
  induction h with
  | expression _ ih => exact ih trivial
  | levelFails _ _ => trivial
  -- the first operand leaves no tighter operator, which is what the loop needs to begin
  | @level tier _ _ _ _ _ _ ihFirst ihRest =>
    have hfirst := ihFirst (enters_operand tier _)
    rw [rank_operand] at hfirst
    exact ihRest hfirst
  | loopEnds hoff => exact Stops.of_offers_eq_false hp hoff
  | loopFails _ _ _ => trivial
  | loopTooDeep _ _ _ _ => trivial
  | @loopTurns tier _ _ _ _ _ _ _ _ _ ih ihRest =>
    have hright := ih (enters_operand tier _)
    rw [rank_operand] at hright
    exact ihRest hright
  | tooNested _ => trivial
  | nestedFails _ _ _ => trivial
  | nested _ _ ih => exact ih (Task.enters_of_ahead_eq (ahead_deeper _) hp)
  | prefixFails _ _ _ => trivial
  | prefixed _ _ _ _ => exact htight (Nat.le_refl _)
  | unprefixed _ _ _ => exact htight (Nat.le_refl _)
  | literal _ _ => exact stops_of_unary_le hprimary _
  | badLiteral _ _ => trivial
  | opened _ _ _ _ => exact htight hprimary
  | missing _ _ => trivial
  | groupingFails _ _ => trivial
  | unclosed _ _ _ => trivial
  | closed _ _ _ _ => exact htight hprimary

/-! ## The depth of the tree -/

/-- The tree that a loop starts with is within the limit. -/
def Task.Fits (limit : Nat) : Task → Prop
  | .loop _ left => left.depth ≤ max limit 1
  | .nested t => t.Fits limit
  | _ => True

theorem fits_operand (limit : Nat) (tier : Tier) : tier.operand.Fits limit := by
  cases tier <;> trivial

/-- Every node but a literal is checked against the limit, and a literal is one deep. -/
theorem Run.depth_le {t : Task} {p : Parser} {r : Outcome} (h : Run t p r)
    (hp : t.Fits p.limit) :
    Outcome.Meets r (fun e _ => e.depth ≤ max p.limit 1) (fun _ _ => True) := by
  -- a node that passes the check is within the limit
  have hbuilt {e : Expr} {pos : Position} {q : Parser} {r : Outcome} {limit : Nat}
      (hr : bounded e pos q = r) (hq : q.limit = limit) :
      Outcome.Meets r (fun e _ => e.depth ≤ max limit 1) (fun _ _ => True) := by
    refine (meets_bounded hr).imp (fun e' q' hok => ?_) (fun _ _ _ => trivial)
    obtain ⟨rfl, -, hdepth⟩ := hok
    omega
  induction h with
  | expression _ ih => exact ih trivial
  | levelFails _ _ => trivial
  -- each loop runs under the limit of the parser that it began at
  | @level tier p q left r first rest ihFirst ihRest =>
    have hlimit : q.limit = p.limit := first.onward.limit_eq
    have hleft := ihFirst (fits_operand _ tier)
    have hrest := ihRest (by rw [hlimit]; exact hleft)
    rwa [hlimit] at hrest
  | loopEnds _ => exact hp
  | loopFails _ _ _ => trivial
  | loopTooDeep _ _ _ _ => trivial
  | @loopTurns tier p q left right r hoff h hfits rest ih ihRest =>
    have hlimit : q.limit = p.limit := h.onward.limit_eq.trans (limit_advance p)
    have hrest := ihRest (Nat.le_trans hfits (Nat.le_max_left _ _))
    rwa [hlimit] at hrest
  | tooNested _ => trivial
  | nestedFails _ _ _ => trivial
  | nested _ _ ih => exact ih hp
  | prefixFails _ _ _ => trivial
  | prefixed _ h hr _ => exact hbuilt hr (h.onward.limit_eq.trans (limit_advance _))
  | unprefixed _ _ ih => exact ih trivial
  | literal _ _ => exact Nat.le_max_right _ _
  | badLiteral _ _ => trivial
  | opened _ _ _ ih =>
    have hgrouping := ih trivial
    rwa [limit_advance] at hgrouping
  | missing _ _ => trivial
  | groupingFails _ _ => trivial
  | unclosed _ _ _ => trivial
  | closed h _ hr _ => exact hbuilt hr ((limit_advance _).trans h.onward.limit_eq)

end Grammar

end LoxExpr
