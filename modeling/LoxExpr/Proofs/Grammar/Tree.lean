import LoxExpr.Grammar.Descent

/-!
# The trees of the grammar

The grammar read as a set of trees, without reference to how they are found. A tree is *normal* if
every operator binds as the grammar says: a binary node of a tier has a left child of that tier or
a tighter one and a right child of a strictly tighter one, and a prefix operator stands before a
unary expression or a primary. Read from left to right, a tree *yields* the tokens that it was made
of; `IsTreeOf` joins the two.
-/

namespace LoxExpr

/-- A level of binary operators. -/
inductive Tier where
  | equality | comparison | term | factor
deriving DecidableEq, Repr

namespace Tier

/-- The rule of the grammar that folds the operators of the tier. -/
def rule : Tier → Rule
  | .equality => .equality
  | .comparison => .comparison
  | .term => .term
  | .factor => .factor

def rank (tier : Tier) : Nat :=
  tier.rule.rank

end Tier

namespace Kind

/-- The tier of a binary operator. -/
def tier? : Kind → Option Tier
  | .notEquals | .equals => some .equality
  | .greater | .greaterEquals | .less | .lessEquals => some .comparison
  | .dash | .plus => some .term
  | .slash | .star => some .factor
  | _ => none

/-- The kinds of token that stand for a value. -/
def IsLiteral (k : Kind) : Prop :=
  k = .kwFalse ∨ k = .kwTrue ∨ k = .kwNil ∨ k = .number ∨ k = .string

/-- The kinds of operator that stand before their operand. -/
def IsPrefixOp (k : Kind) : Prop :=
  k = .not ∨ k = .dash

instance (k : Kind) : Decidable k.IsLiteral := by unfold IsLiteral; infer_instance

instance (k : Kind) : Decidable k.IsPrefixOp := by unfold IsPrefixOp; infer_instance

/-! ## The token tables of the rules -/

/-- The rule of a tier looks for the binary operators of the tier. -/
theorem mem_kinds_iff {tier : Tier} {k : Kind} : k ∈ tier.rule.kinds ↔ k.tier? = some tier := by
  cases tier <;> cases k <;> decide

/-- The unary rule looks for the prefix operators. -/
theorem mem_unary_kinds_iff {k : Kind} : k ∈ Rule.unary.kinds ↔ k.IsPrefixOp := by
  simp [Rule.kinds, IsPrefixOp]

/-- The primary rule looks for the literals first. -/
theorem mem_primary_kinds_iff {k : Kind} : k ∈ Rule.primary.kinds ↔ k.IsLiteral := by
  simp [Rule.kinds, IsLiteral]

/-- No token is both a literal and a prefix operator. -/
theorem IsLiteral.not_isPrefixOp {k : Kind} (h : k.IsLiteral) : ¬ k.IsPrefixOp := by
  rcases h with rfl | rfl | rfl | rfl | rfl <;> decide

end Kind

/-! ## The value of a literal token -/

/--
A literal token carries the value attached to it. Without one, its kind tells the value, and for
numbers and strings its text.
-/
inductive Token.Carries (t : Token) : Literal → Prop where
  | attached {v : Literal} (h : t.literal = some v) : t.Carries v
  | kwTrue (h : t.literal = none) (hkind : t.kind = .kwTrue) : t.Carries (.boolean true)
  | kwFalse (h : t.literal = none) (hkind : t.kind = .kwFalse) : t.Carries (.boolean false)
  | kwNil (h : t.literal = none) (hkind : t.kind = .kwNil) : t.Carries .nil
  | number {x : Number} (h : t.literal = none) (hkind : t.kind = .number)
      (hread : Number.read? t.lexeme = some x) : t.Carries (.number x)
  | string (h : t.literal = none) (hkind : t.kind = .string) :
      t.Carries (.string (Literal.unquote t.lexeme))

/-- The value that is read off a token is the one that it carries. -/
theorem Token.value_eq_ok_iff {t : Token} {v : Literal} : t.value = .ok v ↔ t.Carries v := by
  constructor
  · intro h
    -- an attached literal is the value; without one, the kind decides
    unfold Token.value at h
    split at h
    · rename_i hlit
      cases h
      exact .attached hlit
    · rename_i hlit
      split at h
      · rename_i hkind; cases h; exact .kwTrue hlit hkind
      · rename_i hkind; cases h; exact .kwFalse hlit hkind
      · rename_i hkind; cases h; exact .kwNil hlit hkind
      · rename_i hkind
        split at h
        · rename_i x hread; cases h; exact .number hlit hkind hread
        · cases h
      · rename_i hkind; cases h; exact .string hlit hkind
      · cases h
  · intro h
    cases h with
    | attached h => simp [Token.value, h]
    | kwTrue h hkind => simp [Token.value, h, hkind]
    | kwFalse h hkind => simp [Token.value, h, hkind]
    | kwNil h hkind => simp [Token.value, h, hkind]
    | number h hkind hread => simp [Token.value, h, hkind, hread]
    | string h hkind => simp [Token.value, h, hkind]

/-- Only a number without an attached value can fail to have one. -/
theorem Token.value_eq_error {t : Token} {fault : Fault} (hkind : t.kind.IsLiteral)
    (h : t.value = .error fault) :
    t.kind = .number ∧ t.literal = none ∧ Number.read? t.lexeme = none ∧
      fault = ⟨.badNumber t.lexeme, t.start⟩ := by
  unfold Token.value at h
  split at h
  · cases h
  · rename_i hlit
    -- the keywords have their values, and a string has its text
    rcases hkind with hk | hk | hk | hk | hk
    · simp [hk] at h
    · simp [hk] at h
    · simp [hk] at h
    · simp only [hk] at h
      split at h
      · cases h
      · rename_i hread
        cases h
        exact ⟨hk, hlit, hread, rfl⟩
    · simp [hk] at h

/-! ## Normal trees and their tokens -/

namespace Expr

/--
The rule that the root of a tree belongs to. A binary node without a binary operator is no phrase,
and ranks below all that are.
-/
def rule : Expr → Rule
  | .literal _ => .primary
  | .unary _ _ => .unary
  | .binary _ operator _ => (operator.kind.tier?.map Tier.rule).getD .expression
  | .grouping _ => .primary

def rank (e : Expr) : Nat :=
  e.rule.rank

/-- Every operator of the tree binds as the grammar says. -/
def Normal : Expr → Prop
  | .literal _ => True
  | .unary operator operand =>
    operator.kind.IsPrefixOp ∧ Rule.unary.rank ≤ operand.rank ∧ operand.Normal
  | .binary left operator right =>
    ∃ tier, operator.kind.tier? = some tier ∧ tier.rank ≤ left.rank ∧ tier.rank < right.rank ∧
      left.Normal ∧ right.Normal
  | .grouping inner => inner.Normal

/-- The tokens of a tree from left to right. Each parenthesis and each literal is one token. -/
inductive Yields : Expr → List Token → Prop where
  | literal {t : Token} {v : Literal} (hkind : t.kind.IsLiteral) (hv : t.Carries v) :
      Yields (.literal v) [t]
  | unary {operator : Token} {operand : Expr} {ts : List Token} (h : Yields operand ts) :
      Yields (.unary operator operand) (operator :: ts)
  | binary {left right : Expr} {operator : Token} {ts us : List Token} (hl : Yields left ts)
      (hr : Yields right us) : Yields (.binary left operator right) (ts ++ operator :: us)
  | grouping {inner : Expr} {opening closing : Token} {ts : List Token}
      (hopen : opening.kind = .openParen) (hclose : closing.kind = .closeParen)
      (h : Yields inner ts) : Yields (.grouping inner) (opening :: (ts ++ [closing]))

/-- The tree is the one that the grammar gives to the tokens. -/
structure IsTreeOf (e : Expr) (ts : List Token) : Prop where
  normal : e.Normal
  yields : e.Yields ts

/-- A binary node ranks with the tier of its operator. -/
theorem rank_binary {left right : Expr} {operator : Token} {tier : Tier}
    (h : operator.kind.tier? = some tier) : (binary left operator right).rank = tier.rank := by
  simp [rank, rule, h, Tier.rank]

/-- A normal tree is a phrase of the loosest tier at least. -/
theorem equality_le_rank {e : Expr} (h : e.Normal) : Tier.equality.rank ≤ e.rank := by
  cases e with
  | literal v => exact (by decide : Tier.equality.rank ≤ Rule.primary.rank)
  | unary operator operand => exact (by decide : Tier.equality.rank ≤ Rule.unary.rank)
  | binary left operator right =>
    obtain ⟨tier, hop, -⟩ := h
    rw [rank_binary hop]
    cases tier <;> decide
  | grouping inner => exact (by decide : Tier.equality.rank ≤ Rule.primary.rank)

end Expr

end LoxExpr
