import LoxExpr.Proofs.Grammar.Tree

/-!
# Tokens and trees without places

Where a token stands has no part in which tree the grammar gives. `Token.bare` and `Expr.bare` take
the places out, and `Expr.Yields.of_bare` moves a tree to tokens that differ in nothing but their
places.
-/

namespace LoxExpr

/-- A token without its place. -/
def Token.bare (t : Token) : Token :=
  { t with span := ⟨⟨0, ""⟩, ⟨0, ""⟩⟩ }

@[simp] theorem Token.bare_kind (t : Token) : t.bare.kind = t.kind := rfl

@[simp] theorem Token.bare_lexeme (t : Token) : t.bare.lexeme = t.lexeme := rfl

@[simp] theorem Token.bare_literal (t : Token) : t.bare.literal = t.literal := rfl

/-- Without their places, tokens are told apart by kind, lexeme and literal. -/
theorem Token.bare_eq_bare_iff {t u : Token} :
    t.bare = u.bare ↔ t.kind = u.kind ∧ t.lexeme = u.lexeme ∧ t.literal = u.literal := by
  simp [bare]

/-- The value of a token does not depend on its place. -/
theorem Token.Carries.of_bare {t u : Token} {v : Literal} (h : t.Carries v)
    (hbare : u.bare = t.bare) : u.Carries v := by
  obtain ⟨hkind, hlexeme, hliteral⟩ := bare_eq_bare_iff.mp hbare
  cases h with
  | attached h => exact .attached (hliteral.trans h)
  | kwTrue h hk => exact .kwTrue (hliteral.trans h) (hkind.trans hk)
  | kwFalse h hk => exact .kwFalse (hliteral.trans h) (hkind.trans hk)
  | kwNil h hk => exact .kwNil (hliteral.trans h) (hkind.trans hk)
  | number h hk hread => exact .number (hliteral.trans h) (hkind.trans hk) (by rwa [hlexeme])
  | string h hk =>
    rw [← hlexeme]
    exact .string (hliteral.trans h) (hkind.trans hk)

namespace Expr

/-- A tree whose operators have no places. -/
def bare : Expr → Expr
  | .literal v => .literal v
  | .unary operator operand => .unary operator.bare operand.bare
  | .binary left operator right => .binary left.bare operator.bare right.bare
  | .grouping inner => .grouping inner.bare

/-- Places have no part in the depth of a tree. -/
@[simp] theorem depth_bare (e : Expr) : e.bare.depth = e.depth := by
  induction e with
  | literal v => rfl
  | unary operator operand ih => simp only [bare, depth, ih]
  | binary left operator right ihl ihr => simp only [bare, depth, ihl, ihr]
  | grouping inner ih => simp only [bare, depth, ih]

/-- Places have no part in how tightly a tree binds. -/
@[simp] theorem rank_bare (e : Expr) : e.bare.rank = e.rank := by
  cases e <;> rfl

/-- Places have no part in whether a tree is normal. -/
@[simp] theorem normal_bare (e : Expr) : e.bare.Normal ↔ e.Normal := by
  induction e with
  | literal v => exact Iff.rfl
  | unary operator operand ih => simp only [bare, Normal, Token.bare_kind, rank_bare, ih]
  | binary left operator right ihl ihr =>
    simp only [bare, Normal, Token.bare_kind, rank_bare, ihl, ihr]
  | grouping inner ih => exact ih

/-- Tokens that differ in their places only have trees that differ in the same way. -/
theorem Yields.of_bare {e : Expr} {ts us : List Token} (h : e.Yields ts)
    (hbare : us.map Token.bare = ts.map Token.bare) : ∃ e' : Expr, e'.Yields us ∧ e'.bare = e.bare := by
  -- The induction is on the tree. The other tokens are taken apart as those of the tree are.
  induction h generalizing us with
  | @literal t v hkind hv =>
    obtain ⟨u, rfl, hu⟩ := List.map_eq_singleton_iff.mp hbare
    have hkind' : u.kind = t.kind := (Token.bare_eq_bare_iff.mp hu).1
    exact ⟨.literal v, .literal (by rwa [hkind']) (hv.of_bare hu), rfl⟩
  | unary h ih =>
    obtain ⟨operator', us', rfl, hop, hus'⟩ := List.map_eq_cons_iff.mp hbare
    obtain ⟨operand', hoperand, heq⟩ := ih hus'
    exact ⟨.unary operator' operand', .unary hoperand, by rw [bare, bare, hop, heq]⟩
  | binary hl hr ihl ihr =>
    -- the tokens split where those of `ts` do: left operand, operator, right operand
    rw [List.map_append, List.map_cons] at hbare
    obtain ⟨us₁, rest, rfl, hus₁, hrest⟩ := List.map_eq_append_iff.mp hbare
    obtain ⟨operator', us₂, rfl, hop, hus₂⟩ := List.map_eq_cons_iff.mp hrest
    obtain ⟨left', hleft, hleq⟩ := ihl hus₁
    obtain ⟨right', hright, hreq⟩ := ihr hus₂
    exact ⟨.binary left' operator' right', .binary hleft hright,
      by rw [bare, bare, hop, hleq, hreq]⟩
  | @grouping inner opening closing ts hopen hclose h ih =>
    rw [List.map_cons, List.map_append] at hbare
    -- a parenthesis in front, one behind, and the inner tree between them
    obtain ⟨opening', rest, rfl, hopening, hrest⟩ := List.map_eq_cons_iff.mp hbare
    obtain ⟨us', last, rfl, hus', hlast⟩ := List.map_eq_append_iff.mp hrest
    obtain ⟨closing', rfl, hclosing⟩ := List.map_eq_singleton_iff.mp hlast
    obtain ⟨inner', hinner, heq⟩ := ih hus'
    have hopen' : opening'.kind = .openParen := (Token.bare_eq_bare_iff.mp hopening).1.trans hopen
    have hclose' : closing'.kind = .closeParen :=
      (Token.bare_eq_bare_iff.mp hclosing).1.trans hclose
    exact ⟨.grouping inner', .grouping hopen' hclose' hinner, by rw [bare, bare, heq]⟩

/-- Tokens at other places have the same tree, but for the places. -/
theorem IsTreeOf.of_bare {e : Expr} {ts us : List Token} (h : e.IsTreeOf ts)
    (hbare : us.map Token.bare = ts.map Token.bare) : ∃ e' : Expr, e'.IsTreeOf us ∧ e'.bare = e.bare := by
  obtain ⟨e', hyields, heq⟩ := h.yields.of_bare hbare
  have hnormal : e'.Normal := by
    rw [← normal_bare, heq, normal_bare]
    exact h.normal
  exact ⟨e', ⟨hnormal, hyields⟩, heq⟩

end Expr

end LoxExpr
