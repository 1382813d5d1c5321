import LoxExpr.Proofs.Grammar.Run

/-!
# Which token a fault blames

Every fault of a parse is about one of the tokens: it stands at the start of that token, and a text
that it carries is that of the token (`Blames`). Each procedure that fails takes the token from its
cursor, from the operator that it consumed, or from the parenthesis that it was handed; so one
induction on runs does for all (`Run.meets_blames`), and a parse adds only the token that should
have been the end of input (`parse_blames`). The token that is found where an expression is missed
is no literal (`parse_findsNoLiteral`).
-/

namespace LoxExpr

open LoxExpr.Parser

/-- The fault is about the token: it stands at its start, and calls it by its text. -/
inductive Blames : Fault → Token → Prop where
  | unexpected (t : Token) : Blames ⟨.unexpected t.describe, t.start⟩ t
  | missing (rule : Rule) (t : Token) : Blames ⟨.expectedExpression rule t.describe, t.start⟩ t
  | unclosed {t : Token} (hkind : t.kind = .openParen) :
      Blames ⟨.unclosedGrouping t.lexeme, t.start⟩ t
  | tooDeep (limit : Nat) (t : Token) : Blames ⟨.tooDeep limit, t.start⟩ t
  | badNumber {t : Token} (hkind : t.kind = .number) (hliteral : t.literal = none) :
      Blames ⟨.badNumber t.lexeme, t.start⟩ t

/-- The fault is about one of the tokens. -/
def Fault.BlamesIn (fault : Fault) (tokens : Array Token) : Prop :=
  ∃ t ∈ tokens, Blames fault t

/-- A token without a value is blamed for that, as a bad number or as no literal. -/
theorem blames_of_value {t : Token} {fault : Fault} (h : t.value = .error fault) :
    Blames fault t := by
  unfold Token.value at h
  split at h
  · cases h
  · rename_i hliteral
    split at h
    · cases h
    · cases h
    · cases h
    · rename_i hkind
      -- a number token without a value, and whose text is no number
      split at h
      · cases h
      · cases h
        exact .badNumber hkind hliteral
    · cases h
    · cases h
      exact .missing .primary t

theorem Parser.current_mem (p : Parser) : p.current ∈ p.tokens :=
  Array.getElem_mem p.cursor_lt

namespace Grammar

/-- The parenthesis that a task was handed is one of the tokens. -/
def Task.Among (tokens : Array Token) : Task → Prop
  | .nested t => t.Among tokens
  | .grouping opening => opening ∈ tokens ∧ opening.kind = .openParen
  | _ => True

theorem among_operand (tokens : Array Token) (tier : Tier) : tier.operand.Among tokens := by
  cases tier <;> trivial

/-- A tree that is too deep is blamed on the token that its position is taken from. -/
theorem meets_blames_bounded {e : Expr} {t : Token} {tokens : Array Token} {q : Parser}
    {r : Outcome} (ht : t ∈ tokens) (hr : bounded e t.start q = r) :
    Outcome.Meets r (fun _ _ => True) (fun fault _ => fault.BlamesIn tokens) :=
  (meets_bounded hr).imp (fun _ _ _ => trivial) fun _ _ h => ⟨t, ht, h.1 ▸ .tooDeep q.limit t⟩

/-- A task that fails blames one of the tokens. -/
theorem Run.meets_blames {t : Task} {p : Parser} {r : Outcome} (h : Run t p r)
    (ht : t.Among p.tokens) :
    Outcome.Meets r (fun _ _ => True) (fun fault _ => fault.BlamesIn p.tokens) := by
  -- The induction is on the run. The tokens stay the same along it, so a fault of a part blames one
  -- of them, too.
  induction h with
  | expression _ ih => exact ih trivial
  | levelFails _ ih => exact ih (among_operand _ _)
  | level first _ _ ihRest => exact first.onward.tokens_eq ▸ ihRest trivial
  | loopEnds _ => trivial
  | @loopFails tier p _ _ _ _ _ ih => exact tokens_advance p ▸ ih (among_operand _ tier)
  | @loopTooDeep tier p q _ _ _ _ _ _ => exact ⟨p.current, p.current_mem, .tooDeep q.limit _⟩
  | @loopTurns tier p _ _ _ _ _ first _ _ _ ihRest =>
    rw [← tokens_advance p, ← first.onward.tokens_eq]
    exact ihRest trivial
  | @tooNested _ p _ => exact ⟨p.current, p.current_mem, .tooDeep p.limit _⟩
  | nestedFails _ _ ih => exact ih ht
  | nested _ _ _ => trivial
  | @prefixFails p _ _ _ _ ih => exact tokens_advance p ▸ ih trivial
  | @prefixed p _ _ _ _ _ hr _ => exact meets_blames_bounded p.current_mem hr
  | unprefixed _ _ ih => exact ih trivial
  | literal _ _ => trivial
  | @badLiteral p _ _ hv => exact ⟨p.current, p.current_mem, blames_of_value hv⟩
  | @opened p _ _ hopen _ ih =>
    rw [← tokens_advance p]
    -- the token that is handed to the grouping is the parenthesis that was just consumed
    refine ih ⟨?_, by simpa using (offers_eq_true_iff.mp hopen).2⟩
    rw [tokens_advance]
    exact p.current_mem
  | @missing p _ _ => exact ⟨p.current, p.current_mem, .missing .primary _⟩
  | groupingFails _ ih => exact ih trivial
  | unclosed _ _ _ => exact ⟨_, ht.1, .unclosed ht.2⟩
  | closed _ _ hr _ => exact meets_blames_bounded ht.1 hr

/-! ## What is found in place of an expression -/

/-- The fault misses no expression, or has found one of the tokens in its place, and no literal. -/
def FindsNoLiteral (tokens : Array Token) (fault : Fault) : Prop :=
  ∀ rule found, fault.cause = .expectedExpression rule found →
    ∃ t ∈ tokens, found = t.describe ∧ ¬ t.kind.IsLiteral

/-- A fault of depth is not for want of an expression. -/
theorem findsNoLiteral_tooDeep (tokens : Array Token) (limit : Nat) (pos : Position) :
    FindsNoLiteral tokens ⟨.tooDeep limit, pos⟩ := by
  intro rule found h
  cases h

/-- A literal token that has no value is a number. -/
theorem findsNoLiteral_of_value {t : Token} {fault : Fault} (hkind : t.kind.IsLiteral)
    (h : t.value = .error fault) (tokens : Array Token) : FindsNoLiteral tokens fault := by
  intro rule found hcause
  unfold Token.value at h
  split at h
  · cases h
  · split at h
    · cases h
    · cases h
    · cases h
    · split at h
      · cases h
      · cases h
        cases hcause
    · cases h
    · rename_i hTrue hFalse hNil hNumber hString
      -- each kind of literal has been dealt with above
      rcases hkind with hkind | hkind | hkind | hkind | hkind
      · exact absurd hkind hFalse
      · exact absurd hkind hTrue
      · exact absurd hkind hNil
      · exact absurd hkind hNumber
      · exact absurd hkind hString

/-- The check of a tree does not fail for want of an expression. -/
theorem meets_bounded_findsNoLiteral {e : Expr} {pos : Position} {q : Parser} {r : Outcome}
    (hr : bounded e pos q = r) :
    Outcome.Meets r (fun _ _ => True) (fun fault q => FindsNoLiteral q.tokens fault) :=
  (meets_bounded hr).imp (fun _ _ _ => trivial)
    fun _ _ h => h.1 ▸ findsNoLiteral_tooDeep _ _ _

/-- A task that fails for want of an expression has not found a literal. -/
theorem Run.findsNoLiteral {t : Task} {p : Parser} {r : Outcome} (h : Run t p r) :
    Outcome.Meets r (fun _ _ => True) (fun fault q => FindsNoLiteral q.tokens fault) := by
  -- only a primary fails for want of an expression, and the other cases hand its fault on
  induction h with
  | expression _ ih => exact ih
  | levelFails _ ih => exact ih
  | level _ _ _ ihRest => exact ihRest
  | loopEnds _ => trivial
  | loopFails _ _ ih => exact ih
  | loopTooDeep _ _ _ _ => exact findsNoLiteral_tooDeep _ _ _
  | loopTurns _ _ _ _ _ ihRest => exact ihRest
  | tooNested _ => exact findsNoLiteral_tooDeep _ _ _
  | nestedFails _ _ ih => exact ih
  | nested _ _ _ => trivial
  | prefixFails _ _ ih => exact ih
  | prefixed _ _ hr _ => exact meets_bounded_findsNoLiteral hr
  | unprefixed _ _ ih => exact ih
  | literal _ _ => trivial
  | badLiteral hoff hv =>
    have hkind := Kind.mem_primary_kinds_iff.mp (offers_eq_true_iff.mp hoff).2
    exact findsNoLiteral_of_value hkind hv _
  | opened _ _ _ ih => exact ih
  | @missing p hoff _ =>
    rintro rule found ⟨⟩
    have hkind := not_mem_of_offers_eq_false hoff (by decide)
    exact ⟨p.current, p.current_mem, rfl, fun h => hkind (Kind.mem_primary_kinds_iff.mpr h)⟩
  | groupingFails _ ih => exact ih
  | unclosed _ _ _ =>
    rintro rule found ⟨⟩
  | closed _ _ hr _ => exact meets_bounded_findsNoLiteral hr

end Grammar

open Grammar

/-- A parse that fails blames one of the tokens, the end of input that ends them included. -/
theorem parse_blames {tokens : Array Token} {limit : Nat} {fault : Fault} {q : Parser}
    (h : parse tokens limit = .error fault q) :
    fault.BlamesIn (ofTokens tokens limit).tokens := by
  have hrun := run_perform .expression (ofTokens tokens limit)
  have honward := hrun.onward
  have hblames := hrun.meets_blames trivial
  rw [parse_of_run hrun] at h
  cases hres : Task.expression.perform (ofTokens tokens limit) with
  | error fault' p =>
    rw [hres] at h hblames
    cases h
    exact hblames
  | ok e p =>
    rw [hres] at h honward
    rw [← honward.tokens_eq]
    simp only [Outcome.conclude] at h
    split at h
    · cases h
    · cases h
      -- the expression has been read, and the token behind it is blamed
      exact ⟨p.current, p.current_mem, .unexpected _⟩

/-- A parse that fails for want of an expression has not found a literal. -/
theorem parse_findsNoLiteral {tokens : Array Token} {limit : Nat} {fault : Fault} {q : Parser}
    (h : parse tokens limit = .error fault q) :
    FindsNoLiteral (ofTokens tokens limit).tokens fault := by
  have hrun := run_perform .expression (ofTokens tokens limit)
  have honward := hrun.onward
  have hfinds := hrun.findsNoLiteral
  rw [parse_of_run hrun] at h
  cases hres : Task.expression.perform (ofTokens tokens limit) with
  | error fault' p =>
    rw [hres] at h honward hfinds
    cases h
    exact honward.tokens_eq ▸ hfinds
  | ok e p =>
    rw [hres] at h
    -- what is left behind an expression is no missing one
    simp only [Outcome.conclude] at h
    split at h
    · cases h
    · cases h
      rintro rule found ⟨⟩

end LoxExpr
