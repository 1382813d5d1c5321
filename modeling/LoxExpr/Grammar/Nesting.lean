import LoxExpr.Grammar.Descent

/-!
# Nesting along the grammar procedures

Every procedure leaves the levels of nesting that it enters, so where it succeeds the counter is
what it was (`Keeps`). Hence the room that `unaryWithin` counts down is never used up, and two
procedures that differ only in that room agree (`agree_unaryWithin`). This gives the procedures the
equations of the grammar: `unary_eq` reads a unary expression by way of `unary` and `expression`,
and nothing of the room is left in it.
-/

namespace LoxExpr

open LoxExpr.Parser

/-! ### One step after another -/

namespace ParseM

/-- Two steps in a row: the second goes on where the first ends, unless that fails. -/
theorem bind_eq {α β : Type} (m : ParseM α) (f : α → ParseM β) (p : Parser) :
    (m >>= f) p = match m p with
      | .ok a p' => f a p'
      | .error fault p' => .error fault p' := by
  simp only [bind, EStateM.bind]
  cases m p <;> rfl

/-- Two steps in a row succeed exactly if both do. -/
theorem bind_eq_ok {α β : Type} {m : ParseM α} {f : α → ParseM β} {p p'' : Parser} {b : β} :
    (m >>= f) p = .ok b p'' ↔ ∃ a p', m p = .ok a p' ∧ f a p' = .ok b p'' := by
  rw [bind_eq]
  split <;> rename_i h
  · simp only [h, EStateM.Result.ok.injEq]
    exact ⟨fun hf => ⟨_, _, ⟨rfl, rfl⟩, hf⟩, fun ⟨_, _, ⟨ha, hp⟩, hf⟩ => ha ▸ hp ▸ hf⟩
  · simp [h]

/-- Steps with the same outcome can be exchanged, and then also what is done after their success. -/
theorem bind_congr {α β : Type} {m n : ParseM α} {f g : α → ParseM β} {p : Parser}
    (h : m p = n p) (hk : ∀ a p', n p = .ok a p' → f a p' = g a p') :
    (m >>= f) p = (n >>= g) p := by
  rw [bind_eq, bind_eq, h]
  split
  · rename_i a s hn
    exact hk a s hn
  · rfl

end ParseM

/-! ### Where a parser stands between its nesting and its limit -/

namespace Parser

@[simp] theorem limit_next (p : Parser) : p.next.limit = p.limit := by
  unfold next
  split <;> rfl

@[simp] theorem nesting_next (p : Parser) : p.next.nesting = p.nesting := by
  unfold next
  split <;> rfl

@[simp] theorem limit_advance (p : Parser) : p.advance.limit = p.limit :=
  limit_next p

@[simp] theorem nesting_advance (p : Parser) : p.advance.nesting = p.nesting :=
  nesting_next p

/-- The parser has the limit `L` and stands below `k` levels of nesting. -/
def At (L k : Nat) (p : Parser) : Prop :=
  p.limit = L ∧ p.nesting = k

theorem At.advance {L k : Nat} {p : Parser} (h : p.At L k) : p.advance.At L k := by
  simpa [Parser.At] using h

theorem At.deeper {L k : Nat} {p : Parser} (h : p.At L k) : p.deeper.At L (k + 1) :=
  ⟨h.1, congrArg (· + 1) h.2⟩

theorem At.shallower {L k : Nat} {p : Parser} (h : p.At L (k + 1)) : p.shallower.At L k :=
  ⟨h.1, congrArg (· - 1) h.2⟩

/-- A level of nesting can be entered as long as one more is below the limit. -/
theorem descend_eq_ok {p p' : Parser} {u : Unit} :
    descend p = .ok u p' ↔ p.nesting + 1 < p.limit ∧ p.deeper = p' := by
  unfold descend
  split
  · simp
    omega
  · simp
    omega

end Parser

/-! ### Steps that leave every level they enter -/

namespace Grammar

/-- Where the step succeeds, it ends at the level where it began. -/
def Keeps {α : Type} (L k : Nat) (m : ParseM α) : Prop :=
  ∀ p a p', p.At L k → m p = .ok a p' → p'.At L k

/-- A match leaves the nesting as it is, whether or not it consumes. -/
theorem keeps_matchAny (L k : Nat) (kinds : List Kind) : Keeps L k (matchAny kinds) := by
  intro p a p' h hm
  unfold matchAny at hm
  split at hm <;> cases hm
  · exact h.advance
  · exact h

/-- Noting that a rule begins leaves the nesting as it is. -/
theorem keeps_enter (L k : Nat) (rule : Rule) : Keeps L k (enter rule) := by
  intro p a p' h hm
  cases hm
  exact h

/-- The check of a depth leaves the nesting as it is. -/
theorem keeps_bounded (L k : Nat) (e : Expr) (q : Position) : Keeps L k (bounded e q) := by
  intro p a p' h hm
  unfold bounded at hm
  split at hm <;> cases hm
  exact h

theorem keeps_pure {α : Type} (L k : Nat) (a : α) : Keeps L k (pure a : ParseM α) := by
  intro p a' p' h hm
  cases hm
  exact h

/-- A step that keeps its level does so together with one after it. -/
theorem Keeps.bind {α β : Type} {L k : Nat} {m : ParseM α} {f : α → ParseM β}
    (hm : Keeps L k m) (hf : ∀ a, Keeps L k (f a)) : Keeps L k (m >>= f) := by
  intro p b p'' h hb
  obtain ⟨a, p', h1, h2⟩ := ParseM.bind_eq_ok.mp hb
  exact hf a p' b p'' (hm p a p' h h1) h2

/-- A loop keeps what its operand keeps, however many turns it takes. -/
theorem keeps_fold {L k : Nat} {operand : ParseM Expr} (h : Keeps L k operand) (rule : Rule)
    (turns : Nat) (left : Expr) : Keeps L k (fold rule operand turns left) := by
  -- The induction is on the turns left, for any left operand: each turn hands over a new one.
  induction turns generalizing left with
  | zero => exact keeps_pure L k left
  | succ turns ih =>
    unfold fold
    refine (keeps_matchAny L k rule.kinds).bind fun token? => ?_
    cases token? with
    | none => exact keeps_pure L k left
    | some token =>
      exact h.bind fun right => (keeps_bounded L k _ _).bind fun node => ih node

theorem keeps_get (L k : Nat) : Keeps L k (get : ParseM Parser) := by
  intro p a p' h hm
  cases hm
  exact h

/-- A level keeps what its operand keeps. -/
theorem keeps_level {L k : Nat} {operand : ParseM Expr} (h : Keeps L k operand) (rule : Rule) :
    Keeps L k (level rule operand) :=
  (keeps_enter L k rule).bind fun _ => h.bind fun left => (keeps_get L k).bind fun _ =>
    keeps_fold h rule _ left

/-- All four levels together keep what the operand below them keeps. -/
theorem keeps_expressionOver {L k : Nat} {operand : ParseM Expr} (h : Keeps L k operand) :
    Keeps L k (expressionOver operand) :=
  (keeps_enter L k _).bind fun _ =>
    keeps_level (keeps_level (keeps_level (keeps_level h _) _) _) _

/-! ### Steps that cannot be told apart at a level -/

/-- The steps have the same outcome at every parser of that limit and nesting. -/
def Agree {α : Type} (L k : Nat) (m n : ParseM α) : Prop :=
  ∀ p, p.At L k → m p = n p

/-- Steps that agree do so together with ones after them, if the first keep the level. -/
theorem Agree.bind {α β : Type} {L k : Nat} {m n : ParseM α} {f g : α → ParseM β}
    (h : Agree L k m n) (keeps : Keeps L k n) (hk : ∀ a, Agree L k (f a) (g a)) :
    Agree L k (m >>= f) (n >>= g) :=
  fun p hp => ParseM.bind_congr (h p hp) fun a p' hn => hk a p' (keeps p a p' hp hn)

theorem Agree.refl {α : Type} {L k : Nat} (m : ParseM α) : Agree L k m m := fun _ _ => rfl

/-- Loops over operands that cannot be told apart cannot be told apart. -/
theorem agree_fold {L k : Nat} {m n : ParseM Expr} (h : Agree L k m n) (keeps : Keeps L k n)
    (rule : Rule) (turns : Nat) (left : Expr) :
    Agree L k (fold rule m turns left) (fold rule n turns left) := by
  induction turns generalizing left with
  | zero => exact Agree.refl _
  | succ turns ih =>
    unfold fold
    refine (Agree.refl _).bind (keeps_matchAny L k _) fun token? => ?_
    cases token? with
    | none => exact Agree.refl _
    | some token =>
      exact h.bind keeps fun right =>
        (Agree.refl _).bind (keeps_bounded L k _ _) fun node => ih node

/-- Levels over operands that cannot be told apart cannot be told apart. -/
theorem agree_level {L k : Nat} {m n : ParseM Expr} (h : Agree L k m n) (keeps : Keeps L k n)
    (rule : Rule) : Agree L k (level rule m) (level rule n) :=
  (Agree.refl _).bind (keeps_enter L k rule) fun _ => h.bind keeps fun left =>
    (Agree.refl _).bind (keeps_get L k) fun _ => agree_fold h keeps rule _ left

/-- The four levels carry an agreement of the operands up to the top. -/
theorem agree_expressionOver {L k : Nat} {m n : ParseM Expr} (h : Agree L k m n)
    (keeps : Keeps L k n) : Agree L k (expressionOver m) (expressionOver n) :=
  (Agree.refl _).bind (keeps_enter L k _) fun _ =>
    agree_level (agree_level (agree_level (agree_level h keeps _) (keeps_level keeps _) _)
      (keeps_level (keeps_level keeps _) _) _) (keeps_level (keeps_level (keeps_level keeps _) _) _) _

/-- A step one level down keeps its level if what it does down there keeps the level below. -/
theorem keeps_nested {α β : Type} {L k : Nat} {m : ParseM α} {f : α → ParseM β}
    (h : Keeps L (k + 1) m) (hf : ∀ a, Keeps L k (f a)) :
    Keeps L k (do descend; let a ← m; ascend; f a) := by
  intro p b p' hp hb
  obtain ⟨_, p1, h1, hb⟩ := ParseM.bind_eq_ok.mp hb
  obtain ⟨a, p2, h2, hb⟩ := ParseM.bind_eq_ok.mp hb
  obtain ⟨_, p3, h3, hb⟩ := ParseM.bind_eq_ok.mp hb
  obtain ⟨hlt, rfl⟩ := descend_eq_ok.mp h1
  cases h3
  exact hf a _ b p' (h _ a p2 hp.deeper h2).shallower hb

/-- An expectation leaves the nesting as it is where it is met. -/
theorem keeps_expectOr (L k : Nat) (kind : Kind) (fault : Fault) :
    Keeps L k (expectOr kind fault) := by
  intro p a p' h hm
  unfold expectOr at hm
  split at hm <;> cases hm
  exact h.advance

theorem keeps_throw {α : Type} (L k : Nat) (fault : Fault) :
    Keeps L k (throw fault : ParseM α) := by
  intro p a p' h hm
  cases hm

/-- A grouping leaves the level that it enters. -/
theorem keeps_groupingOver {L k : Nat} {m : ParseM Expr} (h : Keeps L (k + 1) m) (opening : Token) :
    Keeps L k (groupingOver m opening) :=
  keeps_nested h fun _ => (keeps_expectOr L k _ _).bind fun _ => keeps_bounded L k _ _

/-- A primary leaves the level that its grouping enters. -/
theorem keeps_primaryOver {L k : Nat} {m : ParseM Expr} (h : Keeps L (k + 1) m) :
    Keeps L k (primaryOver m) := by
  unfold primaryOver
  refine (keeps_matchAny L k _).bind fun token? => ?_
  cases token? with
  | some token =>
    simp only
    split
    · exact keeps_pure L k _
    · exact keeps_throw L k _
  | none =>
    -- no literal stands here, so the token may open a grouping
    refine (keeps_matchAny L k _).bind fun opening? => ?_
    cases opening? with
    | some opening => exact keeps_groupingOver h opening
    | none => exact (keeps_get L k).bind fun _ => keeps_throw L k _

/-- A prefix operator leaves the level that it enters, and a primary does so too. -/
theorem keeps_unaryOver {L k : Nat} {m e : ParseM Expr} (h : Keeps L (k + 1) m)
    (he : Keeps L (k + 1) e) : Keeps L k (unaryOver m e) := by
  unfold unaryOver
  refine (keeps_matchAny L k _).bind fun token? => ?_
  cases token? with
  | some token => exact keeps_nested h fun _ => keeps_bounded L k _ _
  | none => exact keeps_primaryOver he

/-- The unary rule keeps its level, however many levels it may enter. -/
theorem keeps_unaryWithin (room L k : Nat) : Keeps L k (unaryWithin room) := by
  induction room generalizing k with
  | zero => intro p a p' _ h; cases h
  | succ room ih => exact keeps_unaryOver (ih _) (keeps_expressionOver (ih _))

/--
Steps one level down agree if the steps of the level below do. That level counts only if it can be
entered.
-/
theorem agree_nested {α β : Type} {L k : Nat} {m n : ParseM α} {f g : α → ParseM β}
    (h : k + 1 < L → Agree L (k + 1) m n) (keeps : Keeps L (k + 1) n)
    (hk : ∀ a, Agree L k (f a) (g a)) :
    Agree L k (do descend; let a ← m; ascend; f a) (do descend; let a ← n; ascend; g a) := by
  intro p hp
  refine ParseM.bind_congr rfl fun _ p1 h1 => ?_
  obtain ⟨hlt, rfl⟩ := descend_eq_ok.mp h1
  rw [hp.1, hp.2] at hlt
  -- only inside the level do the two differ, and there the room is known to be enough
  refine ParseM.bind_congr (h hlt _ hp.deeper) fun a p2 h2 => ?_
  refine ParseM.bind_congr rfl fun _ p3 h3 => ?_
  cases h3
  exact hk a _ (keeps _ a p2 hp.deeper h2).shallower

/-- Unary expressions whose parts cannot be told apart one level further in cannot be told apart. -/
theorem agree_unaryOver {L k : Nat} {m n e d : ParseM Expr}
    (h : k + 1 < L → Agree L (k + 1) m n) (he : k + 1 < L → Agree L (k + 1) e d)
    (keeps : Keeps L (k + 1) n) (keepsE : Keeps L (k + 1) d) :
    Agree L k (unaryOver m e) (unaryOver n d) := by
  unfold unaryOver primaryOver groupingOver
  -- The matches are the same on both sides. Only behind a prefix operator and in a grouping is
  -- there something left to compare.
  refine (Agree.refl _).bind (keeps_matchAny L k _) fun token? => ?_
  cases token? with
  | some token => exact agree_nested h keeps fun _ => Agree.refl _
  | none =>
    refine (Agree.refl _).bind (keeps_matchAny L k _) fun token? => ?_
    cases token? with
    | some token => exact Agree.refl _
    | none =>
      refine (Agree.refl _).bind (keeps_matchAny L k _) fun opening? => ?_
      cases opening? with
      | some opening => exact agree_nested he keepsE fun _ => Agree.refl _
      | none => exact Agree.refl _

/-- More room than lies between the nesting and the limit makes no difference. -/
theorem agree_unaryWithin {room room' L k : Nat} (h : L - k < room) (h' : L - k < room') :
    Agree L k (unaryWithin room) (unaryWithin room') := by
  induction room generalizing room' k with
  | zero => omega
  | succ room ih =>
    obtain ⟨room', rfl⟩ : ∃ r, room' = r + 1 := ⟨room' - 1, by omega⟩
    -- one level down both rooms still reach the limit; a level that cannot be entered needs none
    have step (lt : k + 1 < L) : Agree L (k + 1) (unaryWithin room) (unaryWithin room') :=
      ih (by omega) (by omega)
    exact agree_unaryOver step
      (fun lt => agree_expressionOver (step lt) (keeps_unaryWithin _ _ _))
      (keeps_unaryWithin _ _ _) (keeps_expressionOver (keeps_unaryWithin _ _ _))

/-! ### The equations of the procedures -/

/-- The unary rule is the one with any room that reaches the limit. -/
theorem agree_unary {room L k : Nat} (h : L - k < room) : Agree L k unary (unaryWithin room) := by
  intro p hp
  unfold unary
  rw [hp.1, hp.2]
  exact agree_unaryWithin (by omega) h p hp

/-- A unary expression is left at the level at which it was begun. -/
theorem keeps_unary (L k : Nat) : Keeps L k unary := by
  intro p a p' hp h
  exact keeps_unaryWithin _ _ _ p a p' hp h

/-- An expression is folded from unary operands. -/
theorem expression_eq : expression = expressionOver unary := rfl

/--
The circle of the procedures closes: a unary expression is a prefix operator with a unary operand,
or a primary whose parentheses hold an expression.
-/
theorem unary_eq : unary = unaryOver unary expression := by
  funext p
  have hp : Parser.At p.limit p.nesting p := ⟨rfl, rfl⟩
  -- the room between nesting and limit is enough, so one unfolding of it gives the equation
  rw [agree_unary (Nat.lt_succ_self (p.limit - p.nesting)) p hp, expression_eq]
  refine agree_unaryOver (fun lt q hq => ?_) (fun lt q hq => ?_) ?_ ?_ p hp
  · exact (agree_unary (by omega) q hq).symm
  · exact (agree_expressionOver (agree_unary (by omega)) (keeps_unaryWithin _ _ _) q hq).symm
  · exact keeps_unary _ _
  · exact keeps_expressionOver (keeps_unary _ _)

end Grammar

end LoxExpr
