import LoxExpr.Expr.Printer
import Mathlib.Data.List.Forall2

/-!
# Equality of trees

Trees are compared by their values, and so their equality has the two oddities that equality of
numbers has: a code for no number equals nothing, and the two zeros are equal. Here both are put in
one form, for numbers, literals, tokens and trees alike: two of them are equal if none holds a code
for no number and they are the same once zeros have lost their signs (`Expr.equals_iff`).

Hence equality is symmetric and transitive, and a tree equals itself if it is free of such codes.
Equal trees are equally deep, and their printed forms differ only where a leaf is a zero
(`Expr.alike_pieces_of_equals`).
-/

namespace LoxExpr

/-! ## Numbers -/

namespace Number

/-- The number with the sign of a zero left out. -/
def canonical (x : Number) : Number :=
  if x.isZero then ofPlace 0 else x

/-- The canonical form of zero is zero, and that of no other number is. -/
theorem isZero_canonical (x : Number) : x.canonical.isZero = x.isZero := by
  rw [canonical]
  split
  · rename_i hzero
    rw [hzero]
    decide
  · rfl

/-- Two numbers have one canonical form exactly if they are the same, or both zero. -/
theorem canonical_eq_iff {x y : Number} :
    x.canonical = y.canonical ↔ x = y ∨ (x.isZero = true ∧ y.isZero = true) := by
  constructor
  · intro h
    have hsame : x.isZero = y.isZero := by rw [← isZero_canonical, h, isZero_canonical]
    by_cases hx : x.isZero = true
    · exact Or.inr ⟨hx, hsame ▸ hx⟩
    · rw [canonical, canonical, ← hsame, if_neg hx, if_neg hx] at h
      exact Or.inl h
  · rintro (rfl | ⟨hx, hy⟩)
    · rfl
    · rw [canonical, canonical, if_pos hx, if_pos hy]

/-- Numbers are equal exactly if both are numbers, and the same but for the sign of zero. -/
theorem equals_iff {x y : Number} :
    x.equals y = true ↔ x.isNaN = false ∧ y.isNaN = false ∧ x.canonical = y.canonical := by
  rw [canonical_eq_iff]
  simp [equals, and_assoc]

/-- A zero is shown as one digit, with its sign. -/
theorem display_of_isZero {x : Number} (h : x.isZero = true) :
    x.display = "0" ∨ x.display = "-0" := by
  have hplace : x.place.val = 0 := of_decide_eq_true h
  have hnan : x.isNaN = false := by
    rw [isNaN, hplace]
    decide
  have hmagnitude (y : Number) (hy : y.place = x.place) : y.displayMagnitude = ['0'] := by
    rw [displayMagnitude, isZero, hy, hplace]
    rfl
  rw [display, hnan, hmagnitude x rfl, hmagnitude { x with negative := false } rfl]
  cases x.negative with
  | true => exact Or.inr rfl
  | false => exact Or.inl rfl

end Number

/-! ## Literals and tokens -/

namespace Literal

/-- Is the literal a code for no number? -/
def isNaN : Literal → Bool
  | .number x => x.isNaN
  | _ => false

/-- The literal with the sign of a zero left out. -/
def canonical : Literal → Literal
  | .number x => .number x.canonical
  | v => v

/-- Two literals have one canonical form exactly if they are the same, or both the number zero. -/
theorem canonical_eq_iff {v w : Literal} : v.canonical = w.canonical ↔
    v = w ∨ ∃ x y, v = .number x ∧ w = .number y ∧ x.isZero = true ∧ y.isZero = true := by
  cases v <;> cases w <;> simp [canonical, Number.canonical_eq_iff]

/-- Literals are equal exactly if neither is NaN, and they are the same but for the sign of zero. -/
theorem equals_iff {v w : Literal} :
    v.equals w = true ↔ v.isNaN = false ∧ w.isNaN = false ∧ v.canonical = w.canonical := by
  cases v <;> cases w <;> simp [equals, isNaN, canonical, Number.equals_iff]

end Literal

namespace Token

/-- The value attached to the token, if any, is no code for no number. -/
def NaNFree (t : Token) : Prop :=
  ∀ v ∈ t.literal, v.isNaN = false

/-- The token with the sign of a zero attached to it left out. -/
def canonical (t : Token) : Token :=
  { t with literal := t.literal.map Literal.canonical }

/--
Tokens are equal exactly if neither holds NaN, and they are the same but for the sign of zero.
-/
theorem equals_iff {s t : Token} :
    s.equals t = true ↔ s.NaNFree ∧ t.NaNFree ∧ s.canonical = t.canonical := by
  obtain ⟨kind, lexeme, literal, span⟩ := s
  obtain ⟨kind', lexeme', literal', span'⟩ := t
  cases literal with
  | none => cases literal' <;> simp [equals, NaNFree, canonical, and_assoc]
  | some v =>
    cases literal' with
    | none => simp [equals, NaNFree, canonical]
    | some w =>
      simp only [equals, NaNFree, canonical, Literal.equals_iff, Bool.and_eq_true, beq_iff_eq,
        Option.mem_def, Option.some.injEq, forall_eq', Option.map_some, mk.injEq]
      tauto

end Token

/-! ## Trees -/

namespace Expr

/-- The values in a tree: those at its leaves, and those attached to its operators. -/
def literals : Expr → List Literal
  | .literal value => [value]
  | .unary operator operand => operator.literal.toList ++ operand.literals
  | .binary left operator right => left.literals ++ operator.literal.toList ++ right.literals
  | .grouping inner => inner.literals

/-- No value in the tree is a code for no number. -/
def NaNFree (e : Expr) : Prop :=
  ∀ v ∈ e.literals, v.isNaN = false

/-- The tree with the signs of zeros left out. -/
def canonical : Expr → Expr
  | .literal value => .literal value.canonical
  | .unary operator operand => .unary operator.canonical operand.canonical
  | .binary left operator right => .binary left.canonical operator.canonical right.canonical
  | .grouping inner => .grouping inner.canonical

variable {a b c : Expr} {op : Token} {v : Literal}

@[simp] theorem nanFree_literal : (literal v).NaNFree ↔ v.isNaN = false := by
  simp [NaNFree, literals]

@[simp] theorem nanFree_unary : (unary op a).NaNFree ↔ op.NaNFree ∧ a.NaNFree := by
  simp [NaNFree, Token.NaNFree, literals, or_imp, forall_and]

@[simp] theorem nanFree_binary :
    (binary a op b).NaNFree ↔ a.NaNFree ∧ op.NaNFree ∧ b.NaNFree := by
  simp [NaNFree, Token.NaNFree, literals, or_imp, forall_and]

@[simp] theorem nanFree_grouping : (grouping a).NaNFree ↔ a.NaNFree := Iff.rfl

/-- Trees are equal if both are free of codes for no number, and the same but for signs of zeros. -/
theorem equals_iff : a.equals b = true ↔ a.NaNFree ∧ b.NaNFree ∧ a.canonical = b.canonical := by
  -- trees of different shapes are neither equal nor alike in canonical form
  induction a generalizing b with
  | literal v => cases b <;> simp [equals, canonical, Literal.equals_iff]
  | unary op a ih =>
    cases b with
    | unary op' a' =>
      simp only [equals, canonical, Bool.and_eq_true, Token.equals_iff, ih, nanFree_unary,
        unary.injEq]
      tauto
    | literal | binary | grouping => simp [equals, canonical]
  | binary left op right ihLeft ihRight =>
    cases b with
    | binary left' op' right' =>
      simp only [equals, canonical, Bool.and_eq_true, Token.equals_iff, ihLeft, ihRight,
        nanFree_binary, binary.injEq]
      tauto
    | literal | unary | grouping => simp [equals, canonical]
  | grouping a ih => cases b <;> simp [equals, canonical, ih]

/-- Equality of trees is symmetric. -/
theorem equals_symm (h : a.equals b = true) : b.equals a = true := by
  obtain ⟨ha, hb, hcanonical⟩ := equals_iff.mp h
  exact equals_iff.mpr ⟨hb, ha, hcanonical.symm⟩

/-- Equality of trees is transitive. -/
theorem equals_trans (hab : a.equals b = true) (hbc : b.equals c = true) : a.equals c = true := by
  obtain ⟨ha, -, hcanonical⟩ := equals_iff.mp hab
  obtain ⟨-, hc, hcanonical'⟩ := equals_iff.mp hbc
  exact equals_iff.mpr ⟨ha, hc, hcanonical.trans hcanonical'⟩

/-- A tree equals itself exactly if no value in it is a code for no number. -/
theorem equals_self_iff : a.equals a = true ↔ a.NaNFree :=
  equals_iff.trans ⟨fun h => h.1, fun h => ⟨h, h, rfl⟩⟩

/-! ## What equal trees share -/

/-- The sign of zero has no part in the depth of a tree. -/
theorem depth_canonical (e : Expr) : e.canonical.depth = e.depth := by
  induction e with
  | literal v => rfl
  | unary op a ih => rw [canonical, depth, depth, ih]
  | binary left op right ihLeft ihRight => rw [canonical, depth, depth, ihLeft, ihRight]
  | grouping a ih => rw [canonical, depth, depth, ih]

/-- Equal trees are equally deep. -/
theorem depth_eq_of_equals (h : a.equals b = true) : a.depth = b.depth := by
  obtain ⟨-, -, hcanonical⟩ := equals_iff.mp h
  rw [← depth_canonical a, hcanonical, depth_canonical]

end Expr

/-- A piece of a printed tree: a text that stands around its parts, or a literal at a leaf. -/
inductive Piece where
  | mark (written : String)
  | leaf (value : Literal)

namespace Piece

/-- A piece as it is shown. -/
def display : Piece → String
  | .mark written => written
  | .leaf value => value.display

/-- The piece with the sign of a zero left out. -/
def canonical : Piece → Piece
  | .mark written => .mark written
  | .leaf value => .leaf value.canonical

/-- The pieces are the same, or they are numbers that are shown as `0` or `-0`. -/
inductive Alike : Piece → Piece → Prop where
  | same (p : Piece) : Alike p p
  | zeros {x y : Number} (hx : x.display = "0" ∨ x.display = "-0")
      (hy : y.display = "0" ∨ y.display = "-0") : Alike (.leaf (.number x)) (.leaf (.number y))

/-- Pieces with one canonical form are the same text, or are both a zero. -/
theorem alike_of_canonical_eq {p q : Piece} (h : p.canonical = q.canonical) : p.Alike q := by
  cases p with
  | mark written =>
    cases q with
    | mark written' =>
      cases h
      exact .same _
    | leaf w => cases h
  | leaf v =>
    cases q with
    | mark written' => cases h
    | leaf w =>
      -- only the two zeros share a canonical form without being equal
      rcases Literal.canonical_eq_iff.mp (leaf.inj h) with rfl | ⟨x, y, rfl, rfl, hx, hy⟩
      · exact .same _
      · exact .zeros (Number.display_of_isZero hx) (Number.display_of_isZero hy)

end Piece

namespace Expr

variable {a b : Expr}

/-- The printed form of a tree in pieces. -/
def pieces : Expr → List Piece
  | .literal value => [.leaf value]
  | .unary operator operand =>
    .mark ("(" ++ operator.lexeme ++ " ") :: (operand.pieces ++ [.mark ")"])
  | .binary left operator right =>
    .mark ("(" ++ operator.lexeme ++ " ") ::
      (left.pieces ++ .mark " " :: (right.pieces ++ [.mark ")"]))
  | .grouping inner => .mark "(group " :: (inner.pieces ++ [.mark ")"])

/-- The printed form is made of the pieces and of nothing else. -/
theorem join_pieces (e : Expr) : String.join (e.pieces.map Piece.display) = e.print := by
  induction e with
  | literal v => simp [pieces, Piece.display, print]
  | unary op a ih => simp [pieces, Piece.display, print, ih, String.append_assoc]
  | binary left op right ihLeft ihRight =>
    simp [pieces, Piece.display, print, ihLeft, ihRight, String.append_assoc]
  | grouping a ih => simp [pieces, Piece.display, print, ih, String.append_assoc]

/-- The canonical form of a tree is printed as the canonical forms of its pieces. -/
theorem pieces_canonical (e : Expr) : e.canonical.pieces = e.pieces.map Piece.canonical := by
  induction e with
  | literal v => rfl
  | unary op a ih => simp [canonical, pieces, ih, Piece.canonical, Token.canonical]
  | binary left op right ihLeft ihRight =>
    simp [canonical, pieces, ihLeft, ihRight, Piece.canonical, Token.canonical]
  | grouping a ih => simp [canonical, pieces, ih, Piece.canonical]

/-- Equal trees are printed in the same pieces, but for signs of zeros at the leaves. -/
theorem alike_pieces_of_equals (h : a.equals b = true) :
    List.Forall₂ Piece.Alike a.pieces b.pieces := by
  obtain ⟨-, -, hcanonical⟩ := equals_iff.mp h
  have hpieces : a.pieces.map Piece.canonical = b.pieces.map Piece.canonical := by
    rw [← pieces_canonical, hcanonical, pieces_canonical]
  rw [← List.forall₂_eq_eq_eq, List.forall₂_map_left_iff, List.forall₂_map_right_iff] at hpieces
  exact hpieces.imp fun _ _ => Piece.alike_of_canonical_eq

end Expr

end LoxExpr
