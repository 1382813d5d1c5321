import LoxExpr.Proofs.Expr.Equality
import LoxExpr.Proofs.Source.Printed

/-!
# Equality of the trees of sources

A numeral has no sign, and is never read as a code for no number. So nothing in the tree of a source
is at odds with equality: such a tree equals itself, and equal ones are one and the same tree
(`eq_of_equals_parseSource`). With what holds of all trees this makes up `equals_sound`.
-/

namespace LoxExpr

/-- The literal is no code for no number, and no number with a sign. -/
def Literal.Unsigned (v : Literal) : Prop :=
  ∀ x, v = .number x → x.isNaN = false ∧ x.negative = false

/-- A literal of a source is a number, if it is one at all. -/
theorem Literal.Unsigned.isNaN_eq_false {v : Literal} (h : v.Unsigned) : v.isNaN = false := by
  cases v with
  | number x => exact (h x rfl).1
  | string _ => rfl
  | boolean _ => rfl
  | nil => rfl

/-- A number without a sign is its own canonical form. -/
theorem Number.canonical_eq_self {x : Number} (h : x.negative = false) : x.canonical = x := by
  rw [canonical]
  split
  · rename_i hzero
    have hplace : x.place.val = 0 := of_decide_eq_true hzero
    rw [← hplace, ofPlace_place h]
  · rfl

/-- A literal of a source is its own canonical form. -/
theorem Literal.Unsigned.canonical_eq_self {v : Literal} (h : v.Unsigned) : v.canonical = v := by
  cases v with
  | number x => exact congrArg Literal.number (Number.canonical_eq_self (h x rfl).2)
  | string _ => rfl
  | boolean _ => rfl
  | nil => rfl

/-- A token whose value is canonical is its own canonical form. -/
theorem Token.canonical_eq_self {t : Token} (h : ∀ v ∈ t.literal, v.canonical = v) :
    t.canonical = t := by
  obtain ⟨kind, lexeme, literal, span⟩ := t
  cases literal with
  | none => rfl
  | some v => rw [canonical, Option.map_some, h v rfl]

/-- A tree whose values are all canonical is its own canonical form. -/
theorem Expr.canonical_eq_self {e : Expr} (h : ∀ v ∈ e.literals, v.canonical = v) :
    e.canonical = e := by
  induction e with
  | literal v => rw [canonical, h v (List.mem_singleton_self v)]
  | unary op a ih =>
    simp only [literals, List.forall_mem_append, Option.mem_toList] at h
    rw [canonical, Token.canonical_eq_self h.1, ih h.2]
  | binary left op right ihLeft ihRight =>
    simp only [literals, List.forall_mem_append, Option.mem_toList] at h
    rw [canonical, ihLeft h.1.1, Token.canonical_eq_self h.1.2, ihRight h.2]
  | grouping a ih => rw [canonical, ih h]

/-! ## The values in the tree of a source -/

/-- A value that is attached to a token of a source is no number with a sign. -/
theorem Agree.unsigned {kind : Kind} {lexeme : String} {literal : Option Literal} {v : Literal}
    (h : Agree kind lexeme literal) (hv : literal = some v) : v.Unsigned := by
  intro x hx
  subst hx
  -- only a numeral carries a number, and a numeral has no sign to read
  cases h with
  | number hshape hvalue =>
    cases hv
    obtain ⟨d, hd⟩ := Number.exists_ofDecimal_of_numeral hshape
    rw [String.ofList_toList, hvalue] at hd
    rw [Option.some.inj hd]
    exact ⟨Number.isNaN_ofDecimal d, Number.negative_ofDecimal d⟩
  | string _ => cases hv
  | reserved _ _ =>
    unfold Kind.constant? at hv
    split at hv <;> cases hv
  | identifier _ _ => cases hv
  | fixed _ => cases hv

/-- The values in a tree are those that are attached to its tokens. -/
theorem Expr.Yields.exists_token {e : Expr} {ts : List Token} {v : Literal} (h : e.Yields ts)
    (hagree : ∀ t ∈ ts, Agree t.kind t.lexeme t.literal) (hv : v ∈ e.literals) :
    ∃ t ∈ ts, t.literal = some v := by
  -- The induction is on the tree: its tokens are those of its parts, and the operators among them.
  induction h with
  | @literal t w hkind hw =>
    have ht : t ∈ [t] := List.mem_singleton_self t
    rw [literals, List.mem_singleton] at hv
    exact ⟨t, ht, (hagree t ht).literal_eq_some hkind (hv ▸ hw)⟩
  | @unary op a ts _ ih =>
    rw [List.forall_mem_cons] at hagree
    rw [literals, List.mem_append, Option.mem_toList] at hv
    rcases hv with hop | ha
    · exact ⟨op, List.mem_cons_self .., hop⟩
    · obtain ⟨t, ht, hlit⟩ := ih hagree.2 ha
      exact ⟨t, List.mem_cons_of_mem _ ht, hlit⟩
  | @binary left right op ts us _ _ ihLeft ihRight =>
    rw [List.forall_mem_append, List.forall_mem_cons] at hagree
    rw [literals, List.mem_append, List.mem_append, Option.mem_toList] at hv
    simp only [List.mem_append, List.mem_cons]
    rcases hv with (hleft | hop) | hright
    · obtain ⟨t, ht, hlit⟩ := ihLeft hagree.1 hleft
      exact ⟨t, Or.inl ht, hlit⟩
    · exact ⟨op, Or.inr (Or.inl rfl), hop⟩
    · obtain ⟨t, ht, hlit⟩ := ihRight hagree.2.2 hright
      exact ⟨t, Or.inr (Or.inr ht), hlit⟩
  | @grouping a opening closing ts _ _ _ ih =>
    rw [List.forall_mem_cons, List.forall_mem_append] at hagree
    obtain ⟨t, ht, hlit⟩ := ih hagree.2.1 hv
    exact ⟨t, List.mem_cons_of_mem _ (List.mem_append_left _ ht), hlit⟩

section Source

variable {text text' : String} {file? file?' : Option String} {limit limit' : Nat} {a b e : Expr}

/-- No value in the tree of a source has a sign. -/
theorem unsigned_of_parseSource (h : parseSource text file? limit = .ok e) :
    ∀ v ∈ e.literals, v.Unsigned := by
  intro v hv
  obtain ⟨tokens, s, hscan⟩ := exists_tokenize_of_parseSource h
  obtain ⟨ts, htree, hts⟩ := exists_isTreeOf_of_parseSource hscan h
  have hagree : ∀ t ∈ ts, Agree t.kind t.lexeme t.literal := fun t ht => (hts t ht).2
  obtain ⟨t, ht, hlit⟩ := htree.yields.exists_token hagree hv
  exact (hagree t ht).unsigned hlit

/-- The tree of a source is equal to itself. -/
theorem equals_self_of_parseSource (h : parseSource text file? limit = .ok e) :
    e.equals e = true :=
  Expr.equals_self_iff.mpr fun v hv => (unsigned_of_parseSource h v hv).isNaN_eq_false

/-- Equal trees of sources are the same tree, to the last bit. -/
theorem eq_of_equals_parseSource (ha : parseSource text file? limit = .ok a)
    (hb : parseSource text' file?' limit' = .ok b) (h : a.equals b = true) : a = b := by
  have hself {e : Expr} (he : ∀ v ∈ e.literals, v.Unsigned) : e.canonical = e :=
    Expr.canonical_eq_self fun v hv => (he v hv).canonical_eq_self
  obtain ⟨-, -, hcanonical⟩ := Expr.equals_iff.mp h
  rwa [hself (unsigned_of_parseSource ha), hself (unsigned_of_parseSource hb)] at hcanonical

end Source

/--
**Equality of trees is a sound comparison.** It is symmetric and transitive, and a tree equals
itself exactly if no value in it, at a leaf or attached to an operator, is a code for no number.
Equal trees have the same depth, and are printed in the same pieces but for leaves of which one is
shown as `0` and the other as `-0`. The tree of a source equals itself, and equal trees of sources
are printed alike.
-/
theorem equals_sound :
    (∀ a b : Expr, a.equals b = true → b.equals a = true) ∧
    (∀ a b c : Expr, a.equals b = true → b.equals c = true → a.equals c = true) ∧
    (∀ a : Expr, a.equals a = true ↔ ∀ v ∈ a.literals, v.isNaN = false) ∧
    (∀ a b : Expr, a.equals b = true → a.depth = b.depth ∧
      String.join (a.pieces.map Piece.display) = a.print ∧
      String.join (b.pieces.map Piece.display) = b.print ∧
      List.Forall₂ Piece.Alike a.pieces b.pieces) ∧
    (∀ (text : String) (file? : Option String) (limit : Nat) (e : Expr),
      parseSource text file? limit = .ok e → e.equals e = true) ∧
    ∀ (text text' : String) (file? file?' : Option String) (limit limit' : Nat) (a b : Expr),
      parseSource text file? limit = .ok a → parseSource text' file?' limit' = .ok b →
        a.equals b = true → a.print = b.print := by
  -- each law is a lemma of its own; only equal depth and equal outline are left to assemble
  refine ⟨fun _ _ => Expr.equals_symm, fun _ _ _ => Expr.equals_trans,
    fun _ => Expr.equals_self_iff, fun a b h => ?_, fun _ _ _ _ => equals_self_of_parseSource,
    fun _ _ _ _ _ _ _ _ ha hb h => congrArg Expr.print (eq_of_equals_parseSource ha hb h)⟩
  exact ⟨Expr.depth_eq_of_equals h, a.join_pieces, b.join_pieces, Expr.alike_pieces_of_equals h⟩

/-- A negated zero. -/
def negatedZero : Expr :=
  .unary ⟨.dash, "-", none, ⟨.at "shell" 0, .at "shell" 1⟩⟩ (.literal (.number (.ofPlace 0)))

/-- Both sources have the tree of a negated zero. -/
theorem parseSource_negatedZero : parseSource "-0" none 128 = .ok negatedZero ∧
    parseSource "-0.0" none 2 = .ok negatedZero := by
  have hok {r : Except Fault Expr} (h : r.toOption = some negatedZero) : r = .ok negatedZero := by
    cases r with
    | error fault => cases h
    | ok e => exact congrArg Except.ok (Option.some.inj h)
  exact ⟨hok (by decide +kernel), hok (by decide +kernel)⟩

/--
A sum that is made by hand, of a zero with a sign or without. A value is attached to the plus.
-/
def zeroSum (negative : Bool) (attached : Number) : Expr :=
  .binary (.literal (.number ⟨negative, Number.placeOf 0⟩))
    ⟨.plus, "+", some (.number attached), ⟨.at "t" 0, .at "t" 1⟩⟩ (.literal .nil)

/--
Two sources have equal trees, which are printed alike. By hand there are equal trees that are not
printed alike, and one that does not equal itself.
-/
theorem equals_sound_zeros :
    (∃ a b, parseSource "-0" none 128 = .ok a ∧ parseSource "-0.0" none 2 = .ok b ∧
      a.equals b = true ∧ a.print = b.print) ∧
    ((zeroSum true (.ofPlace 0)).equals (zeroSum false (.ofPlace 0)) = true ∧
      (zeroSum false (.ofPlace 0)).equals (zeroSum true (.ofPlace 0)) = true ∧
      (zeroSum true (.ofPlace 0)).equals (zeroSum true (.ofPlace 0)) = true) ∧
    ((zeroSum true (.ofPlace 0)).print = "(+ -0 nil)" ∧
      (zeroSum false (.ofPlace 0)).print = "(+ 0 nil)" ∧
      List.Forall₂ Piece.Alike (zeroSum true (.ofPlace 0)).pieces
        (zeroSum false (.ofPlace 0)).pieces) ∧
    (zeroSum false .nan).equals (zeroSum false .nan) ≠ true := by
  obtain ⟨hzero, hzeros⟩ := parseSource_negatedZero
  obtain ⟨hsymm, htrans, hself, hequal, hsource, hprint⟩ := equals_sound
  have heq : negatedZero.equals negatedZero = true := hsource _ _ _ _ hzero
  have hsum : (zeroSum true (.ofPlace 0)).equals (zeroSum false (.ofPlace 0)) = true := by decide
  have hback := hsymm _ _ hsum
  obtain ⟨-, -, -, hpieces⟩ := hequal _ _ hsum
  refine ⟨⟨_, _, hzero, hzeros, heq, hprint _ _ _ _ _ _ _ _ hzero hzeros heq⟩,
    ⟨hsum, hback, htrans _ _ _ hsum hback⟩, ⟨by decide +kernel, by decide +kernel, hpieces⟩,
    fun h => ?_⟩
  -- the value attached to the plus is no number
  have hnan : Literal.number .nan ∈ (zeroSum false .nan).literals := by decide
  exact absurd ((hself _).mp h _ hnan) (by decide)

end LoxExpr
