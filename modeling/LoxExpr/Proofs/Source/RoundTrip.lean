import LoxExpr.Proofs.Grammar.Acceptance
import LoxExpr.Proofs.Lexing.Spacing
import LoxExpr.Proofs.Number.Display
import LoxExpr.Proofs.Source.Result

/-!
# Written trees

A tree is written in infix form by its tokens from left to right, with white space between them.
Numbers are written as they are shown, strings between quotes, and operators by their texts. What is
written is scanned and parsed to the tree it was written from (`parseSource_written`); the only
difference is where the operators stand.
-/

namespace LoxExpr

/-! ## The tokens of a tree -/

/-- Where a token stands that is not yet written. -/
def Span.nowhere : Span :=
  ⟨⟨0, ""⟩, ⟨0, ""⟩⟩

/-- A literal as it is written. -/
def Literal.token : Literal → Token
  | .number value => ⟨.number, value.display, some (.number value), .nowhere⟩
  | .string text =>
    ⟨.string, String.ofList ('"' :: text.toList ++ ['"']), some (.string text), .nowhere⟩
  | .boolean true => ⟨.kwTrue, "true", some (.boolean true), .nowhere⟩
  | .boolean false => ⟨.kwFalse, "false", some (.boolean false), .nowhere⟩
  | .nil => ⟨.kwNil, "nil", some .nil, .nowhere⟩

/-- A tree in infix form. -/
def Expr.tokens : Expr → List Token
  | .literal v => [v.token]
  | .unary operator operand => operator :: operand.tokens
  | .binary left operator right => left.tokens ++ operator :: right.tokens
  | .grouping inner =>
    ⟨.openParen, "(", none, .nowhere⟩ :: (inner.tokens ++ [⟨.closeParen, ")", none, .nowhere⟩])

/-- A string without a quote, and a number that is shown in digits. -/
def Literal.Writable : Literal → Prop
  | .number value => value.isFinite = true ∧ value.negative = false
  | .string text => '"' ∉ text.toList
  | .boolean _ => True
  | .nil => True

/-- A token with the one text of its kind, and no literal. -/
def Token.Fixed (t : Token) : Prop :=
  t.kind.spelling? = some t.lexeme ∧ t.literal = none

/--
A tree that has a written form: its literals can be written, and its operators are themselves.
-/
def Expr.Writable : Expr → Prop
  | .literal v => v.Writable
  | .unary operator operand => operator.Fixed ∧ operand.Writable
  | .binary left operator right => left.Writable ∧ operator.Fixed ∧ right.Writable
  | .grouping inner => inner.Writable

/-! ## Each token says what it is -/

/-- A token with a fixed text is what its text says. -/
theorem Token.Fixed.agree {t : Token} (h : t.Fixed) : Agree t.kind t.lexeme t.literal := by
  obtain ⟨hspelling, hliteral⟩ := h
  rw [hliteral]
  exact .fixed hspelling

/-- The token that a literal is written as reads as that literal. -/
theorem Literal.Writable.agree {v : Literal} (h : v.Writable) :
    Agree v.token.kind v.token.lexeme v.token.literal := by
  cases v with
  | number value =>
    exact .number (Number.display_isNumeral h.1 h.2) (Number.read?_display h.1 h.2)
  | string text =>
    have hagree := Agree.string h
    rw [String.ofList_toList] at hagree
    exact hagree
  | boolean value =>
    cases value with
    | true => exact .reserved (.word (by decide) (List.all_eq_true.mp (by decide))) (by decide)
    | false => exact .reserved (.word (by decide) (List.all_eq_true.mp (by decide))) (by decide)
  | nil => exact .reserved (.word (by decide) (List.all_eq_true.mp (by decide))) (by decide)

/-- All tokens of a tree that can be written are what their texts say. -/
theorem Expr.Writable.agree {e : Expr} (h : e.Writable) :
    ∀ t ∈ e.tokens, Agree t.kind t.lexeme t.literal := by
  induction e with
  | literal v =>
    rw [tokens, List.forall_mem_singleton]
    exact Literal.Writable.agree h
  | unary operator operand ih =>
    rw [tokens, List.forall_mem_cons]
    exact ⟨h.1.agree, ih h.2⟩
  | binary left operator right ihl ihr =>
    rw [tokens, List.forall_mem_append, List.forall_mem_cons]
    exact ⟨ihl h.1, h.2.1.agree, ihr h.2.2⟩
  | grouping inner ih =>
    rw [tokens, List.forall_mem_cons, List.forall_mem_append, List.forall_mem_singleton]
    exact ⟨.fixed rfl, ih h, .fixed rfl⟩

theorem Literal.isLiteral_token (v : Literal) : v.token.kind.IsLiteral := by
  cases v with
  | number value => exact (by decide : Kind.IsLiteral .number)
  | string text => exact (by decide : Kind.IsLiteral .string)
  | boolean value => cases value <;> decide
  | nil => decide

/-- A literal is written as a token with its value. -/
theorem Literal.literal_token (v : Literal) : v.token.literal = some v := by
  cases v with
  | number value => rfl
  | string text => rfl
  | boolean value => cases value <;> rfl
  | nil => rfl

/-- A tree is the tree of the tokens that it is written as. -/
theorem Expr.yields_tokens (e : Expr) : e.Yields e.tokens := by
  induction e with
  | literal v => exact .literal v.isLiteral_token (.attached v.literal_token)
  | unary operator operand ih => exact .unary ih
  | binary left operator right ihl ihr => exact .binary ihl ihr
  | grouping inner ih => exact .grouping rfl rfl ih

/-! ## Back from the text -/

/-- A tree that is written with white space between its tokens is parsed back. -/
theorem parseSource_written {e : Expr} {text : String} {limit : Nat} (hnormal : e.Normal)
    (hwritable : e.Writable) (hdepth : e.depth ≤ limit) (htext : Spaced e.tokens text.toList)
    (file? : Option String) :
    ∃ e', parseSource text file? limit = .ok e' ∧ e'.bare = e.bare := by
  obtain ⟨tokens, s, found, position, hscan, htokens, hfound⟩ :=
    tokenize_spaced htext hwritable.agree file?
  -- the tokens that were found have the kinds of those that were written
  have hproper : ∀ t ∈ found, t.kind ≠ .eof := by
    intro t ht
    have hmem : t.bare ∈ e.tokens.map Token.bare := by
      rw [← hfound]
      exact List.mem_map_of_mem ht
    obtain ⟨u, hu, hbare⟩ := List.mem_map.mp hmem
    rw [← (Token.bare_eq_bare_iff.mp hbare).1]
    exact (hwritable.agree u hu).ne_eof
  -- they have a tree like `e`, of the same depth, and the parser hands back the tree of its tokens
  have htree : e.IsTreeOf e.tokens := ⟨hnormal, e.yields_tokens⟩
  obtain ⟨e', htree', hbare⟩ := htree.of_bare hfound
  have hdepth' : e'.depth = e.depth := by
    rw [← Expr.depth_bare, hbare, Expr.depth_bare]
  rw [← beforeEnd_append hproper, ← htokens] at htree'
  refine ⟨e', ?_, hbare⟩
  rcases parse_of_tree htree' limit with ⟨q, hparse⟩ | ⟨-, hdeep⟩
  · exact parseSource_eq_ok_iff.mpr ⟨tokens, s, q, hscan, hparse⟩
  · omega

/-! ## A way to write a tree -/

/-- A tree with one space in front of every token. -/
def Expr.write (e : Expr) : String :=
  String.ofList (e.tokens.flatMap fun t => ' ' :: t.lexeme.toList)

/-- Tokens with a space in front of each are spaced. -/
theorem spaced_flatMap (ts : List Token) :
    Spaced ts (ts.flatMap fun t => ' ' :: t.lexeme.toList) := by
  have hspace : ∀ c ∈ [' '], Text.isBlank c = true := List.forall_mem_singleton.mpr (by decide)
  induction ts with
  | nil => exact .nil (by simp)
  | cons t ts ih =>
    refine Spaced.cons hspace ?_ ih
    -- behind the token comes the space in front of the next one, or nothing
    cases ts with
    | nil => simp
    | cons u us =>
      rintro c hc
      cases hc
      decide

theorem Expr.spaced_write (e : Expr) : Spaced e.tokens e.write.toList := by
  rw [write, String.toList_ofList]
  exact spaced_flatMap e.tokens

/-- The number nearest to one tenth. -/
def tenth : Number :=
  ⟨false, ⟨0x3FB999999999999A, by decide⟩⟩

/-- A tree with every kind of node, and a string that would be a comment without its quotes. -/
def mixedTree : Expr :=
  .binary
    (.unary ⟨.dash, "-", none, .nowhere⟩ (.grouping
      (.binary (.literal (.number tenth)) ⟨.dash, "-", none, .nowhere⟩ (.literal (.string "//")))))
    ⟨.notEquals, "!=", none, .nowhere⟩ (.literal .nil)

/-- A tree of every kind of node is written, and parsed back. -/
theorem mixedTree_written : mixedTree.Normal ∧ mixedTree.Writable ∧ mixedTree.depth ≤ 5 ∧
    mixedTree.write = " - ( 0.1 - \"//\" ) != nil" ∧
    ∃ e', parseSource mixedTree.write none 5 = .ok e' ∧ e'.bare = mixedTree.bare := by
  have hnormal : mixedTree.Normal :=
    ⟨.equality, rfl, by decide, by decide, ⟨by decide, by decide, .term, rfl, by decide, by decide,
      trivial, trivial⟩, trivial⟩
  have hquote : '"' ∉ "//".toList := by decide
  have hwritable : mixedTree.Writable :=
    ⟨⟨⟨rfl, rfl⟩, ⟨by decide, rfl⟩, ⟨rfl, rfl⟩, hquote⟩, ⟨rfl, rfl⟩, trivial⟩
  have hdepth : mixedTree.depth ≤ 5 := by decide
  exact ⟨hnormal, hwritable, hdepth, by decide +kernel,
    parseSource_written hnormal hwritable hdepth mixedTree.spaced_write none⟩

end LoxExpr
