import LoxExpr.Expr.Printer
import LoxExpr.Proofs.Lexing.Lexeme

/-!
# Reading printed trees

A printed tree is a word or a list in parentheses, and its parts have one space between them. As
long as the texts in it are words themselves (`Expr.Legible`), such a text can be split in one way
only: it determines the outline of the tree and where the tree ends in a longer text
(`sameOutline_of_print_append`). So trees are printed alike exactly if they have one outline
(`print_eq_iff_sameOutline`).
-/

namespace LoxExpr

/-! ## Words -/

/-- Does the character belong to a word of a printed tree? Spaces and parentheses end one. -/
def isWordChar (c : Char) : Bool :=
  c ≠ ' ' && c ≠ '(' && c ≠ ')'

/-- A text that stands in a printed tree as one word. -/
def IsWord (text : String) : Prop :=
  text ≠ "" ∧ ∀ c ∈ text.toList, isWordChar c = true

instance (text : String) : Decidable (IsWord text) :=
  decidable_of_iff (text ≠ "" ∧ text.toList.all isWordChar = true)
    (and_congr_right' List.all_eq_true)

/-- What may follow a tree in a longer text. -/
def Closes (rest : List Char) : Prop :=
  ∀ c ∈ rest.head?, isWordChar c = false

theorem closes_space (rest : List Char) : Closes (' ' :: rest) := by
  intro c hc
  cases hc
  rfl

theorem closes_paren (rest : List Char) : Closes (')' :: rest) := by
  intro c hc
  cases hc
  rfl

/-- A word ends where a character comes that is in no word. -/
theorem eq_of_word_append {a b : String} {r s : List Char} (ha : IsWord a) (hb : IsWord b)
    (hr : Closes r) (hs : Closes s) (h : a.toList ++ r = b.toList ++ s) : a = b ∧ r = s := by
  have hword : a.toList = b.toList := by
    rw [← Pattern.takeWhile_append_eq ha.2 hr, h, Pattern.takeWhile_append_eq hb.2 hs]
  rw [hword] at h
  exact ⟨String.toList_inj.mp hword, List.append_cancel_left h⟩

/-- No word begins with a parenthesis. -/
theorem IsWord.head_ne_paren {a : String} (ha : IsWord a) (r s : List Char) :
    a.toList ++ r ≠ '(' :: s := by
  intro h
  cases hlist : a.toList with
  | nil => exact ha.1 (String.toList_inj.mp hlist)
  | cons c cs =>
    have hc : isWordChar c = true := ha.2 c (by rw [hlist]; exact List.mem_cons_self ..)
    rw [hlist] at h
    rw [(List.cons.inj h).1] at hc
    exact absurd hc (by decide)

namespace Expr

/-! ## Trees that print as words in parentheses -/

/--
The operator texts and the shown literals of the tree are words, and no operator has the text that
marks a grouping.
-/
def Legible : Expr → Prop
  | .literal value => IsWord value.display
  | .unary operator operand => IsWord operator.lexeme ∧ operator.lexeme ≠ "group" ∧ operand.Legible
  | .binary left operator right =>
    IsWord operator.lexeme ∧ operator.lexeme ≠ "group" ∧ left.Legible ∧ right.Legible
  | .grouping inner => inner.Legible

/--
The trees have the same shape, with the same texts at their operators and the same shown literals at
their leaves.
-/
inductive SameOutline : Expr → Expr → Prop where
  | literal {v w : Literal} (hshown : v.display = w.display) : SameOutline (.literal v) (.literal w)
  | unary {op op' : Token} {a a' : Expr} (hop : op.lexeme = op'.lexeme) (h : SameOutline a a') :
      SameOutline (.unary op a) (.unary op' a')
  | binary {op op' : Token} {a a' b b' : Expr} (hop : op.lexeme = op'.lexeme)
      (hleft : SameOutline a a') (hright : SameOutline b b') :
      SameOutline (.binary a op b) (.binary a' op' b')
  | grouping {a a' : Expr} (h : SameOutline a a') : SameOutline (.grouping a) (.grouping a')

/-- Trees of the same outline are printed alike. -/
theorem SameOutline.print_eq {a b : Expr} (h : SameOutline a b) : a.print = b.print := by
  induction h with
  | literal hshown => exact hshown
  | unary hop _ ih => rw [print, print, hop, ih]
  | binary hop _ _ ihLeft ihRight => rw [print, print, hop, ihLeft, ihRight]
  | grouping _ ih => rw [print, print, ih]

/-! ## The text of a tree within a longer text -/

section Append

variable {a b : Expr} {op : Token} {r : List Char}

/-- A prefix operator is printed with its operand in parentheses. -/
theorem print_unary_append : (unary op a).print.toList ++ r =
    '(' :: (op.lexeme.toList ++ ' ' :: (a.print.toList ++ ')' :: r)) := by
  simp [print]

/-- A binary operator is printed in front of both operands, in parentheses. -/
theorem print_binary_append : (binary a op b).print.toList ++ r =
    '(' :: (op.lexeme.toList ++ ' ' :: (a.print.toList ++ ' ' :: (b.print.toList ++ ')' :: r))) := by
  simp [print]

/-- A grouping is printed as an operator of its own would be. -/
theorem print_grouping_append : (grouping a).print.toList ++ r =
    '(' :: ("group".toList ++ ' ' :: (a.print.toList ++ ')' :: r)) := by
  simp [print]

end Append

/-- The name that groupings are printed with is a word. -/
theorem isWord_group : IsWord "group" := by decide

/-- Lists in parentheses with one text begin with one word, and go on with one text behind it. -/
theorem eq_of_list_append {a b : String} {r s : List Char} (ha : IsWord a) (hb : IsWord b)
    (h : '(' :: (a.toList ++ ' ' :: r) = '(' :: (b.toList ++ ' ' :: s)) : a = b ∧ r = s := by
  obtain ⟨hword, hrest⟩ :=
    eq_of_word_append ha hb (closes_space r) (closes_space s) (List.cons.inj h).2
  exact ⟨hword, (List.cons.inj hrest).2⟩

/--
A tree that is printed at the start of a text is determined up to its outline, and so is where it
ends.
-/
theorem sameOutline_of_print_append {a b : Expr} {r s : List Char} (ha : a.Legible)
    (hb : b.Legible) (hr : Closes r) (hs : Closes s)
    (h : a.print.toList ++ r = b.print.toList ++ s) : SameOutline a b ∧ r = s := by
  -- two trees that one list holds as its last part end at the same parenthesis
  have hlast {a a' : Expr} {r s : List Char} (h : SameOutline a a' ∧ ')' :: r = ')' :: s) :
      SameOutline a a' ∧ r = s := ⟨h.1, (List.cons.inj h.2).2⟩
  -- The induction is on the first tree, for any second one and any texts behind the two. What
  -- stands behind a word tells where it ends, and the word itself which kind of tree it is.
  induction a generalizing b r s with
  | literal v =>
    cases b with
    | literal w =>
      obtain ⟨hshown, hrest⟩ := eq_of_word_append ha hb hr hs h
      exact ⟨.literal hshown, hrest⟩
    | unary => exact absurd (h.trans print_unary_append) (IsWord.head_ne_paren ha _ _)
    | binary => exact absurd (h.trans print_binary_append) (IsWord.head_ne_paren ha _ _)
    | grouping => exact absurd (h.trans print_grouping_append) (IsWord.head_ne_paren ha _ _)
  | unary op a ih =>
    obtain ⟨hop, hgroup, hoperand⟩ := ha
    rw [print_unary_append] at h
    cases b with
    | literal w => exact absurd h.symm (IsWord.head_ne_paren hb _ _)
    | unary op' a' =>
      rw [print_unary_append] at h
      obtain ⟨htext, hrest⟩ := eq_of_list_append hop hb.1 h
      obtain ⟨houtline, hend⟩ :=
        hlast (ih hoperand hb.2.2 (closes_paren r) (closes_paren s) hrest)
      exact ⟨.unary htext houtline, hend⟩
    | binary left op' right =>
      -- behind the first operand the one list ends, and the other goes on with a space
      rw [print_binary_append] at h
      obtain ⟨-, hrest⟩ := eq_of_list_append hop hb.1 h
      obtain ⟨-, hend⟩ := ih hoperand hb.2.2.1 (closes_paren r) (closes_space _) hrest
      cases hend
    | grouping a' =>
      rw [print_grouping_append] at h
      exact absurd (eq_of_list_append hop isWord_group h).1 hgroup
  | binary left op right ihLeft ihRight =>
    obtain ⟨hop, hgroup, hleft, hright⟩ := ha
    rw [print_binary_append] at h
    cases b with
    | literal w => exact absurd h.symm (IsWord.head_ne_paren hb _ _)
    | unary op' a' =>
      rw [print_unary_append] at h
      obtain ⟨-, hrest⟩ := eq_of_list_append hop hb.1 h
      obtain ⟨-, hend⟩ := ihLeft hleft hb.2.2 (closes_space _) (closes_paren s) hrest
      cases hend
    | binary left' op' right' =>
      rw [print_binary_append] at h
      obtain ⟨htext, hrest⟩ := eq_of_list_append hop hb.1 h
      obtain ⟨houtline, hnext⟩ :=
        ihLeft hleft hb.2.2.1 (closes_space _) (closes_space _) hrest
      obtain ⟨houtline', hend⟩ := hlast
        (ihRight hright hb.2.2.2 (closes_paren r) (closes_paren s) (List.cons.inj hnext).2)
      exact ⟨.binary htext houtline houtline', hend⟩
    | grouping a' =>
      rw [print_grouping_append] at h
      exact absurd (eq_of_list_append hop isWord_group h).1 hgroup
  | grouping a ih =>
    rw [print_grouping_append] at h
    cases b with
    | literal w => exact absurd h.symm (IsWord.head_ne_paren hb _ _)
    | unary op' a' =>
      rw [print_unary_append] at h
      exact absurd (eq_of_list_append isWord_group hb.1 h).1.symm hb.2.1
    | binary left' op' right' =>
      rw [print_binary_append] at h
      exact absurd (eq_of_list_append isWord_group hb.1 h).1.symm hb.2.1
    | grouping a' =>
      rw [print_grouping_append] at h
      have hinner : a'.Legible := hb
      obtain ⟨-, hrest⟩ := eq_of_list_append isWord_group isWord_group h
      obtain ⟨houtline, hend⟩ := hlast (ih ha hinner (closes_paren r) (closes_paren s) hrest)
      exact ⟨.grouping houtline, hend⟩

/-- Legible trees are printed alike exactly if they have one outline. -/
theorem print_eq_iff_sameOutline {a b : Expr} (ha : a.Legible) (hb : b.Legible) :
    a.print = b.print ↔ SameOutline a b := by
  constructor
  · intro h
    have hnone : Closes [] := fun c hc => nomatch hc
    exact (sameOutline_of_print_append ha hb hnone hnone (by rw [h])).1
  · exact SameOutline.print_eq

end Expr

end LoxExpr
