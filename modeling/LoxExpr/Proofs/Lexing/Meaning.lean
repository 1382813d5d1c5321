import LoxExpr.Proofs.Lexing.Lexeme

/-!
# Kind, text and literal

A token that the scanner makes is a number, a string, a word or one of the fixed texts, and its
kind, its text and its literal say the same. `Agree` lists the four classes. `agree_of_read` gives
the class of every lexeme that is read as a token, and `Agree.coherent` reads the classes off kind
and text.
-/

namespace LoxExpr

/-- The value that a reserved word stands for. -/
def Kind.constant? : Kind → Option Literal
  | .kwTrue => some (.boolean true)
  | .kwFalse => some (.boolean false)
  | .kwNil => some .nil
  | _ => none

/-- A kind that a word is reserved for is in the table with that word. -/
theorem Kind.mem_reserved {word : String} {kind : Kind} (h : ofReserved? word = some kind) :
    (word, kind) ∈ reserved := by
  obtain ⟨before, after, heq, -⟩ := List.lookup_eq_some_iff.mp h
  rw [heq]
  exact List.mem_append_right _ (List.mem_cons_self ..)

/-- The kinds of the reserved words are theirs alone. -/
theorem Kind.of_mem_reserved {word : String} {kind : Kind} (h : (word, kind) ∈ reserved) :
    kind ≠ .eof ∧ kind ≠ .number ∧ kind ≠ .string ∧ kind ≠ .identifier ∧ kind.spelling? = none := by
  have hall : ∀ entry ∈ reserved, entry.2 ≠ .eof ∧ entry.2 ≠ .number ∧ entry.2 ≠ .string ∧
      entry.2 ≠ .identifier ∧ entry.2.spelling? = none := by decide
  exact hall _ h

/-- The classes of token that a source can hold. -/
inductive Agree : Kind → String → Option Literal → Prop where
  | number {lexeme : String} {value : Number} (hshape : Pattern.Lexeme .numeral lexeme.toList)
      (hvalue : Number.read? lexeme = some value) : Agree .number lexeme (some (.number value))
  | string {body : List Char} (hquote : '"' ∉ body) :
      Agree .string (String.ofList ('"' :: body ++ ['"'])) (some (.string (String.ofList body)))
  | reserved {word : String} {kind : Kind} (hshape : Pattern.Lexeme .word word.toList)
      (hreserved : Kind.ofReserved? word = some kind) : Agree kind word kind.constant?
  | identifier {word : String} (hshape : Pattern.Lexeme .word word.toList)
      (hfree : Kind.ofReserved? word = none) : Agree .identifier word none
  | fixed {kind : Kind} {spelling : String} (hspelling : kind.spelling? = some spelling) :
      Agree kind spelling none

/-! ## The reading of a lexeme -/

/-- A reserved word has its kind and value, and any other word is an identifier. -/
theorem Pattern.readWord_eq (word : String) :
    readWord word = match Kind.ofReserved? word with
      | some kind => .token kind kind.constant?
      | none => .token .identifier none := by
  rw [readWord]
  split
  · rename_i h
    rw [h]
    rfl
  · rename_i h
    rw [h]
    rfl
  · rename_i h
    rw [h]
    rfl
  · -- the other reserved words stand for no value
    rename_i kind htrue hfalse hnil h
    rw [h]
    have hconstant : kind.constant? = none := by
      unfold Kind.constant?
      split
      · exact (htrue rfl).elim
      · exact (hfalse rfl).elim
      · exact (hnil rfl).elim
      · rfl
    simp only [hconstant]
  · rename_i h
    rw [h]

/-- The value of a string is what stands between its quotes. -/
theorem Pattern.inner_quoted (body : List Char) :
    inner (String.ofList ('"' :: body ++ ['"'])) = String.ofList body := by
  simp [inner]

/-- A lexeme that is read as a token is one of its kind, and has its literal. -/
theorem agree_of_read {p : Pattern} {lexeme : List Char} {kind : Kind} {literal : Option Literal}
    (hlexeme : p.Lexeme lexeme) (hread : p.read (String.ofList lexeme) = .token kind literal) :
    Agree kind (String.ofList lexeme) literal := by
  have hlist : (String.ofList lexeme).toList = lexeme := String.toList_ofList
  -- by pattern: words, numerals, strings and fixed texts are tokens, the rest is not
  cases p with
  | word =>
    rw [Pattern.read, Pattern.readWord_eq] at hread
    rw [← hlist] at hlexeme
    split at hread
    · rename_i hreserved
      cases hread
      exact .reserved hlexeme hreserved
    · rename_i hfree
      cases hread
      exact .identifier hlexeme hfree
  | numeral =>
    rw [Pattern.read] at hread
    rw [← hlist] at hlexeme
    split at hread
    · rename_i hvalue
      cases hread
      exact .number hlexeme hvalue
    · cases hread
  | string =>
    cases hread
    cases hlexeme with
    | string hquote =>
      rw [Pattern.inner_quoted]
      exact .string hquote
  | fixed kind =>
    cases hread
    cases hlexeme with
    | fixed hspelling =>
      rw [String.ofList_toList]
      exact .fixed hspelling
  | blank => cases hread
  | comment => cases hread
  | openQuote => cases hread

/-- Only white space and comments are left out. -/
theorem Pattern.eq_blank_or_comment_of_read {p : Pattern} {lexeme : String}
    (hread : p.read lexeme = .skip) : p = .blank ∨ p = .comment := by
  -- every other pattern is read as a token or a fault
  cases p with
  | word =>
    rw [read, readWord_eq] at hread
    split at hread <;> cases hread
  | numeral =>
    rw [read] at hread
    split at hread <;> cases hread
  | blank => exact Or.inl rfl
  | comment => exact Or.inr rfl
  | string => cases hread
  | openQuote => cases hread
  | fixed kind => cases hread

/-! ## The class of a token, from its kind and its text -/

/-- Kind, text and literal of a token, each as far as the others settle it. -/
structure Token.Coherent (t : Token) : Prop where
  /-- A number is digits with an optional fraction, and its literal is what they are read as. -/
  number : t.kind = .number → Pattern.Lexeme .numeral t.lexeme.toList ∧
    ∃ value, Number.read? t.lexeme = some value ∧ t.literal = some (.number value)
  /-- A string is a text without quotes between two quotes, and its literal is that text. -/
  string : t.kind = .string → ∃ body, '"' ∉ body ∧ t.lexeme.toList = '"' :: body ++ ['"'] ∧
    t.literal = some (.string (String.ofList body))
  /--
  A word has the kind it is reserved for, with the constant of that kind, or is an identifier.
  -/
  word : Pattern.Lexeme .word t.lexeme.toList →
    t.kind = (Kind.ofReserved? t.lexeme).getD .identifier ∧ t.literal = t.kind.constant?
  /-- Every other token has the one text of its kind, and no literal. -/
  fixed : t.kind ≠ .number → t.kind ≠ .string → ¬ Pattern.Lexeme .word t.lexeme.toList →
    t.kind.spelling? = some t.lexeme ∧ t.literal = none

/-! ### The classes share no text -/

/-- A text that cannot start a word is none. -/
theorem not_word_of_head {c : Char} {cs : List Char} (h : Pattern.isWordStart c = false) :
    ¬ Pattern.Lexeme .word (c :: cs) := by
  intro hword
  cases hword with
  | word hstart _ => exact absurd (h.symm.trans hstart) (by decide)

theorem not_word_of_numeral {cs : List Char} (h : Pattern.Lexeme .numeral cs) :
    ¬ Pattern.Lexeme .word cs := by
  obtain ⟨d, tail, rfl, hd⟩ := h.numeral_head
  exact not_word_of_head (Pattern.isWordStart_eq_false_of_isDigit hd)

theorem not_word_of_spelling {kind : Kind} {spelling : String}
    (h : kind.spelling? = some spelling) : ¬ Pattern.Lexeme .word spelling.toList := by
  cases kind <;> cases h <;> exact not_word_of_head (by decide)

/-- A token of a class has the kind and the literal that its text alone decides. -/
theorem Agree.coherent {t : Token} (h : Agree t.kind t.lexeme t.literal) : t.Coherent := by
  -- the class gives its own clause of the four, and the clauses of the other classes are empty
  obtain ⟨kind, lexeme, literal, span⟩ := t
  change Agree kind lexeme literal at h
  cases h with
  | @number _ value hshape hvalue =>
    exact {
      number := fun _ => ⟨hshape, value, hvalue, rfl⟩
      string := fun hkind => nomatch hkind
      word := fun hword => absurd hword (not_word_of_numeral hshape)
      fixed := fun hkind => absurd rfl hkind }
  | @string body hquote =>
    have hlist : (String.ofList ('"' :: body ++ ['"'])).toList = '"' :: body ++ ['"'] :=
      String.toList_ofList
    exact {
      number := fun hkind => nomatch hkind
      string := fun _ => ⟨body, hquote, hlist, rfl⟩
      word := fun hword => absurd (hlist ▸ hword) (not_word_of_head (by decide))
      fixed := fun _ hkind => absurd rfl hkind }
  | reserved hshape hreserved =>
    -- reserved kinds are neither numbers nor strings
    obtain ⟨-, hnumber, hstring, -, -⟩ := Kind.of_mem_reserved (Kind.mem_reserved hreserved)
    exact {
      number := fun hkind => absurd hkind hnumber
      string := fun hkind => absurd hkind hstring
      word := fun _ => ⟨by rw [hreserved]; rfl, rfl⟩
      fixed := fun _ _ hword => absurd hshape hword }
  | identifier hshape hfree =>
    exact {
      number := fun hkind => nomatch hkind
      string := fun hkind => nomatch hkind
      word := fun _ => ⟨by rw [hfree]; rfl, rfl⟩
      fixed := fun _ _ hword => absurd hshape hword }
  | fixed hspelling =>
    refine ⟨?_, ?_, fun hword => absurd hword (not_word_of_spelling hspelling),
      fun _ _ _ => ⟨hspelling, rfl⟩⟩
    · rintro rfl
      cases hspelling
    · rintro rfl
      cases hspelling

/-- No lexeme is an end of input. -/
theorem Agree.ne_eof {kind : Kind} {lexeme : String} {literal : Option Literal}
    (h : Agree kind lexeme literal) : kind ≠ .eof := by
  cases h with
  | number => decide
  | string => decide
  | reserved _ hreserved => exact (Kind.of_mem_reserved (Kind.mem_reserved hreserved)).1
  | identifier => decide
  | fixed hspelling =>
    rintro rfl
    cases hspelling

/-- A token of a kind with one text has that text. -/
theorem Agree.lexeme_eq {kind : Kind} {lexeme spelling : String} {literal : Option Literal}
    (h : Agree kind lexeme literal) (hspelling : kind.spelling? = some spelling) :
    lexeme = spelling := by
  cases h with
  | number => cases hspelling
  | string => cases hspelling
  | reserved _ hreserved =>
    -- the spelling of a reserved word is not among the fixed ones
    obtain ⟨-, -, -, -, hnone⟩ := Kind.of_mem_reserved (Kind.mem_reserved hreserved)
    rw [hnone] at hspelling
    cases hspelling
  | identifier => cases hspelling
  | fixed hown => exact Option.some.inj (hown.symm.trans hspelling)

end LoxExpr
