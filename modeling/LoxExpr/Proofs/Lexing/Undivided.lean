import LoxExpr.Proofs.Lexing.Layout
import LoxExpr.Proofs.Lexing.Munch

/-!
# Tokens that could not be longer

Since the scanner takes the longest match, it divides nothing that belongs together. An operator of
two characters is never split, and neither is a numeral or a word (`Undivided`). The other way
round, every word of a source is one token, unless it stands in a string or in a comment
(`Steps.wordAt`).
-/

namespace LoxExpr

open Pattern

/-! ## One token and what follows it -/

/-- A token that could not have been longer, with the text that follows it. -/
structure Undivided (t : Token) (after : List Char) : Prop where
  /-- No lexeme that begins where the token does is longer. -/
  longest : ∃ p, Longest p t.lexeme.toList after
  /-- An operator of two characters is not split. -/
  operator : t.kind ∈ [.not, .assignment, .greater, .less] → '=' ∉ after.head?
  /-- The slashes of a comment are no tokens. -/
  slash : t.kind = .slash → '/' ∉ after.head?
  /-- A number takes all digits, and a point only if it stands between digits. -/
  number : t.kind = .number → (∀ c ∈ after.head?, c.isDigit = false) ∧
    ((IsDigits t.lexeme.toList ∧ ∀ c tail, after = '.' :: c :: tail → c.isDigit = false) ∨
      ∃ ds fs, t.lexeme.toList = ds ++ '.' :: fs ∧ IsDigits ds ∧ IsDigits fs)
  /-- A word is all of a run of letters, digits and underscores, and reserved only as a whole. -/
  word : ∀ c ∈ t.lexeme.toList.head?, isWordStart c = true →
    t.lexeme.toList = (t.lexeme.toList ++ after).takeWhile isWordPart ∧
      t.kind = (Kind.ofReserved? t.lexeme).getD .identifier

namespace Pattern

/-- The pattern of a token tells its kind. -/
theorem kind_of_read {p : Pattern} {lexeme : String} {kind : Kind} {literal : Option Literal}
    (h : p.read lexeme = .token kind literal) :
    (p = .word ∧ kind = (Kind.ofReserved? lexeme).getD .identifier) ∨
      (p = .numeral ∧ kind = .number) ∨ (p = .string ∧ kind = .string) ∨ p = .fixed kind := by
  -- by pattern; what is left out or refused is no token
  cases p with
  | word =>
    rw [read, readWord_eq] at h
    split at h
    · rename_i hreserved
      cases h
      exact Or.inl ⟨rfl, by rw [hreserved]; rfl⟩
    · rename_i hfree
      cases h
      exact Or.inl ⟨rfl, by rw [hfree]; rfl⟩
  | numeral =>
    rw [read] at h
    split at h
    · cases h
      exact Or.inr (Or.inl ⟨rfl, rfl⟩)
    · cases h
  | string =>
    cases h
    exact Or.inr (Or.inr (Or.inl ⟨rfl, rfl⟩))
  | fixed kind =>
    cases h
    exact Or.inr (Or.inr (Or.inr rfl))
  | blank => cases h
  | openQuote => cases h
  | comment => cases h

/-- A word has the kind that it is reserved for, or is an identifier. -/
theorem kind_of_word_read {lexeme : String} {kind : Kind} {literal : Option Literal}
    (h : Pattern.word.read lexeme = .token kind literal) :
    kind = (Kind.ofReserved? lexeme).getD .identifier := by
  rcases kind_of_read h with ⟨-, hkind⟩ | ⟨hp, -⟩ | ⟨hp, -⟩ | hp
  · exact hkind
  all_goals cases hp

/-- A kind with a text of its own is read from that text alone. -/
theorem eq_fixed_of_read {p : Pattern} {lexeme : String} {kind : Kind} {literal : Option Literal}
    (h : p.read lexeme = .token kind literal) (hkind : kind.spelling? ≠ none) :
    p = .fixed kind := by
  -- words, numerals and strings are of no kind with a fixed text
  rcases kind_of_read h with ⟨-, hword⟩ | ⟨-, rfl⟩ | ⟨-, rfl⟩ | hfixed
  · cases hreserved : Kind.ofReserved? lexeme with
    | none =>
      rw [hreserved] at hword
      exact absurd (by rw [hword]; rfl) hkind
    | some reserved =>
      rw [hreserved] at hword
      obtain ⟨-, -, -, -, hnone⟩ := Kind.of_mem_reserved (Kind.mem_reserved hreserved)
      exact absurd (by rw [hword]; exact hnone) hkind
  · exact absurd rfl hkind
  · exact absurd rfl hkind
  · exact hfixed

/-- Only numerals are read as numbers. -/
theorem eq_numeral_of_read {p : Pattern} {lexeme : String} {literal : Option Literal}
    (hlexeme : p.Lexeme lexeme.toList) (h : p.read lexeme = .token .number literal) :
    p = .numeral := by
  rcases kind_of_read h with ⟨-, hword⟩ | ⟨hp, -⟩ | ⟨-, hstring⟩ | rfl
  · cases hreserved : Kind.ofReserved? lexeme with
    | none => simp [hreserved] at hword
    | some kind =>
      rw [hreserved] at hword
      obtain ⟨-, hnumber, -⟩ := Kind.of_mem_reserved (Kind.mem_reserved hreserved)
      exact absurd hword.symm hnumber
  · exact hp
  · cases hstring
  · -- a number has no text of its own
    generalize lexeme.toList = cs at hlexeme
    cases hlexeme with
    | fixed hspelling => cases hspelling

/-- A lexeme that starts like a word is one. -/
theorem eq_word_of_head? {p : Pattern} {c : Char} {cs : List Char} (h : p.Lexeme (c :: cs))
    (hstart : isWordStart c = true) : p = .word := by
  by_contra hne
  have hword : Lexeme .word [c] := .word hstart (List.forall_mem_nil _)
  rcases short_or_short_of_starts (mem_table_of_lexeme h) (mem_table_of_lexeme hword) hne
    (starts_of_lexeme h) (starts_of_lexeme hword) with ⟨-, hshort, -⟩ | ⟨hlong, -, -⟩
  · simp [short] at hshort
  · simp [long, paired] at hlong

end Pattern

/--
A token of a single character is not followed by one with which it would make a longer lexeme.
-/
theorem not_mem_head?_of_pair {p q : Pattern} {t : Token} {a b : Char} {after : List Char}
    (hlongest : Longest p t.lexeme.toList after) (hread : p.read t.lexeme = .token t.kind t.literal)
    (hspelling : t.kind.spelling? = some (String.ofList [a])) (hpair : q.Lexeme [a, b]) :
    b ∉ after.head? := by
  -- the pair would be a longer match than the one that was chosen
  obtain rfl := eq_fixed_of_read hread (by simp [hspelling])
  have hlexeme := hlongest.isLexeme
  generalize t.lexeme.toList = lexeme at hlexeme hlongest
  cases hlexeme with
  | fixed h =>
    cases hspelling.symm.trans h
    rw [String.toList_ofList] at hlongest
    exact hlongest.not_mem_head? hpair

/--
A numeral ends in front of no further digit, and not in front of decimal places that it could have.
-/
theorem numeral_ends {lexeme after : List Char} (hlexeme : Lexeme .numeral lexeme)
    (hends : Ends .numeral lexeme after) : (∀ c ∈ after.head?, c.isDigit = false) ∧
      ((IsDigits lexeme ∧ ∀ c tail, after = '.' :: c :: tail → c.isDigit = false) ∨
        ∃ ds fs, lexeme = ds ++ '.' :: fs ∧ IsDigits ds ∧ IsDigits fs) := by
  obtain ⟨hdigit, hpoint⟩ := hends
  refine ⟨hdigit, ?_⟩
  cases hlexeme with
  | whole hdigits => exact Or.inl ⟨hdigits, hpoint.resolve_left hdigits.not_mem_point⟩
  | fraction hdigits hplaces => exact Or.inr ⟨_, _, rfl, hdigits, hplaces⟩

/-- A word is all the parts of words that stand in a row, and has the kind of the whole. -/
theorem word_ends {t : Token} {after : List Char} (hlexeme : Lexeme .word t.lexeme.toList)
    (hends : Ends .word t.lexeme.toList after)
    (hread : Pattern.word.read t.lexeme = .token t.kind t.literal) :
    t.lexeme.toList = (t.lexeme.toList ++ after).takeWhile isWordPart ∧
      t.kind = (Kind.ofReserved? t.lexeme).getD .identifier :=
  ⟨(takeWhile_append_eq (isWordPart_of_word hlexeme) hends).symm, kind_of_word_read hread⟩

/-- What is chosen is divided from what follows it nowhere else. -/
theorem undivided_of_first? {p : Pattern} {t : Token} {after : List Char}
    (hfirst : first? (t.lexeme.toList ++ after) = some (p, t.lexeme.toList, after))
    (hread : p.read t.lexeme = .token t.kind t.literal) : Undivided t after := by
  have hlongest := longest_of_first? hfirst
  obtain ⟨-, hlexeme, hends⟩ := split?_eq_some_iff.mp (split?_of_first? hfirst)
  refine ⟨⟨p, hlongest⟩, ?_, ?_, ?_, ?_⟩
  · intro hkind
    -- an operator that could take the equals sign behind it would have been the longer one
    have hpair {a : Char} (kind : Kind) (hspelling : t.kind.spelling? = some (String.ofList [a]))
        (h : kind.spelling? = some (String.ofList [a, '='])) : '=' ∉ after.head? :=
      not_mem_head?_of_pair hlongest hread hspelling (fixed_of_ofList h)
    simp only [List.mem_cons, List.not_mem_nil, or_false] at hkind
    rcases hkind with h | h | h | h
    · exact hpair .notEquals (h ▸ rfl) rfl
    · exact hpair .equals (h ▸ rfl) rfl
    · exact hpair .greaterEquals (h ▸ rfl) rfl
    · exact hpair .lessEquals (h ▸ rfl) rfl
  · intro hkind
    exact not_mem_head?_of_pair hlongest hread (hkind ▸ rfl) (.comment (List.not_mem_nil))
  · intro hkind
    rw [hkind] at hread
    obtain rfl := eq_numeral_of_read hlexeme hread
    exact numeral_ends hlexeme hends
  · intro c hc hstart
    obtain ⟨cs, hcs⟩ := List.head?_eq_some_iff.mp hc
    obtain rfl := eq_word_of_head? (hcs ▸ hlexeme) hstart
    exact word_ends hlexeme hends hread

/-- The token stands in a text that begins at a byte of a source, and could not be longer. -/
def Token.StandsIn (t : Token) (file : String) (n : Nat) (cs : List Char) : Prop :=
  ∃ before after, cs = before ++ t.lexeme.toList ++ after ∧
    t.start = .at file (n + Text.byteLength before) ∧ Undivided t after

/-- A token that stands in a text stands in every longer one, as much further back. -/
theorem Token.StandsIn.behind {t : Token} {file : String} {n : Nat} {cs rest : List Char}
    (h : t.StandsIn file (n + Text.byteLength cs) rest) : t.StandsIn file n (cs ++ rest) := by
  obtain ⟨before, after, rfl, hstart, hundivided⟩ := h
  refine ⟨cs ++ before, after, by simp, ?_, hundivided⟩
  rw [hstart, Text.byteLength_append, Nat.add_assoc]

/-- The tokens that steps find stand in the text that the steps use up. -/
theorem Scanner.Steps.standsIn {s s' : Scanner} {left left' : List Char}
    (h : Steps s left s' left') {t : Token} (ht : t ∈ s'.tokens) :
    t ∈ s.tokens ∨ t.StandsIn s.file s.offset left := by
  induction h with
  | done s left => exact Or.inl ht
  | @more s s₁ s₂ left left₁ left₂ hstep hsteps ih =>
    obtain ⟨p, lexeme, hfirst, hcases⟩ := step_eq_ok_iff.mp hstep
    obtain ⟨rfl, -⟩ := first?_eq_some_iff.mp hfirst
    -- a token of a later step stands behind the lexeme of this one
    rcases hcases with ⟨-, rfl⟩ | ⟨kind, literal, hread, rfl⟩
    · exact (ih ht).imp_right Token.StandsIn.behind
    · rcases ih ht with hmem | hlater
      · rcases Array.mem_push.mp hmem with hmem | rfl
        · exact Or.inl hmem
        · refine Or.inr ⟨[], left₁, ?_, rfl, ?_⟩
          · simp [tokenAt]
          · exact undivided_of_first? (p := p) (by simpa [tokenAt] using hfirst) hread
      · exact Or.inr hlater.behind

/-! ## Words -/

namespace Pattern

/-- Letters and underscores stand in words, in strings and in comments. -/
theorem eq_of_wordStart_mem {p : Pattern} {l : List Char} {c : Char} (hl : p.Lexeme l) (hc : c ∈ l)
    (hstart : isWordStart c = true) : p = .word ∨ p = .string ∨ p = .comment := by
  have hpunctuation : punctuation.all (fun c => !isWordStart c) = true := by decide
  -- neither digits nor blanks nor punctuation can start a word
  rcases mem_lexeme hl hc with ⟨h, -⟩ | h | h | rfl | ⟨-, h⟩ | h | ⟨h, -⟩
  · exact Or.inl h
  · simp [isWordStart_eq_false_of_isDigit h] at hstart
  · have hfalse := List.all_eq_true.mp hpunctuation c h
    simp [hstart] at hfalse
  · exact absurd hstart (by decide)
  · simp [isWordStart_eq_false_of_isBlank h] at hstart
  · exact Or.inr (Or.inl h)
  · exact Or.inr (Or.inr h)

/-- A text in three parts, of which the middle one is a word that goes on on neither side. -/
structure IsRun (before run after : List Char) : Prop where
  word : Lexeme .word run
  left : ∀ c ∈ before.getLast?, isWordPart c = false
  right : ∀ c ∈ after.head?, isWordPart c = false

/-- A run of a text is one of what is left behind a lexeme in front of it. -/
theorem IsRun.behind {lexeme before run after : List Char} (h : IsRun (lexeme ++ before) run after) :
    IsRun before run after := by
  refine ⟨h.word, fun c hc => h.left c ?_, h.right⟩
  rw [List.getLast?_append, Option.mem_def.mp hc]
  rfl

/-- A lexeme that holds the first character of the run is the run, or is a string or a comment. -/
theorem IsRun.eq_of_first? {p : Pattern} {before run after lexeme rest tail : List Char} {c : Char}
    (hrun : IsRun before run after) (hfirst : first? (lexeme ++ rest) = some (p, lexeme, rest))
    (hlexeme : lexeme = before ++ c :: tail) (hrest : run ++ after = c :: tail ++ rest) :
    (p = .word ∧ before = [] ∧ lexeme = run) ∨ p = .string ∨ p = .comment := by
  obtain ⟨-, hl, hends⟩ := split?_eq_some_iff.mp (split?_of_first? hfirst)
  have hword := hrun.word
  have hstart : isWordStart c = true := by
    cases hword with
    | word hstart hparts =>
      obtain ⟨rfl, -⟩ := List.cons.inj hrest
      exact hstart
  rcases eq_of_wordStart_mem hl (by simp [hlexeme]) hstart with rfl | hp
  · have hnil : before = [] := by
      -- a character in front of the run would be part of the word, too
      rcases List.eq_nil_or_concat before with hnil | ⟨front, d, rfl⟩
      · exact hnil
      · have hfalse := hrun.left d (by simp)
        rw [isWordPart_of_word hl d (by simp [hlexeme])] at hfalse
        cases hfalse
    subst hnil
    -- both the run and the lexeme are all the parts of words that stand there
    have htake := congrArg (List.takeWhile isWordPart) hrest
    rw [takeWhile_append_eq (isWordPart_of_word hword) hrun.right,
      show c :: tail = lexeme from hlexeme.symm,
      takeWhile_append_eq (isWordPart_of_word hl) hends] at htake
    exact Or.inl ⟨rfl, rfl, htake.symm⟩
  · exact Or.inr hp

end Pattern

/-- One of the tokens is the whole word that stands at a byte of a source. -/
def WordAt (tokens : Array Token) (file : String) (n : Nat) (run : List Char) : Prop :=
  ∃ t ∈ tokens, t.lexeme.toList = run ∧ t.start = .at file n ∧
    t.kind = (Kind.ofReserved? (String.ofList run)).getD .identifier

/-- Steps over a text take a string or a comment that holds the character behind `before`. -/
def Scanner.Hides (s : Scanner) (left before : List Char) : Prop :=
  ∃ p front lexeme rest s', (p = .string ∨ p = .comment) ∧ left = front ++ (lexeme ++ rest) ∧
    Steps s left s' (lexeme ++ rest) ∧ first? (lexeme ++ rest) = some (p, lexeme, rest) ∧
    front <+: before ∧ before.length < (front ++ lexeme).length

/-- What is hidden behind a step was hidden before it. -/
theorem Scanner.Hides.behind {s s' : Scanner} {lexeme left before : List Char}
    (hstep : s.step (lexeme ++ left) = .ok left s') (h : s'.Hides left before) :
    s.Hides (lexeme ++ left) (lexeme ++ before) := by
  obtain ⟨p, front, hidden, rest, s₁, hp, rfl, hsteps, hfirst, hfront, hlength⟩ := h
  refine ⟨p, lexeme ++ front, hidden, rest, s₁, hp, by simp, .more hstep hsteps, hfirst,
    (List.prefix_append_right_inj lexeme).mpr hfront, ?_⟩
  simp only [List.length_append] at hlength ⊢
  omega

/-- Steps that use up a text find every run in it, but in strings and comments. -/
theorem Scanner.Steps.wordAt {s s' : Scanner} {left left' : List Char} (h : Steps s left s' left')
    (hleft' : left' = []) {before run after : List Char} (hleft : left = before ++ (run ++ after))
    (hrun : IsRun before run after) :
    WordAt s'.tokens s.file (s.offset + Text.byteLength before) run ∨ s.Hides left before := by
  -- The induction is on the steps, for any place of the run: a step takes a lexeme in front of it,
  -- or the one that it is in.
  induction h generalizing before with
  | done s left =>
    subst hleft'
    have htail := (List.append_eq_nil_iff.mp hleft.symm).2
    exact absurd (List.append_eq_nil_iff.mp htail).1 (ne_nil_of_lexeme hrun.word)
  | @more s s₁ s₂ left left₁ left₂ hstep hsteps ih =>
    obtain ⟨p, lexeme, hfirst, hcases⟩ := step_eq_ok_iff.mp hstep
    obtain ⟨-, hfile, hoffset⟩ := frame_of_step hstep hfirst
    obtain ⟨rfl, -⟩ := first?_eq_some_iff.mp hfirst
    by_cases hpast : lexeme <+: before
    · -- the run stands behind the lexeme of this step
      obtain ⟨before', rfl⟩ := hpast
      rw [List.append_assoc] at hleft
      rcases ih hleft' (List.append_cancel_left hleft) hrun.behind with hfound | hhides
      · rw [hfile, hoffset, Nat.add_assoc, ← Text.byteLength_append] at hfound
        exact Or.inl hfound
      · exact Or.inr (hhides.behind hstep)
    · -- the lexeme of this step holds the first character of the run
      obtain ⟨c, tail, hlexeme, hrest⟩ :
          ∃ c tail, lexeme = before ++ c :: tail ∧ run ++ after = c :: tail ++ left₁ := by
        rcases List.append_eq_append_iff.mp hleft with ⟨before', rfl, -⟩ | ⟨held, rfl, hrest⟩
        · exact absurd (List.prefix_append ..) hpast
        · cases held with
          | nil => exact absurd (by simp) hpast
          | cons c tail => exact ⟨c, tail, rfl, hrest⟩
      rcases hrun.eq_of_first? hfirst hlexeme hrest with ⟨rfl, rfl, rfl⟩ | hp
      · rcases hcases with ⟨hread, -⟩ | ⟨kind, literal, hread, rfl⟩
        · rcases Pattern.eq_blank_or_comment_of_read hread with hp | hp <;> cases hp
        · refine Or.inl ⟨s.tokenAt kind lexeme literal, ?_, String.toList_ofList, rfl, ?_⟩
          · obtain ⟨found, hfound, -⟩ := hsteps.laid hleft'
            rw [Array.mem_def, hfound]
            simp [skipped, advance, push]
          · exact kind_of_word_read hread
      · exact Or.inr ⟨p, [], lexeme, left₁, s, hp, rfl, .done s _, hfirst, List.nil_prefix,
          by simp [hlexeme]⟩

/--
**First match is longest match.** Of the patterns that apply to a text, the first one in the table
has a longer match than each of the others. So the scanner finds what one finds that takes the
longest match of the same patterns in any order, tokens as well as faults. No token of a source
could have been longer, and outside of strings and comments every word is one token.
-/
theorem tokenize_eq_longest {patterns : List Pattern}
    (hsame : ∀ p, p ∈ patterns ↔ p ∈ Pattern.table) :
    (∀ cs, ∀ p ∈ Pattern.table, (p.split? cs).isSome = true → ∃ first lexeme rest,
      first? cs = some (first, lexeme, rest) ∧ ∀ q ∈ Pattern.table, q ≠ first → ∀ l r,
        q.split? cs = some (l, r) → l.length < lexeme.length) ∧
    (∀ text file?, tokenizeLongest patterns text file? = tokenize text file?) ∧
    ∀ text file? tokens s, tokenize text file? = .ok tokens s →
      (∀ t ∈ tokens, t.kind ≠ .eof → ∃ before after,
        text.toList = before ++ t.lexeme.toList ++ after ∧
        t.start = .at (file?.getD "shell") (Text.byteLength before) ∧ Undivided t after) ∧
      ∀ before run after, text.toList = before ++ (run ++ after) → IsRun before run after →
        WordAt tokens (file?.getD "shell") (Text.byteLength before) run ∨
          (Scanner.ofText text file?).Hides text.toList before := by
  refine ⟨?_, tokenizeLongest_eq hsame, ?_⟩
  · intro cs p hp happlies
    obtain ⟨parts, hsplit⟩ := Option.isSome_iff_exists.mp happlies
    cases hfirst : first? cs with
    | none =>
      rw [split?_of_first?_eq_none hfirst hp] at hsplit
      cases hsplit
    | some parts =>
      obtain ⟨first, lexeme, rest⟩ := parts
      exact ⟨first, lexeme, rest, rfl, fun q _ hne l r => length_lt_of_split? hfirst hne⟩
  · intro text file? tokens s htokens
    -- the tokens are those that the steps push, so each is found by one of them
    obtain ⟨s₀, hsteps, -, rfl⟩ := Scanner.tokenize_eq_ok_iff.mp htokens
    have hstart (n : Nat) : (Scanner.ofText text file?).offset + n = n := Nat.zero_add n
    refine ⟨fun t ht hkind => ?_, fun before run after htext hrun => ?_⟩
    · -- the end of input is the only token that no step has found
      have hmem : t ∈ s₀.tokens := by
        rcases Array.mem_push.mp ht with hmem | rfl
        · exact hmem
        · exact absurd rfl hkind
      rcases hsteps.standsIn hmem with hnone | ⟨before, after, htext, hplace, hundivided⟩
      · simp [Scanner.ofText] at hnone
      · rw [hstart] at hplace
        exact ⟨before, after, htext, hplace, hundivided⟩
    · rcases hsteps.wordAt rfl htext hrun with ⟨t, ht, hword⟩ | hhides
      · rw [hstart] at hword
        exact Or.inl ⟨t, Array.mem_push.mpr (Or.inl ht), hword⟩
      · exact Or.inr hhides

/-- With the table read backwards, operators, numerals and words are still not split. -/
theorem tokenizeLongest_backwards :
    (∀ p, p ∈ Pattern.table.reverse ↔ p ∈ Pattern.table) ∧
      (match tokenizeLongest Pattern.table.reverse "or_1!==2.x//" none with
        | .ok tokens _ => tokens.toList.map Token.kind
        | .error _ _ => []) =
      [.identifier, .notEquals, .assignment, .number, .dot, .identifier, .eof] := by
  have hsame : ∀ p, p ∈ Pattern.table.reverse ↔ p ∈ Pattern.table := fun p => List.mem_reverse
  refine ⟨hsame, ?_⟩
  rw [(tokenize_eq_longest hsame).2.1]
  decide +kernel

end LoxExpr
