import LoxExpr.Proofs.Lexing.Meaning

/-!
# The pattern that applies first

A token that ends where white space follows, a comment, or nothing, is scanned as itself: the first
pattern of the table that applies at its start is that of the token, and its lexeme is that of the
token (`Agree.first?_eq`). Nearly always the first character rules out the patterns that are tried
before. The exceptions are the patterns whose lexemes start with the token of a single character,
and what follows that character rules them out. Only a slash does not end in front of a comment.
-/

namespace LoxExpr

/-- White space ends every token, and a slash ends every token but another slash. -/
def Kind.EndedBy (kind : Kind) (c : Char) : Prop :=
  Text.isBlank c = true ∨ (c = '/' ∧ kind ≠ .slash)

namespace Pattern

/-! ## White space is in no other class -/

/-- White space is below the letters or above them, and never in between. -/
theorem isBlank_cases {c : Char} (h : Text.isBlank c = true) : c.toNat ≤ 32 ∨ 133 ≤ c.toNat := by
  obtain ⟨range, hrange, hlow, hhigh⟩ := Text.CharClass.contains_iff.mp h
  -- the ranges of white space leave out all of ASCII that can be seen
  have hbounds : ∀ r ∈ Text.CharClass.blank.ranges, r.2 ≤ 32 ∨ 133 ≤ r.1 := by decide
  have := hbounds range hrange
  omega

/-- White space is no digit. -/
theorem isDigit_eq_false_of_isBlank {c : Char} (h : Text.isBlank c = true) :
    c.isDigit = false := by
  rw [← Bool.not_eq_true, isDigit_iff]
  have := isBlank_cases h
  omega

theorem isWordStart_eq_false_of_isBlank {c : Char} (h : Text.isBlank c = true) :
    isWordStart c = false := by
  rw [← Bool.not_eq_true, isWordStart_iff]
  rintro (hupper | hlower | rfl)
  · have := isBlank_cases h
    omega
  · have := isBlank_cases h
    omega
  · exact absurd h (by decide)

theorem isWordPart_eq_false_of_isBlank {c : Char} (h : Text.isBlank c = true) :
    isWordPart c = false := by
  rw [isWordPart, isWordStart_eq_false_of_isBlank h, isDigit_eq_false_of_isBlank h]
  rfl

/-! ## What ends a token -/

/-- What ends a token does not go on with it as a word. -/
theorem isWordPart_eq_false_of_endedBy {kind : Kind} {c : Char} (h : kind.EndedBy c) :
    isWordPart c = false := by
  rcases h with hblank | ⟨rfl, -⟩
  · exact isWordPart_eq_false_of_isBlank hblank
  · decide

/-- What ends a token does not go on with it as a numeral. -/
theorem isDigit_eq_false_of_endedBy {kind : Kind} {c : Char} (h : kind.EndedBy c) :
    c.isDigit = false := by
  rcases h with hblank | ⟨rfl, -⟩
  · exact isDigit_eq_false_of_isBlank hblank
  · decide

/-! ## The first character of a lexeme -/

/-- Does a lexeme of the pattern start with the character? -/
def starts (p : Pattern) (c : Char) : Bool :=
  match p with
  | .word => isWordStart c
  | .numeral => c.isDigit
  | .blank => Text.isBlank c
  | .string => c = '"'
  | .openQuote => c = '"'
  | .comment => c = '/'
  | .fixed kind => kind.spelling?.any fun spelling => spelling.toList.head? = some c

/-- A lexeme begins with a character that its pattern can start with. -/
theorem starts_of_lexeme {p : Pattern} {c : Char} {cs : List Char} (h : p.Lexeme (c :: cs)) :
    p.starts c = true := by
  -- the first character of the lexeme is read off the shape of the pattern
  generalize heq : c :: cs = lexeme at h
  cases h with
  | word hstart hparts =>
    obtain ⟨rfl, -⟩ := List.cons.inj heq
    exact hstart
  | whole hdigits =>
    subst heq
    exact hdigits.2 c (List.mem_cons_self ..)
  | fraction hdigits hplaces =>
    obtain ⟨d, tail, hcons, hd⟩ := (Lexeme.fraction hdigits hplaces).numeral_head
    rw [← heq] at hcons
    obtain ⟨rfl, -⟩ := List.cons.inj hcons
    exact hd
  | blank hne hblank =>
    subst heq
    exact hblank c (List.mem_cons_self ..)
  | string hquote =>
    obtain ⟨rfl, -⟩ := List.cons.inj heq
    rfl
  | openQuote =>
    obtain ⟨rfl, -⟩ := List.cons.inj heq
    rfl
  | comment hline =>
    obtain ⟨rfl, -⟩ := List.cons.inj heq
    rfl
  | fixed hspelling =>
    show (Option.any _ _) = true
    rw [hspelling, Option.any_some, ← heq]
    exact decide_eq_true rfl

/-- A pattern does not apply to a text that none of its lexemes begins. -/
theorem split?_eq_none {p : Pattern} {cs : List Char}
    (h : ∀ lexeme rest, cs = lexeme ++ rest → lexeme ≠ [] → ¬ p.Lexeme lexeme) :
    p.split? cs = none := by
  cases hsplit : p.split? cs with
  | none => rfl
  | some parts =>
    obtain ⟨lexeme, rest⟩ := parts
    obtain ⟨happ, hlexeme, -⟩ := split?_eq_some_iff.mp hsplit
    exact absurd hlexeme (h lexeme rest happ (eq_append_of_split? hsplit).2)

/-- A pattern does not apply to what it cannot start with. -/
theorem split?_eq_none_of_starts {p : Pattern} {c : Char} {cs : List Char}
    (h : p.starts c = false) : p.split? (c :: cs) = none := by
  apply split?_eq_none
  intro lexeme rest happ hne hlexeme
  obtain ⟨d, tail, rfl⟩ := List.exists_cons_of_ne_nil hne
  obtain ⟨rfl, -⟩ := List.cons.inj happ
  rw [starts_of_lexeme hlexeme] at h
  cases h

/-! ## The table up to a pattern -/

/-- The patterns that are tried before a pattern. -/
def earlier (p : Pattern) : List Pattern :=
  table.takeWhile (· ≠ p)

/-- A pattern is chosen where it applies and none before it in the table does. -/
theorem first?_eq_of_split? {p : Pattern} {cs lexeme rest : List Char} (hp : p ∈ table)
    (hearlier : ∀ q ∈ p.earlier, q.split? cs = none) (h : p.split? cs = some (lexeme, rest)) :
    first? cs = some (p, lexeme, rest) := by
  -- the table is what is tried before, then the pattern, then the rest
  have htable : table = p.earlier ++ table.dropWhile (· ≠ p) :=
    List.takeWhile_append_dropWhile.symm
  obtain ⟨after, hafter⟩ : ∃ after, table.dropWhile (· ≠ p) = p :: after := by
    cases hdrop : table.dropWhile (· ≠ p) with
    | nil =>
      rw [hdrop, List.append_nil] at htable
      rw [htable] at hp
      exact absurd hp (not_mem_takeWhile (by simp))
    | cons q after =>
      have hhead : q ∈ (table.dropWhile (· ≠ p)).head? := by
        rw [hdrop]
        rfl
      have hq : q = p := by simpa using eq_false_of_mem_head?_dropWhile hhead
      exact ⟨after, by rw [hq]⟩
  rw [first?, htable, hafter, List.findSome?_append]
  -- nothing before the pattern applies, so the search gets to it
  have hnone : p.earlier.findSome? (fun q => (q.split? cs).map fun parts => (q, parts)) = none := by
    rw [List.findSome?_eq_none_iff]
    intro q hq
    rw [hearlier q hq]
    rfl
  rw [hnone, Option.none_or, List.findSome?_cons, h]
  rfl

/-- The first character rules out all patterns that are tried before. -/
theorem first?_eq_of_starts {p : Pattern} {c : Char} {cs lexeme rest : List Char} (hp : p ∈ table)
    (hearlier : ∀ q ∈ p.earlier, q.starts c = false)
    (h : p.split? (c :: cs) = some (lexeme, rest)) : first? (c :: cs) = some (p, lexeme, rest) :=
  first?_eq_of_split? hp (fun q hq => split?_eq_none_of_starts (hearlier q hq)) h

/-! ## Fixed texts -/

/-- The patterns whose lexemes have a second character, and one that is not white space. -/
def paired : List Pattern :=
  [.comment, .fixed .notEquals, .fixed .equals, .fixed .greaterEquals, .fixed .lessEquals]

/-- Only behind a slash the second character is a slash. -/
theorem second_of_paired {p : Pattern} {lexeme : List Char} (hp : p ∈ paired)
    (h : p.Lexeme lexeme) :
    ∃ a b tail, lexeme = a :: b :: tail ∧ Text.isBlank b = false ∧ (b = '/' → a = '/') := by
  simp only [paired, List.mem_cons, List.not_mem_nil, or_false] at hp
  -- the comment begins with two slashes, each of the operators ends in an equals sign
  rcases hp with rfl | rfl | rfl | rfl | rfl
  · cases h with
    | comment hline => exact ⟨'/', '/', _, rfl, by decide, fun _ => rfl⟩
  all_goals
    cases h with
    | fixed hspelling =>
      cases hspelling
      exact ⟨_, '=', [], rfl, by decide, by decide⟩

/-- Neither a comment nor an operator of two characters applies where the second does not follow. -/
theorem split?_eq_none_of_paired {p : Pattern} {c : Char} {rest : List Char} (hp : p ∈ paired)
    (hend : ∀ d ∈ rest.head?, Text.isBlank d = true ∨ (d = '/' ∧ c ≠ '/')) :
    p.split? (c :: rest) = none := by
  apply split?_eq_none
  intro lexeme after happ _ hlexeme
  -- the second character of the lexeme is the one behind `c`
  obtain ⟨a, b, tail, rfl, hb, hslash⟩ := second_of_paired hp hlexeme
  obtain ⟨rfl, rfl⟩ := List.cons.inj happ
  rcases hend b rfl with hblank | ⟨rfl, hne⟩
  · rw [hblank] at hb
    cases hb
  · exact hne (hslash rfl)

/-- What is tried before a fixed text does not start like it, or is a pair that starts with it. -/
theorem earlier_fixed {kind : Kind} {spelling : String} (h : kind.spelling? = some spelling) :
    Pattern.fixed kind ∈ table ∧ ∃ c tail, spelling.toList = c :: tail ∧
      Text.isBlank c = false ∧ (c = '/' → kind = .slash) ∧
      ∀ q ∈ (Pattern.fixed kind).earlier, q.starts c = false ∨ (tail = [] ∧ q ∈ paired) := by
  cases kind <;> cases h <;> exact ⟨by decide, _, _, rfl, by decide, by decide, by decide⟩

/-- A fixed text that ends is chosen where it stands. -/
theorem first?_fixed {kind : Kind} {spelling : String} {rest : List Char}
    (h : kind.spelling? = some spelling) (hend : ∀ d ∈ rest.head?, kind.EndedBy d) :
    first? (spelling.toList ++ rest) = some (.fixed kind, spelling.toList, rest) := by
  obtain ⟨hmem, c, tail, hcons, -, hslash, hearlier⟩ := earlier_fixed h
  refine first?_eq_of_split? hmem (fun q hq => ?_)
    (split?_eq_some_iff.mpr ⟨rfl, .fixed h, trivial⟩)
  rw [hcons, List.cons_append]
  -- a single character that starts a pair has nothing of its own behind it
  rcases hearlier q hq with hstart | ⟨rfl, hpaired⟩
  · exact split?_eq_none_of_starts hstart
  · refine split?_eq_none_of_paired hpaired fun d hd => (hend d hd).imp_right ?_
    exact fun ⟨hd', hkind⟩ => ⟨hd', fun hc => hkind (hslash hc)⟩

end Pattern

open Pattern

/-! ## Tokens that end -/

/-- A token has text, and its text does not start with white space. -/
theorem Agree.head {kind : Kind} {lexeme : String} {literal : Option Literal}
    (h : Agree kind lexeme literal) :
    ∃ c tail, lexeme.toList = c :: tail ∧ Text.isBlank c = false := by
  have hword (hshape : Pattern.Lexeme .word lexeme.toList) :
      ∃ c tail, lexeme.toList = c :: tail ∧ Text.isBlank c = false := by
    generalize hlist : lexeme.toList = cs at hshape
    cases hshape with
    | @word c cs hstart hparts =>
      refine ⟨c, cs, rfl, ?_⟩
      rw [← Bool.not_eq_true]
      intro hblank
      rw [isWordStart_eq_false_of_isBlank hblank] at hstart
      cases hstart
  -- words and numerals start with no blank; the text of every other kind is known
  cases h with
  | number hshape hvalue =>
    obtain ⟨d, tail, hcons, hd⟩ := hshape.numeral_head
    refine ⟨d, tail, hcons, ?_⟩
    rw [← Bool.not_eq_true]
    intro hblank
    rw [isDigit_eq_false_of_isBlank hblank] at hd
    cases hd
  | string hquote => exact ⟨'"', _, String.toList_ofList, by decide⟩
  | reserved hshape hreserved => exact hword hshape
  | identifier hshape hfree => exact hword hshape
  | fixed hspelling =>
    obtain ⟨-, c, tail, hcons, hblank, -⟩ := earlier_fixed hspelling
    exact ⟨c, tail, hcons, hblank⟩

/-- A token that ends where its text does is scanned as it is. -/
theorem Agree.first?_eq {kind : Kind} {lexeme : String} {literal : Option Literal}
    {rest : List Char} (h : Agree kind lexeme literal)
    (hend : ∀ d ∈ rest.head?, kind.EndedBy d) :
    ∃ p, first? (lexeme.toList ++ rest) = some (p, lexeme.toList, rest) ∧
      p.read lexeme = .token kind literal := by
  -- a word ends where its text does, since what ends a token is no part of a word
  have hword (hshape : Pattern.Lexeme .word lexeme.toList) :
      first? (lexeme.toList ++ rest) = some (.word, lexeme.toList, rest) := by
    have hends : Ends .word lexeme.toList rest := fun d hd =>
      isWordPart_eq_false_of_endedBy (hend d hd)
    exact first?_eq_of_split? (by decide) (by simp [earlier, table])
      (split?_eq_some_iff.mpr ⟨rfl, hshape, hends⟩)
  cases h with
  | number hshape hvalue =>
    refine ⟨.numeral, ?_, ?_⟩
    · -- what ends a token is no digit, and it is not the point of a fraction either
      have hends : Ends .numeral lexeme.toList rest := by
        refine ⟨fun d hd => isDigit_eq_false_of_endedBy (hend d hd), Or.inr ?_⟩
        rintro c tail rfl
        rcases hend '.' rfl with hblank | ⟨heq, -⟩
        · exact absurd hblank (by decide)
        · exact absurd heq (by decide)
      have hsplit := split?_eq_some_iff.mpr ⟨rfl, hshape, hends⟩
      obtain ⟨d, tail, hcons, hd⟩ := hshape.numeral_head
      rw [hcons, List.cons_append] at hsplit ⊢
      refine first?_eq_of_starts (by decide) ?_ hsplit
      have hearlier : earlier .numeral = [.word] := by decide
      rw [hearlier, List.forall_mem_singleton]
      exact isWordStart_eq_false_of_isDigit hd
    · rw [Pattern.read, hvalue]
  | @string body hquote =>
    refine ⟨.string, ?_, ?_⟩
    · rw [String.toList_ofList]
      exact first?_eq_of_starts (by decide) (by decide)
        (split?_eq_some_iff.mpr ⟨rfl, .string hquote, trivial⟩)
    · rw [Pattern.read, inner_quoted]
  | reserved hshape hreserved =>
    refine ⟨.word, hword hshape, ?_⟩
    rw [Pattern.read, readWord_eq, hreserved]
  | identifier hshape hfree =>
    refine ⟨.word, hword hshape, ?_⟩
    rw [Pattern.read, readWord_eq, hfree]
  | @fixed kind _ hspelling => exact ⟨.fixed kind, first?_fixed hspelling hend, rfl⟩

/-- White space up to a token, or up to the end, is scanned at once. -/
theorem first?_blanks {blanks rest : List Char} (hne : blanks ≠ [])
    (hblank : ∀ c ∈ blanks, Text.isBlank c = true)
    (hend : ∀ c ∈ rest.head?, Text.isBlank c = false) :
    first? (blanks ++ rest) = some (.blank, blanks, rest) := by
  have hsplit := split?_eq_some_iff.mpr ⟨rfl, .blank hne hblank, hend⟩
  obtain ⟨c, tail, rfl⟩ := List.exists_cons_of_ne_nil hne
  have hc := hblank c (List.mem_cons_self ..)
  refine first?_eq_of_starts (by decide) ?_ hsplit
  -- only two patterns come before it, and neither starts with a blank
  have hearlier : earlier .blank = [.word, .numeral] := by decide
  rw [hearlier, List.forall_mem_cons, List.forall_mem_singleton]
  exact ⟨isWordStart_eq_false_of_isBlank hc, isDigit_eq_false_of_isBlank hc⟩

end LoxExpr
