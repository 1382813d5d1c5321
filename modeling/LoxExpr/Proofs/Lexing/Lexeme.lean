import LoxExpr.Token.Pattern

/-!
# Lexemes

The language of every lexical pattern, stated without the functions that search a text for it:
`Pattern.Lexeme` says which texts a pattern stands for, and `Pattern.Ends` what may follow a lexeme
where it ends. `split?_eq_some_iff` is the link to the search: a pattern splits a text exactly where
a lexeme of it ends.
-/

namespace LoxExpr.Pattern

/-! ## Where a run stops -/

section Run

variable {α : Type} {p : α → Bool}

/-- A run is all of what satisfies the class, if what follows it does not. -/
theorem takeWhile_append_eq {cs rest : List α} (hall : ∀ c ∈ cs, p c = true)
    (hend : ∀ c ∈ rest.head?, p c = false) : (cs ++ rest).takeWhile p = cs := by
  have hrest : rest.takeWhile p = [] := by
    cases rest with
    | nil => rfl
    | cons c rest => simp [hend c rfl]
  rw [List.takeWhile_append_of_pos hall, hrest, List.append_nil]

/-- What follows a run is left, if it does not satisfy the class itself. -/
theorem dropWhile_append_eq {cs rest : List α} (hall : ∀ c ∈ cs, p c = true)
    (hend : ∀ c ∈ rest.head?, p c = false) : (cs ++ rest).dropWhile p = rest := by
  rw [List.dropWhile_append_of_pos hall]
  cases rest with
  | nil => rfl
  | cons c rest => simp [hend c rfl]

/-- What is left of a run does not begin with a member of its class. -/
theorem eq_false_of_mem_head?_dropWhile {cs : List α} {c : α}
    (h : c ∈ (cs.dropWhile p).head?) : p c = false := by
  have hhead := List.head?_dropWhile_not p cs
  rw [Option.mem_def.mp h] at hhead
  exact hhead

/-- A run has members of its class only. -/
theorem not_mem_takeWhile {cs : List α} {c : α} (h : p c = false) :
    c ∉ cs.takeWhile p := by
  intro hmem
  have htrue := List.all_eq_true.mp List.all_takeWhile c hmem
  rw [h] at htrue
  cases htrue

end Run

/-! ## Runs of a class of characters -/

/-- A run is found exactly where members of its class stand, and it ends in front of no other. -/
theorem run?_eq_some_iff {p : Char → Bool} {cs lexeme rest : List Char} :
    run? p cs = some (lexeme, rest) ↔
      cs = lexeme ++ rest ∧ lexeme ≠ [] ∧ (∀ c ∈ lexeme, p c = true) ∧
        ∀ c ∈ rest.head?, p c = false := by
  constructor
  · intro h
    obtain ⟨happ, hne⟩ := eq_append_of_run? h
    rw [run?] at h
    split at h
    · cases h
    · cases h
      -- the run is all that satisfies the class, so it ends at what does not
      exact ⟨happ.symm, hne, fun c hc => List.all_eq_true.mp List.all_takeWhile c hc,
        fun c hc => eq_false_of_mem_head?_dropWhile hc⟩
  · rintro ⟨rfl, hne, hall, hend⟩
    rw [run?, takeWhile_append_eq hall hend, dropWhile_append_eq hall hend, if_neg hne]

/-- No run is found exactly where the text does not begin with a member of the class. -/
theorem run?_eq_none_iff {p : Char → Bool} {cs : List Char} :
    run? p cs = none ↔ ∀ c ∈ cs.head?, p c = false := by
  rw [run?]
  cases cs with
  | nil => simp
  | cons c cs => cases hc : p c <;> simp [hc]

/-- A fixed text is found exactly where it stands. -/
theorem exactly?_eq_some_iff {text cs lexeme rest : List Char} :
    exactly? text cs = some (lexeme, rest) ↔ cs = text ++ rest ∧ lexeme = text ∧ text ≠ [] := by
  constructor
  · intro h
    obtain ⟨happ, hne⟩ := eq_append_of_exactly? h
    rw [exactly?] at h
    split at h
    · cases h
      exact ⟨happ.symm, rfl, hne⟩
    · cases h
  · rintro ⟨rfl, rfl, hne⟩
    rw [exactly?, if_pos ⟨hne, List.prefix_append _ _⟩, List.drop_left]

/-! ## Classes of characters -/

theorem isDigit_iff {c : Char} : c.isDigit = true ↔ 48 ≤ c.toNat ∧ c.toNat ≤ 57 := by
  rw [Char.isDigit, Bool.and_eq_true, decide_eq_true_eq, decide_eq_true_eq]
  exact Iff.rfl

/-- A word starts with an ASCII letter or an underscore. -/
theorem isWordStart_iff {c : Char} : isWordStart c = true ↔
    (65 ≤ c.toNat ∧ c.toNat ≤ 90) ∨ (97 ≤ c.toNat ∧ c.toNat ≤ 122) ∨ c = '_' := by
  -- the classes of the alphabet are written out, so that the bounds are plain numbers
  show (decide (c.val ≥ 'A'.val ∧ c.val ≤ 'Z'.val) || (c.val ≥ 'a'.val && c.val ≤ 'z'.val) ||
    decide (c = '_')) = true ↔ _
  simp only [Bool.or_eq_true, Bool.and_eq_true, decide_eq_true_eq, or_assoc]
  exact Iff.rfl

/-- No word starts with a digit. -/
theorem isWordStart_eq_false_of_isDigit {c : Char} (h : c.isDigit = true) :
    isWordStart c = false := by
  rw [isDigit_iff] at h
  rw [← Bool.not_eq_true, isWordStart_iff]
  rintro (hupper | hlower | rfl)
  · omega
  · omega
  · exact absurd h (by decide)

/-! ## The language of a pattern -/

/-- A non-empty run of digits. -/
def IsDigits (ds : List Char) : Prop :=
  ds ≠ [] ∧ ∀ c ∈ ds, c.isDigit = true

/-- The texts that a pattern stands for. -/
inductive Lexeme : Pattern → List Char → Prop where
  | word {c : Char} {cs : List Char} (hstart : isWordStart c = true)
      (hparts : ∀ d ∈ cs, isWordPart d = true) : Lexeme .word (c :: cs)
  | whole {ds : List Char} (hdigits : IsDigits ds) : Lexeme .numeral ds
  | fraction {ds fs : List Char} (hdigits : IsDigits ds) (hplaces : IsDigits fs) :
      Lexeme .numeral (ds ++ '.' :: fs)
  | blank {cs : List Char} (hne : cs ≠ []) (hblank : ∀ c ∈ cs, Text.isBlank c = true) :
      Lexeme .blank cs
  | string {body : List Char} (hquote : '"' ∉ body) : Lexeme .string ('"' :: body ++ ['"'])
  | openQuote : Lexeme .openQuote ['"']
  | comment {body : List Char} (hline : '\n' ∉ body) : Lexeme .comment ('/' :: '/' :: body)
  | fixed {kind : Kind} {spelling : String} (hspelling : kind.spelling? = some spelling) :
      Lexeme (.fixed kind) spelling.toList

/--
What comes after a lexeme where it ends. A word, a run of blanks and the digits of a numeral go on
as long as they can, a point joins a numeral only if a digit follows it, and a comment stops at a
line feed.
-/
def Ends : Pattern → List Char → List Char → Prop
  | .word, _, rest => ∀ c ∈ rest.head?, isWordPart c = false
  | .numeral, lexeme, rest =>
    (∀ c ∈ rest.head?, c.isDigit = false) ∧
      ('.' ∈ lexeme ∨ ∀ c tail, rest = '.' :: c :: tail → c.isDigit = false)
  | .blank, _, rest => ∀ c ∈ rest.head?, Text.isBlank c = false
  | .comment, _, rest => ∀ c ∈ rest.head?, c = '\n'
  | _, _, _ => True

theorem IsDigits.not_mem_point {ds : List Char} (h : IsDigits ds) : '.' ∉ ds := fun hmem =>
  absurd (h.2 _ hmem) (by decide)

/-- The first character tells a numeral, and it starts no word. -/
theorem Lexeme.numeral_head {cs : List Char} (h : Lexeme .numeral cs) :
    ∃ d tail, cs = d :: tail ∧ d.isDigit = true := by
  have hdigits {ds : List Char} (h : IsDigits ds) :
      ∃ d tail, ds = d :: tail ∧ d.isDigit = true := by
    obtain ⟨d, tail, rfl⟩ := List.exists_cons_of_ne_nil h.1
    exact ⟨d, tail, rfl, h.2 d (List.mem_cons_self ..)⟩
  cases h with
  | whole h => exact hdigits h
  | fraction h _ =>
    obtain ⟨d, tail, rfl, hd⟩ := hdigits h
    exact ⟨d, _, rfl, hd⟩

/-! ## Splits are lexemes -/

/-- A point with digits behind it is cut off with all of the digits. -/
theorem splitFraction_eq_of_digits {fs rest : List Char} (hplaces : IsDigits fs)
    (hend : ∀ c ∈ rest.head?, c.isDigit = false) :
    splitFraction ('.' :: fs ++ rest) = ('.' :: fs, rest) := by
  have hrun : run? Char.isDigit (fs ++ rest) = some (fs, rest) :=
    run?_eq_some_iff.mpr ⟨rfl, hplaces.1, hplaces.2, hend⟩
  rw [List.cons_append, splitFraction, hrun]

/-- Where no digit follows a point, nothing is cut off. -/
theorem splitFraction_eq_self {rest : List Char}
    (hend : ∀ c tail, rest = '.' :: c :: tail → c.isDigit = false) :
    splitFraction rest = ([], rest) := by
  unfold splitFraction
  split
  · rename_i afterPoint
    split
    · rename_i digits rest' hrun
      -- a digit behind the point would contradict `hend`
      obtain ⟨rfl, hne, hall, -⟩ := run?_eq_some_iff.mp hrun
      obtain ⟨d, ds, rfl⟩ := List.exists_cons_of_ne_nil hne
      have hd := hall d (List.mem_cons_self ..)
      rw [hend d (ds ++ rest') rfl] at hd
      cases hd
    · rfl
  · rfl

/-- The fraction that is split off is empty, or a point with digits. -/
theorem splitFraction_cases (cs : List Char) :
    (splitFraction cs = ([], cs) ∧ ∀ c tail, cs = '.' :: c :: tail → c.isDigit = false) ∨
      ∃ fs rest, splitFraction cs = ('.' :: fs, rest) ∧ IsDigits fs ∧
        ∀ c ∈ rest.head?, c.isDigit = false := by
  unfold splitFraction
  split
  · rename_i afterPoint
    split
    · rename_i digits rest hrun
      -- digits follow the point, and all of them are cut off with it
      obtain ⟨-, hne, hall, hend⟩ := run?_eq_some_iff.mp hrun
      exact Or.inr ⟨digits, rest, rfl, ⟨hne, hall⟩, hend⟩
    · rename_i hrun
      refine Or.inl ⟨rfl, ?_⟩
      rintro c tail heq
      obtain rfl := (List.cons.inj heq).2
      exact run?_eq_none_iff.mp hrun c rfl
  · rename_i hpoint
    exact Or.inl ⟨rfl, fun c tail heq => absurd heq (hpoint _)⟩

/-- Words are split off exactly where they end. -/
theorem word_split?_eq_some_iff {cs lexeme rest : List Char} :
    Pattern.word.split? cs = some (lexeme, rest) ↔
      cs = lexeme ++ rest ∧ Lexeme .word lexeme ∧ Ends .word lexeme rest := by
  cases cs with
  | nil =>
    constructor
    · intro h
      cases h
    · rintro ⟨happ, hlexeme, -⟩
      cases hlexeme
      cases happ
  | cons c cs =>
    rw [show Pattern.word.split? (c :: cs) =
      if isWordStart c then run? isWordPart (c :: cs) else none from rfl]
    constructor
    · intro h
      split at h
      · rename_i hstart
        obtain ⟨happ, hne, hall, hend⟩ := run?_eq_some_iff.mp h
        -- the run begins with the character that starts the word
        obtain ⟨d, ds, rfl⟩ := List.exists_cons_of_ne_nil hne
        obtain ⟨rfl, -⟩ := List.cons.inj happ
        exact ⟨happ, .word hstart fun e he => hall e (List.mem_cons_of_mem _ he), hend⟩
      · cases h
    · rintro ⟨happ, hlexeme, hend⟩
      cases hlexeme with
      | word hstart hparts =>
        obtain ⟨rfl, -⟩ := List.cons.inj happ
        rw [if_pos hstart]
        refine run?_eq_some_iff.mpr ⟨happ, List.cons_ne_nil _ _, ?_, hend⟩
        rw [List.forall_mem_cons]
        exact ⟨by rw [isWordPart, hstart, Bool.true_or], hparts⟩

/-- Numerals are split off exactly where they end, decimal places included. -/
theorem numeral_split?_eq_some_iff {cs lexeme rest : List Char} :
    Pattern.numeral.split? cs = some (lexeme, rest) ↔
      cs = lexeme ++ rest ∧ Lexeme .numeral lexeme ∧ Ends .numeral lexeme rest := by
  rw [show Pattern.numeral.split? cs = (run? Char.isDigit cs).map fun parts =>
    (parts.1 ++ (splitFraction parts.2).1, (splitFraction parts.2).2) from rfl]
  constructor
  · intro h
    obtain ⟨⟨whole, afterWhole⟩, hrun, heq⟩ := Option.map_eq_some_iff.mp h
    obtain ⟨happ, hne, hall, hend⟩ := run?_eq_some_iff.mp hrun
    obtain ⟨rfl, rfl⟩ := Prod.mk.inj heq
    -- the whole part is a run of digits, and what follows it decides between the two shapes
    have hsplit := splitFraction_append afterWhole
    refine ⟨by rw [happ, List.append_assoc, hsplit], ?_⟩
    rcases splitFraction_cases afterWhole with ⟨hno, hpoint⟩ | ⟨fs, rest, hyes, hfs, hrest⟩
    · rw [hno, List.append_nil]
      exact ⟨.whole ⟨hne, hall⟩, hend, Or.inr hpoint⟩
    · rw [hyes]
      exact ⟨.fraction ⟨hne, hall⟩ hfs, hrest, Or.inl (by simp)⟩
  · rintro ⟨rfl, hlexeme, hend, hpoint⟩
    cases hlexeme with
    | whole hdigits =>
      -- what follows the digits is no digit, and no point with one behind it
      have hrun : run? Char.isDigit (lexeme ++ rest) = some (lexeme, rest) :=
        run?_eq_some_iff.mpr ⟨rfl, hdigits.1, hdigits.2, hend⟩
      have hno : splitFraction rest = ([], rest) :=
        splitFraction_eq_self (hpoint.resolve_left hdigits.not_mem_point)
      rw [hrun, Option.map_some, hno, List.append_nil]
    | @fraction ds fs hdigits hplaces =>
      -- the run of digits stops at the point, and the decimal places are cut off behind it
      have hrun : run? Char.isDigit (ds ++ '.' :: fs ++ rest) = some (ds, '.' :: fs ++ rest) := by
        rw [List.append_assoc]
        refine run?_eq_some_iff.mpr ⟨rfl, hdigits.1, hdigits.2, ?_⟩
        intro c hc
        cases hc
        decide
      rw [hrun, Option.map_some, splitFraction_eq_of_digits hplaces hend]

/-- Strings are split off behind their closing quote, whatever follows. -/
theorem string_split?_eq_some_iff {cs lexeme rest : List Char} :
    Pattern.string.split? cs = some (lexeme, rest) ↔ cs = lexeme ++ rest ∧ Lexeme .string lexeme := by
  constructor
  · intro h
    obtain ⟨happ, -⟩ := eq_append_of_split? h
    refine ⟨happ.symm, ?_⟩
    simp only [split?.eq_def] at h
    split at h
    · rename_i afterQuote
      split at h
      · rename_i quote rest' hdrop
        cases h
        -- the body is what comes before the first quote, so there is none in it
        have hhead : quote ∈ (afterQuote.dropWhile (· ≠ '"')).head? := by
          rw [hdrop]
          rfl
        have hquote : quote = '"' := by simpa using eq_false_of_mem_head?_dropWhile hhead
        rw [hquote]
        exact .string (not_mem_takeWhile (by decide))
      · cases h
    · cases h
  · rintro ⟨rfl, hlexeme⟩
    cases hlexeme with
    | @string body hquote =>
      have hbody : ∀ c ∈ body, decide (c ≠ '"') = true := fun c hc =>
        decide_eq_true fun heq => hquote (heq ▸ hc)
      -- the closing quote is the first one behind the body
      have hend : ∀ c ∈ ('"' :: rest).head?, decide (c ≠ '"') = false := by
        intro c hc
        cases hc
        rfl
      have htext : '"' :: body ++ ['"'] ++ rest = '"' :: (body ++ '"' :: rest) := by simp
      rw [htext, split?, dropWhile_append_eq hbody hend, takeWhile_append_eq hbody hend]

/-- Comments are split off exactly in front of the end of their line. -/
theorem comment_split?_eq_some_iff {cs lexeme rest : List Char} :
    Pattern.comment.split? cs = some (lexeme, rest) ↔
      cs = lexeme ++ rest ∧ Lexeme .comment lexeme ∧ Ends .comment lexeme rest := by
  constructor
  · intro h
    obtain ⟨happ, -⟩ := eq_append_of_split? h
    refine ⟨happ.symm, ?_⟩
    simp only [split?.eq_def] at h
    split at h
    · cases h
      -- the body is what comes before the first line break, which the comment leaves
      refine ⟨.comment (not_mem_takeWhile (by decide)), fun c hc => ?_⟩
      simpa using eq_false_of_mem_head?_dropWhile hc
    · cases h
  · rintro ⟨rfl, hlexeme, hend⟩
    cases hlexeme with
    | @comment body hline =>
      have hbody : ∀ c ∈ body, decide (c ≠ '\n') = true := fun c hc =>
        decide_eq_true fun heq => hline (heq ▸ hc)
      have hstop : ∀ c ∈ rest.head?, decide (c ≠ '\n') = false := by
        intro c hc
        rw [hend c hc]
        rfl
      rw [List.cons_append, List.cons_append, split?, dropWhile_append_eq hbody hstop,
        takeWhile_append_eq hbody hstop]

/-- No kind is spelt with the empty text. -/
theorem spelling?_ne_empty {kind : Kind} {spelling : String} (h : kind.spelling? = some spelling) :
    spelling.toList ≠ [] := by
  cases kind <;> cases h <;> decide

/-- A pattern splits a text exactly where a lexeme of the pattern ends. -/
theorem split?_eq_some_iff {p : Pattern} {cs lexeme rest : List Char} :
    p.split? cs = some (lexeme, rest) ↔
      cs = lexeme ++ rest ∧ p.Lexeme lexeme ∧ p.Ends lexeme rest := by
  -- by pattern: words, numerals, strings and comments have been dealt with above
  cases p with
  | word => exact word_split?_eq_some_iff
  | numeral => exact numeral_split?_eq_some_iff
  | blank =>
    refine run?_eq_some_iff.trans ?_
    constructor
    · rintro ⟨happ, hne, hall, hend⟩
      exact ⟨happ, .blank hne hall, hend⟩
    · rintro ⟨happ, hlexeme, hend⟩
      cases hlexeme with
      | blank hne hall => exact ⟨happ, hne, hall, hend⟩
  | string => exact string_split?_eq_some_iff.trans (by simp [Ends])
  | openQuote =>
    refine exactly?_eq_some_iff.trans ?_
    constructor
    · rintro ⟨happ, rfl, -⟩
      exact ⟨happ, .openQuote, trivial⟩
    · rintro ⟨happ, hlexeme, -⟩
      cases hlexeme
      exact ⟨happ, rfl, List.cons_ne_nil _ _⟩
  | comment => exact comment_split?_eq_some_iff
  | fixed kind =>
    cases hspelling : kind.spelling? with
    | none =>
      simp only [split?, hspelling]
      constructor
      · intro h
        cases h
      · rintro ⟨-, hlexeme, -⟩
        cases hlexeme with
        | fixed h => cases hspelling.symm.trans h
    | some spelling =>
      simp only [split?, hspelling]
      refine exactly?_eq_some_iff.trans ?_
      constructor
      · rintro ⟨happ, rfl, -⟩
        exact ⟨happ, .fixed hspelling, trivial⟩
      · rintro ⟨happ, hlexeme, -⟩
        cases hlexeme with
        | fixed h =>
          cases hspelling.symm.trans h
          exact ⟨happ, rfl, spelling?_ne_empty hspelling⟩

end LoxExpr.Pattern
