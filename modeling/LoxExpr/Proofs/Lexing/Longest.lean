import LoxExpr.Proofs.Lexing.Choice

/-!
# The longest lexeme

The table of patterns is tried in order, and its order has been chosen with care: what is found
first is also what is longest. `Longest` says what it means for a lexeme to be the longest at the
start of a text, without any order of patterns and without the functions that search. The link to
the search:

* `first?_eq_some_iff`: the first pattern that applies is the one with the longest lexeme;
* `first?_eq_none_iff`: no pattern applies exactly where no lexeme begins;
* `length_lt_of_first?_of_ne`: all other patterns that apply have shorter lexemes.

Hence the search only depends on what can be read as a lexeme, and not on the text further on
(`Longest.mono`).
-/

namespace LoxExpr.Pattern

/-! ## Beginnings of a text -/

/-- A beginning of a text that is longer than another one goes on where that one ends. -/
theorem exists_append_of_length_lt {l lexeme rest : List Char} (hpre : l <+: lexeme ++ rest)
    (hlt : lexeme.length < l.length) : ∃ c tail, l = lexeme ++ c :: tail ∧ c :: tail <+: rest := by
  have hle : lexeme <+: l :=
    List.prefix_of_prefix_length_le (List.prefix_append lexeme rest) hpre (Nat.le_of_lt hlt)
  obtain ⟨m, rfl⟩ := hle
  have hne : m ≠ [] := by
    rintro rfl
    simp at hlt
  obtain ⟨c, tail, rfl⟩ := List.exists_cons_of_ne_nil hne
  exact ⟨c, tail, rfl, (List.prefix_append_right_inj lexeme).mp hpre⟩

/-- What begins a text begins with its first character. -/
theorem head?_of_cons_begins {c : Char} {tail rest : List Char} (h : c :: tail <+: rest) :
    c ∈ rest.head? := by
  obtain ⟨r, rfl⟩ := h
  rfl

/-! ## The characters of a lexeme -/

/-- All characters of a word are parts of words. -/
theorem isWordPart_of_word {l : List Char} (hl : Lexeme .word l) :
    ∀ c ∈ l, isWordPart c = true := by
  cases hl with
  | word hstart hparts =>
    rw [List.forall_mem_cons]
    exact ⟨by rw [isWordPart, hstart, Bool.true_or], hparts⟩

theorem isWordPart_of_isDigit {c : Char} (h : c.isDigit = true) : isWordPart c = true := by
  simp [isWordPart, h]

/-- The characters of the fixed texts. -/
def punctuation : List Char :=
  ['(', ')', '\x7b', '\x7d', ',', '.', ';', '-', '+', '/', '*', '!', '=', '<', '>']

/-- Fixed texts are made of punctuation. -/
theorem mem_punctuation_of_spelling {kind : Kind} {spelling : String} {c : Char}
    (h : kind.spelling? = some spelling) (hc : c ∈ spelling.toList) : c ∈ punctuation := by
  have hall : ∀ kind ∈ Kind.all, ∀ spelling ∈ kind.spelling?,
      spelling.toList.all (· ∈ punctuation) = true := by decide
  simpa using List.all_eq_true.mp (hall kind kind.mem_all spelling h) c hc

/-- What a character of a lexeme can be, by the pattern of the lexeme. -/
theorem mem_lexeme {p : Pattern} {l : List Char} {c : Char} (hl : p.Lexeme l) (hc : c ∈ l) :
    (p = .word ∧ isWordPart c = true) ∨ c.isDigit = true ∨ c ∈ punctuation ∨ c = '"' ∨
      (p = .blank ∧ Text.isBlank c = true) ∨ p = .string ∨ (p = .comment ∧ c ≠ '\n') := by
  -- by the shape of the lexeme; digits and punctuation may be in several of them
  cases hl with
  | word hstart hparts => exact Or.inl ⟨rfl, isWordPart_of_word (.word hstart hparts) c hc⟩
  | whole hdigits => simp [hdigits.2 c hc]
  | fraction hdigits hplaces =>
    rcases List.mem_append.mp hc with hc | hc
    · simp [hdigits.2 c hc]
    · rcases List.mem_cons.mp hc with rfl | hc
      · simp [punctuation]
      · simp [hplaces.2 c hc]
  | blank hne hblank => simp [hblank c hc]
  | string hquote => simp
  | openQuote => simp [List.mem_singleton.mp hc]
  | comment hline =>
    rcases List.mem_cons.mp hc with rfl | hc
    · simp [punctuation]
    · rcases List.mem_cons.mp hc with rfl | hc
      · simp [punctuation]
      · have hne : c ≠ '\n' := fun h => hline (h ▸ hc)
        simp [hne]
  | fixed hspelling => simp [mem_punctuation_of_spelling hspelling hc]

/-! ## A split is as long as it can be -/

/-- A run of a class of characters does not reach past the first other character. -/
theorem length_le_of_run {p : Char → Bool} {l lexeme rest : List Char}
    (hend : ∀ c ∈ rest.head?, p c = false) (hall : ∀ c ∈ l, p c = true)
    (hpre : l <+: lexeme ++ rest) : l.length ≤ lexeme.length := by
  refine Nat.le_of_not_lt fun hlt => ?_
  obtain ⟨c, tail, rfl, hrest⟩ := exists_append_of_length_lt hpre hlt
  have hfalse := hend c (head?_of_cons_begins hrest)
  have htrue := hall c (by simp)
  rw [hfalse] at htrue
  cases htrue

/-- The first point of a text has one place, so the digits in front of it are determined. -/
theorem point_inj {ds ds' a b : List Char} (hdigits : IsDigits ds) (hdigits' : IsDigits ds')
    (heq : ds ++ '.' :: a = ds' ++ '.' :: b) : ds = ds' ∧ a = b := by
  have hend (x : List Char) : ∀ c ∈ ('.' :: x).head?, c.isDigit = false := by
    rintro c hc
    cases hc
    decide
  have htake := congrArg (List.takeWhile Char.isDigit) heq
  rw [takeWhile_append_eq hdigits.2 (hend a), takeWhile_append_eq hdigits'.2 (hend b)] at htake
  subst htake
  simpa using heq

/-- Where one numeral ends, no longer one begins the same text. -/
theorem numeral_length_le {l lexeme rest : List Char} (hlexeme : Lexeme .numeral lexeme)
    (hends : Ends .numeral lexeme rest) (hl : Lexeme .numeral l) (hpre : l <+: lexeme ++ rest) :
    l.length ≤ lexeme.length := by
  obtain ⟨hend, hpoint⟩ := hends
  cases hl with
  | @whole ds hdigits => exact length_le_of_run hend hdigits.2 hpre
  | @fraction ds fs hdigits hplaces =>
    -- a longer one would go on where the lexeme has ended
    refine Nat.le_of_not_lt fun hlt => ?_
    obtain ⟨c, tail, heq, hrest⟩ := exists_append_of_length_lt hpre hlt
    cases hlexeme with
    | whole hwhole =>
      -- behind the digits comes a character that is no digit, so it is the point
      have hc : c = '.' := by
        have hmem : c ∈ ds ++ '.' :: fs := by simp [heq]
        have hfalse := hend c (head?_of_cons_begins hrest)
        rcases List.mem_append.mp hmem with hmem | hmem
        · rw [hdigits.2 c hmem] at hfalse
          cases hfalse
        · rcases List.mem_cons.mp hmem with rfl | hmem
          · rfl
          · rw [hplaces.2 c hmem] at hfalse
            cases hfalse
      subst hc
      obtain ⟨rfl, rfl⟩ := point_inj hdigits hwhole heq
      obtain ⟨d, places, rfl⟩ := List.exists_cons_of_ne_nil hplaces.1
      obtain ⟨r, rfl⟩ := hrest
      have hdigit := hplaces.2 d (List.mem_cons_self ..)
      rw [hpoint.resolve_left hwhole.not_mem_point d _ rfl] at hdigit
      cases hdigit
    | @fraction ds' fs' hdigits' hplaces' =>
      -- the fraction of the lexeme has stopped at a character that is no digit
      have hall : ∀ c ∈ fs, c.isDigit = true := hplaces.2
      rw [List.append_assoc, List.cons_append] at heq
      obtain ⟨rfl, rfl⟩ := point_inj hdigits hdigits' heq
      have hdigit := hall c (by simp)
      rw [hend c (head?_of_cons_begins hrest)] at hdigit
      cases hdigit

/-- Two strings that begin the same text end at the same quote. -/
theorem string_length_le {l lexeme rest : List Char} (hlexeme : Lexeme .string lexeme)
    (hl : Lexeme .string l) (hpre : l <+: lexeme ++ rest) : l.length ≤ lexeme.length := by
  cases hlexeme with
  | @string body hquote =>
    cases hl with
    | @string body' hquote' =>
      -- both bodies are what comes before the second quote of the text
      have hend : ∀ c ∈ ('"' :: rest).head?, decide (c ≠ '"') = false := by
        rintro c hc
        cases hc
        rfl
      have hbody : body' <+: body ++ '"' :: rest := by
        obtain ⟨r, hr⟩ := hpre
        exact ⟨'"' :: r, by simpa using hr⟩
      have hle := length_le_of_run hend (fun c hc => decide_eq_true fun h => hquote' (h ▸ hc)) hbody
      simpa using hle

/-- A lexeme that ends is the longest of its pattern. -/
theorem length_le_of_ends {p : Pattern} {l lexeme rest : List Char} (hlexeme : p.Lexeme lexeme)
    (hends : p.Ends lexeme rest) (hl : p.Lexeme l) (hpre : l <+: lexeme ++ rest) :
    l.length ≤ lexeme.length := by
  -- by pattern: what ends a lexeme is no part of any lexeme that goes on with it
  cases p with
  | word => exact length_le_of_run hends (isWordPart_of_word hl) hpre
  | numeral => exact numeral_length_le hlexeme hends hl hpre
  | blank =>
    cases hl with
    | blank hne hblank => exact length_le_of_run hends hblank hpre
  | string => exact string_length_le hlexeme hl hpre
  | openQuote =>
    cases hl
    cases hlexeme
    exact Nat.le_refl _
  | comment =>
    cases hlexeme with
    | @comment body hline =>
      cases hl with
      | @comment body' hline' =>
        have hend : ∀ c ∈ rest.head?, decide (c ≠ '\n') = false := by
          intro c hc
          rw [hends c hc]
          rfl
        have hbody : body' <+: body ++ rest := by simpa using hpre
        have hle :=
          length_le_of_run hend (fun c hc => decide_eq_true fun h => hline' (h ▸ hc)) hbody
        simpa using hle
  | fixed kind =>
    cases hl with
    | fixed hspelling =>
      cases hlexeme with
      | fixed hspelling' =>
        cases hspelling.symm.trans hspelling'
        exact Nat.le_refl _

/-- A run is found where the text begins with a member of its class. -/
theorem exists_run? {p : Char → Bool} {c : Char} (hc : p c = true) (cs : List Char) :
    ∃ parts, run? p (c :: cs) = some parts :=
  ⟨_, if_neg (by simp [hc])⟩

/-- A numeral is found where the text begins with a digit. -/
theorem exists_numeral_split? {d : Char} (hd : d.isDigit = true) (cs : List Char) :
    ∃ parts, Pattern.numeral.split? (d :: cs) = some parts := by
  obtain ⟨parts, hrun⟩ := exists_run? hd cs
  exact ⟨_, by rw [split?, hrun, Option.map_some]⟩

/-- A pattern applies to every text that one of its lexemes begins. -/
theorem exists_split?_of_lexeme {p : Pattern} {l : List Char} (hl : p.Lexeme l) (r : List Char) :
    ∃ parts, p.split? (l ++ r) = some parts := by
  -- by pattern; words, numerals and white space may be split off longer than the lexeme
  cases p with
  | word =>
    cases hl with
    | @word c tail hstart hparts =>
      have hpart := isWordPart_of_word (.word hstart hparts) c (List.mem_cons_self ..)
      obtain ⟨parts, hrun⟩ := exists_run? hpart (tail ++ r)
      refine ⟨parts, ?_⟩
      rw [List.cons_append, split?, if_pos hstart, hrun]
  | numeral =>
    obtain ⟨d, tail, rfl, hd⟩ := hl.numeral_head
    exact exists_numeral_split? hd (tail ++ r)
  | blank =>
    cases hl with
    | blank hne hblank =>
      obtain ⟨c, tail, rfl⟩ := List.exists_cons_of_ne_nil hne
      exact exists_run? (hblank c (List.mem_cons_self ..)) (tail ++ r)
  | string => exact ⟨_, split?_eq_some_iff.mpr ⟨rfl, hl, trivial⟩⟩
  | openQuote => exact ⟨_, split?_eq_some_iff.mpr ⟨rfl, hl, trivial⟩⟩
  | comment =>
    cases hl with
    | comment hline => exact ⟨_, rfl⟩
  | fixed kind => exact ⟨_, split?_eq_some_iff.mpr ⟨rfl, hl, trivial⟩⟩

/-! ## Patterns that share a first character -/

/-- The one character that all lexemes of a pattern start with, if there is only one. -/
def leader? : Pattern → Option Char
  | .word => none
  | .numeral => none
  | .blank => none
  | .string => some '"'
  | .openQuote => some '"'
  | .comment => some '/'
  | .fixed kind => kind.spelling?.bind fun spelling => spelling.toList.head?

/-- A pattern with one first character starts with no other. -/
theorem leader?_eq_of_starts {p : Pattern} {c d : Char} (hleader : p.leader? = some d)
    (h : p.starts c = true) : c = d := by
  cases p with
  | word => cases hleader
  | numeral => cases hleader
  | blank => cases hleader
  | string =>
    cases hleader
    exact of_decide_eq_true h
  | openQuote =>
    cases hleader
    exact of_decide_eq_true h
  | comment =>
    cases hleader
    exact of_decide_eq_true h
  | fixed kind =>
    -- the first character of a fixed text is read off its spelling
    rw [leader?] at hleader
    rw [starts] at h
    cases hspelling : kind.spelling? with
    | none => simp [hspelling] at hleader
    | some spelling =>
      simp only [hspelling, Option.bind_some] at hleader
      simp only [hspelling, Option.any_some, hleader] at h
      simpa using (of_decide_eq_true h).symm

/-- A character that leads one pattern starts no lexeme of a pattern without leader. -/
theorem starts_eq_false_of_leader {p q : Pattern} {c : Char} (hp : p ∈ table) (hq : q ∈ table)
    (hnone : p.leader? = none) (hleader : q.leader? = some c) : p.starts c = false := by
  have hclasses : ∀ p ∈ table, p.leader? = none → p = .word ∨ p = .numeral ∨ p = .blank := by
    decide
  -- no pattern with one first character has one of the three classes
  have hfree : ∀ q ∈ table,
      q.leader?.all (fun c => !isWordStart c && !c.isDigit && !Text.isBlank c) = true := by decide
  have hc := hfree q hq
  rw [hleader] at hc
  obtain ⟨⟨hword, hdigit⟩, hblank⟩ : (isWordStart c = false ∧ c.isDigit = false) ∧
      Text.isBlank c = false := by simpa using hc
  rcases hclasses p hp hnone with rfl | rfl | rfl
  · exact hword
  · exact hdigit
  · exact hblank

/-- The three classes of characters that words, numerals and white space start with are disjoint. -/
theorem eq_of_starts_of_leader?_eq_none {p q : Pattern} {c : Char} (hp : p ∈ table) (hq : q ∈ table)
    (hpnone : p.leader? = none) (hqnone : q.leader? = none) (hpc : p.starts c = true)
    (hqc : q.starts c = true) : p = q := by
  have hclasses : ∀ p ∈ table, p.leader? = none → p = .word ∨ p = .numeral ∨ p = .blank := by
    decide
  -- what starts a word is no digit, and white space is neither
  have hdigit (h : isWordStart c = true) : c.isDigit = false := by
    cases hd : c.isDigit with
    | false => rfl
    | true => simp [isWordStart_eq_false_of_isDigit hd] at h
  have hblank (h : Text.isBlank c = true) : isWordStart c = false ∧ c.isDigit = false :=
    ⟨isWordStart_eq_false_of_isBlank h, isDigit_eq_false_of_isBlank h⟩
  rcases hclasses p hp hpnone with rfl | rfl | rfl <;>
    rcases hclasses q hq hqnone with rfl | rfl | rfl <;>
    simp only [starts] at hpc hqc <;> grind

/-- The patterns whose only lexeme is a character that begins longer lexemes too. -/
def short : List Pattern :=
  [.openQuote, .fixed .slash, .fixed .not, .fixed .assignment, .fixed .greater, .fixed .less]

/-- The patterns with those longer lexemes. -/
def long : List Pattern :=
  .string :: paired

/-- Where two patterns share a first character, one is short, and the other is tried before it. -/
theorem short_or_short_of_starts {p q : Pattern} {c : Char} (hp : p ∈ table) (hq : q ∈ table)
    (hne : p ≠ q) (hpc : p.starts c = true) (hqc : q.starts c = true) :
    (p ∈ long ∧ q ∈ short ∧ p ∈ q.earlier) ∨ (q ∈ long ∧ p ∈ short ∧ q ∈ p.earlier) := by
  -- for patterns with one first character each, the table is looked through
  have hall : ∀ p ∈ table, ∀ q ∈ table, p ≠ q → p.leader?.isSome → p.leader? = q.leader? →
      (p ∈ long ∧ q ∈ short ∧ p ∈ q.earlier) ∨ (q ∈ long ∧ p ∈ short ∧ q ∈ p.earlier) := by
    decide +kernel
  cases hpl : p.leader? with
  | none =>
    cases hql : q.leader? with
    | none => exact absurd (eq_of_starts_of_leader?_eq_none hp hq hpl hql hpc hqc) hne
    | some d =>
      obtain rfl := leader?_eq_of_starts hql hqc
      simp [starts_eq_false_of_leader hp hq hpl hql] at hpc
  | some d =>
    obtain rfl := leader?_eq_of_starts hpl hpc
    cases hql : q.leader? with
    | none => simp [starts_eq_false_of_leader hq hp hql hpl] at hqc
    | some e =>
      obtain rfl := leader?_eq_of_starts hql hqc
      exact hall p hp q hq hne (by simp [hpl]) (hpl.trans hql.symm)

/-- A short lexeme is one character. -/
theorem length_of_short {p : Pattern} {l : List Char} (hp : p ∈ short) (hl : p.Lexeme l) :
    l.length = 1 := by
  simp only [short, List.mem_cons, List.not_mem_nil, or_false] at hp
  -- the pattern of an open quote, and the operators that are one character
  rcases hp with rfl | rfl | rfl | rfl | rfl | rfl
  · cases hl
    rfl
  all_goals
    cases hl with
    | fixed hspelling =>
      cases hspelling
      rfl

/-- A long lexeme is more than one character. -/
theorem length_of_long {p : Pattern} {l : List Char} (hp : p ∈ long) (hl : p.Lexeme l) :
    1 < l.length := by
  rcases List.mem_cons.mp hp with rfl | hpaired
  · cases hl with
    | string hquote => simp
  · obtain ⟨a, b, tail, rfl, -⟩ := second_of_paired hpaired hl
    simp

/-! ## The longest lexeme -/

/-- A lexeme of the pattern that no other lexeme at the same place surpasses. -/
structure Longest (p : Pattern) (lexeme rest : List Char) : Prop where
  isLexeme : p.Lexeme lexeme
  length_le : ∀ (q : Pattern) (l : List Char), q.Lexeme l → l <+: lexeme ++ rest →
    l.length ≤ lexeme.length

theorem mem_table_of_lexeme {p : Pattern} {l : List Char} (h : p.Lexeme l) : p ∈ table := by
  cases h with
  | fixed hspelling => exact (earlier_fixed hspelling).1
  | _ => decide

theorem ne_nil_of_lexeme {p : Pattern} {l : List Char} (h : p.Lexeme l) : l ≠ [] := by
  cases h with
  | word hstart hparts => simp
  | whole hdigits => exact hdigits.1
  | fraction hdigits hplaces => simp
  | blank hne hblank => exact hne
  | string hquote => simp
  | openQuote => simp
  | comment hline => simp
  | fixed hspelling => exact spelling?_ne_empty hspelling

/-- A spelling is a lexeme of its kind. -/
theorem fixed_of_ofList {kind : Kind} {cs : List Char}
    (h : kind.spelling? = some (String.ofList cs)) : Lexeme (.fixed kind) cs := by
  have hlexeme := Lexeme.fixed h
  rwa [String.toList_ofList] at hlexeme

/-- Some pattern is chosen in front of every text that a lexeme begins. -/
theorem exists_first?_of_lexeme {p : Pattern} {l : List Char} (hl : p.Lexeme l) (r : List Char) :
    ∃ q lexeme rest, first? (l ++ r) = some (q, lexeme, rest) := by
  cases hfirst : first? (l ++ r) with
  | some parts => exact ⟨parts.1, parts.2.1, parts.2.2, rfl⟩
  | none =>
    obtain ⟨parts, hparts⟩ := exists_split?_of_lexeme hl r
    rw [first?, List.findSome?_eq_none_iff] at hfirst
    have hnone := hfirst p (mem_table_of_lexeme hl)
    simp [hparts] at hnone

/-- What is tried before the chosen pattern does not apply. -/
theorem split?_eq_none_of_first? {p q : Pattern} {cs : List Char} {parts : List Char × List Char}
    (hfirst : first? cs = some (p, parts)) (hq : q ∈ p.earlier) : q.split? cs = none := by
  obtain ⟨before, p', after, htable, hp, hbefore⟩ := List.findSome?_eq_some_iff.mp hfirst
  obtain ⟨parts', hsplit, heq⟩ := Option.map_eq_some_iff.mp hp
  obtain ⟨rfl, rfl⟩ := Prod.mk.inj heq
  -- the pattern itself is not among those in front of it, since it applies
  have hne : ∀ x ∈ before, decide (x ≠ p') = true := by
    intro x hx
    refine decide_eq_true ?_
    rintro rfl
    have hnone := hbefore x hx
    simp [hsplit] at hnone
  have hend : ∀ x ∈ (p' :: after).head?, decide (x ≠ p') = false := by
    intro x hx
    cases hx
    simp
  rw [earlier, htable, takeWhile_append_eq hne hend] at hq
  simpa using hbefore q hq

/-- All patterns but the first that applies have shorter lexemes. -/
theorem length_lt_of_first?_of_ne {p q : Pattern} {lexeme rest l : List Char}
    (hfirst : first? (lexeme ++ rest) = some (p, lexeme, rest)) (hne : q ≠ p) (hl : q.Lexeme l)
    (hpre : l <+: lexeme ++ rest) : l.length < lexeme.length := by
  obtain ⟨-, hlexeme, -⟩ := split?_eq_some_iff.mp (split?_of_first? hfirst)
  obtain ⟨c, tail, rfl⟩ := List.exists_cons_of_ne_nil (ne_nil_of_lexeme hlexeme)
  obtain ⟨d, tail', rfl⟩ := List.exists_cons_of_ne_nil (ne_nil_of_lexeme hl)
  obtain ⟨r, hr⟩ := hpre
  obtain rfl : d = c := (List.cons.inj hr).1
  rcases short_or_short_of_starts (mem_table_of_lexeme hl) (mem_table_of_lexeme hlexeme) hne
    (starts_of_lexeme hl) (starts_of_lexeme hlexeme) with ⟨-, -, hearlier⟩ | ⟨hlong, hshort, -⟩
  · -- the other pattern is tried before, and it would have applied
    obtain ⟨parts, hparts⟩ := exists_split?_of_lexeme hl r
    rw [hr, split?_eq_none_of_first? hfirst hearlier] at hparts
    cases hparts
  · rw [length_of_short hshort hl]
    exact length_of_long hlong hlexeme

/-- What is chosen is the longest. -/
theorem longest_of_first? {p : Pattern} {lexeme rest : List Char}
    (hfirst : first? (lexeme ++ rest) = some (p, lexeme, rest)) : Longest p lexeme rest := by
  obtain ⟨-, hlexeme, hends⟩ := split?_eq_some_iff.mp (split?_of_first? hfirst)
  refine ⟨hlexeme, fun q l hl hpre => ?_⟩
  by_cases hne : q = p
  · subst hne
    exact length_le_of_ends hlexeme hends hl hpre
  · exact Nat.le_of_lt (length_lt_of_first?_of_ne hfirst hne hl hpre)

/-- **First match is longest match.** The first pattern of the table that applies to a text is the
one with the longest lexeme at its start. -/
theorem first?_eq_some_iff {p : Pattern} {cs lexeme rest : List Char} :
    first? cs = some (p, lexeme, rest) ↔ cs = lexeme ++ rest ∧ Longest p lexeme rest := by
  constructor
  · intro hfirst
    obtain ⟨rfl, -, -⟩ := split?_eq_some_iff.mp (split?_of_first? hfirst)
    exact ⟨rfl, longest_of_first? hfirst⟩
  · rintro ⟨rfl, hlongest⟩
    obtain ⟨q, l, r, hfirst⟩ := exists_first?_of_lexeme hlongest.isLexeme rest
    obtain ⟨happ, hl, -⟩ := split?_eq_some_iff.mp (split?_of_first? hfirst)
    have hpre : l <+: lexeme ++ rest := ⟨r, happ.symm⟩
    have hle := hlongest.length_le q l hl hpre
    rw [happ] at hfirst
    -- two longest lexemes have one length, and then they are the same and of the same pattern
    have hge := (longest_of_first? hfirst).length_le p lexeme hlongest.isLexeme ⟨rest, happ⟩
    obtain ⟨rfl, rfl⟩ := List.append_inj happ (Nat.le_antisymm hge hle)
    by_cases hne : p = q
    · rw [hfirst, hne]
    · have hlt := length_lt_of_first?_of_ne hfirst hne hlongest.isLexeme hpre
      exact absurd hlt (Nat.lt_irrefl _)

/-- No pattern applies where no lexeme begins. -/
theorem first?_eq_none_iff {cs : List Char} :
    first? cs = none ↔ ∀ (p : Pattern) (l : List Char), p.Lexeme l → ¬ l <+: cs := by
  constructor
  · rintro hnone p l hl ⟨r, rfl⟩
    -- some pattern would match, if only the one that the lexeme belongs to
    obtain ⟨q, lexeme, rest, hfirst⟩ := exists_first?_of_lexeme hl r
    rw [hnone] at hfirst
    cases hfirst
  · intro hfree
    rw [first?, List.findSome?_eq_none_iff]
    intro p _
    rw [split?_eq_none fun l r happ _ hl => hfree p l hl ⟨r, happ.symm⟩]
    rfl

/-- A longest lexeme stays the longest where less text follows. -/
theorem Longest.mono {p : Pattern} {lexeme rest rest' : List Char} (h : Longest p lexeme rest)
    (hpre : rest' <+: rest) : Longest p lexeme rest' :=
  ⟨h.isLexeme, fun q l hl hl' =>
    h.length_le q l hl (hl'.trans ((List.prefix_append_right_inj lexeme).mpr hpre))⟩

/-- A lexeme of one character is not followed by one with which it would be a longer lexeme. -/
theorem Longest.not_mem_head? {p q : Pattern} {a b : Char} {after : List Char}
    (h : Longest p [a] after) (hpair : q.Lexeme [a, b]) : b ∉ after.head? := by
  intro hb
  obtain ⟨tail, rfl⟩ : ∃ tail, after = b :: tail := List.head?_eq_some_iff.mp hb
  have hle := h.length_le q [a, b] hpair ⟨tail, rfl⟩
  simp at hle

end LoxExpr.Pattern
