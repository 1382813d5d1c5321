import LoxExpr.Proofs.Lexing.Layout
import LoxExpr.Proofs.Lexing.Longest

/-!
# Where the text behind a lexeme is exchanged

A scan that has come to a place of a source depends on the text before that place, and on little of
what follows. This module exchanges the text that follows:

* it can be cut off (`Steps.truncate`);
* behind a character that no pattern takes, it can be anything (`Steps.graft`);
* where a source ends, a line feed can follow, and any text behind that. Only white space at the end
  of the source becomes longer by it (`Longest.lineBreak`).
-/

namespace LoxExpr

namespace Pattern

/-! ## Characters that few lexemes hold -/

/-- The character is in none of the classes, and stands in no text that is not quoted. -/
structure Foreign (c : Char) : Prop where
  not_blank : Text.isBlank c = false
  not_word : isWordPart c = false
  not_quote : c ≠ '"'
  not_punctuation : c ∉ punctuation

/-- Foreign characters are in strings and comments only. -/
theorem Foreign.of_mem_lexeme {p : Pattern} {l : List Char} {c : Char} (hforeign : Foreign c)
    (hl : p.Lexeme l) (hc : c ∈ l) : p = .string ∨ p = .comment := by
  have hword := hforeign.not_word
  have hblank := hforeign.not_blank
  -- whatever else stands in a lexeme belongs to a class, and no foreign character does
  rcases mem_lexeme hl hc with ⟨-, h⟩ | h | h | h | ⟨-, h⟩ | h | ⟨h, -⟩
  · simp [hword] at h
  · simp [isWordPart_of_isDigit h] at hword
  · exact absurd h hforeign.not_punctuation
  · exact absurd h hforeign.not_quote
  · simp [hblank] at h
  · exact Or.inl h
  · exact Or.inr h

/-- Line feeds are in white space and strings only. -/
theorem of_lineFeed_mem_lexeme {p : Pattern} {l : List Char} (hl : p.Lexeme l) (hc : '\n' ∈ l) :
    p = .blank ∨ p = .string := by
  rcases mem_lexeme hl hc with ⟨-, h⟩ | h | h | h | ⟨h, -⟩ | h | ⟨-, h⟩
  · exact absurd h (by decide)
  · exact absurd h (by decide)
  · exact absurd h (by decide)
  · exact absurd h (by decide)
  · exact Or.inl h
  · exact Or.inr h
  · exact absurd rfl h

/-! ## A longest lexeme before another text -/

section Behind

variable {p q : Pattern} {l lexeme rest rest' : List Char}

/-- A lexeme that begins another one starts with the character that leads it. -/
theorem starts_of_begins {c : Char} (hlexeme : p.Lexeme lexeme) (hl : q.Lexeme l)
    (hpre : lexeme <+: l) (hleader : q.leader? = some c) : p.starts c = true := by
  obtain ⟨d, tail, rfl⟩ := List.exists_cons_of_ne_nil (ne_nil_of_lexeme hlexeme)
  obtain ⟨r, rfl⟩ := hpre
  obtain rfl := leader?_eq_of_starts hleader (starts_of_lexeme hl)
  exact starts_of_lexeme hlexeme

/-- Where one lexeme begins another one, they are of one pattern, or the first one is short. -/
theorem eq_or_short_of_begins (hlexeme : p.Lexeme lexeme) (hl : q.Lexeme l)
    (hpre : lexeme <+: l) : q = p ∨ (q ∈ long ∧ p ∈ short) := by
  have hle : lexeme.length ≤ l.length := hpre.length_le
  obtain ⟨c, tail, rfl⟩ := List.exists_cons_of_ne_nil (ne_nil_of_lexeme hlexeme)
  obtain ⟨r, rfl⟩ := hpre
  by_cases hne : q = p
  · exact Or.inl hne
  · rcases short_or_short_of_starts (mem_table_of_lexeme hl) (mem_table_of_lexeme hlexeme) hne
      (starts_of_lexeme hl) (starts_of_lexeme hlexeme) with hshort | ⟨hlong, hshort, -⟩
    · exact Or.inr ⟨hshort.1, hshort.2.1⟩
    · -- a lexeme of one character begins with no longer one
      rw [length_of_short hshort hl] at hle
      exact absurd (length_of_long hlong hlexeme) (Nat.not_lt_of_le hle)

/-- A string that is closed does not get longer. -/
theorem Longest.string_le (h : Longest p lexeme rest) (hp : p ≠ .openQuote) (hl : Lexeme .string l)
    (hpre : l <+: lexeme ++ rest') : l.length ≤ lexeme.length := by
  refine Nat.le_of_not_lt fun hlt => ?_
  obtain ⟨c, tail, rfl, -⟩ := exists_append_of_length_lt hpre hlt
  have hbegins := List.prefix_append lexeme (c :: tail)
  rcases eq_or_short_of_begins h.isLexeme hl hbegins with rfl | ⟨-, hshort⟩
  · exact absurd (string_length_le h.isLexeme hl hpre) (Nat.not_le_of_lt hlt)
  · -- the only short lexeme with a quote is the quote itself
    have hquote : ∀ p ∈ short, p.starts '"' = true → p = .openQuote := by decide
    exact hp (hquote p hshort (starts_of_begins h.isLexeme hl hbegins rfl))

/-- A comment gets no longer behind the same character. -/
theorem Longest.comment_le (h : Longest p lexeme rest) (hl : Lexeme .comment l)
    (hpre : l <+: lexeme ++ rest') (hhead : rest'.head? = rest.head?) :
    l.length ≤ lexeme.length := by
  refine Nat.le_of_not_lt fun hlt => ?_
  obtain ⟨c, tail, rfl, hrest⟩ := exists_append_of_length_lt hpre hlt
  have hbegins := List.prefix_append lexeme (c :: tail)
  rcases eq_or_short_of_begins h.isLexeme hl hbegins with rfl | ⟨-, hshort⟩
  · -- a comment that was taken has ended, and the other text begins alike
    have hsplit := split?_of_first? (first?_eq_some_iff.mpr ⟨rfl, h⟩)
    obtain ⟨-, -, hends⟩ := split?_eq_some_iff.mp hsplit
    have hends' : Ends .comment lexeme rest' := by
      intro d hd
      exact hends d (hhead ▸ hd)
    exact absurd (length_le_of_ends h.isLexeme hends' hl hpre) (Nat.not_le_of_lt hlt)
  · -- a slash that was taken alone has no slash behind it
    have hslash : ∀ p ∈ short, p.starts '/' = true → p = .fixed .slash := by decide
    obtain rfl := hslash p hshort (starts_of_begins h.isLexeme hl hbegins rfl)
    have hlexeme := h.isLexeme
    cases hlexeme with
    | fixed hspelling =>
      cases hspelling
      have hc : c = '/' := by
        cases hl
        rfl
      refine h.not_mem_head? (q := .comment) (.comment List.not_mem_nil) ?_
      rw [← hhead, ← hc]
      exact head?_of_cons_begins hrest

/-! ## Exchanging the text behind -/

/-- The text behind can be exchanged if no lexeme gains from reaching past what stays. -/
theorem Longest.exchange {common : List Char} (h : Longest p lexeme (common ++ rest))
    (hpast : ∀ (q : Pattern) (l : List Char), q.Lexeme l → l <+: lexeme ++ (common ++ rest') →
      ∀ d tail, l = lexeme ++ common ++ d :: tail → d ∈ rest'.head? →
        l.length ≤ lexeme.length) : Longest p lexeme (common ++ rest') := by
  refine ⟨h.isLexeme, fun q l hl hpre => ?_⟩
  have hpre' : l <+: lexeme ++ common ++ rest' := by rwa [List.append_assoc]
  -- a longer match either ends in what the two texts share, or looks at how the new one goes on
  rcases Nat.lt_or_ge (lexeme ++ common).length l.length with hlt | hle
  · obtain ⟨d, tail, heq, hrest⟩ := exists_append_of_length_lt hpre' hlt
    exact hpast q l hl hpre d tail heq (head?_of_cons_begins hrest)
  · have hl' : l <+: lexeme ++ common :=
      List.prefix_of_prefix_length_le hpre' (List.prefix_append _ _) hle
    exact h.length_le q l hl (hl'.trans ⟨rest, List.append_assoc ..⟩)

/-- Behind a foreign character the text does not matter. -/
theorem Longest.graft {u v v' : List Char} {c : Char} (h : Longest p lexeme (u ++ c :: v))
    (hp : p ≠ .openQuote) (hforeign : Foreign c) : Longest p lexeme (u ++ c :: v') := by
  have hcommon (x : List Char) : u ++ c :: x = (u ++ [c]) ++ x := by simp
  have hhead : (u ++ [c] ++ v').head? = (u ++ [c] ++ v).head? := by cases u <;> rfl
  rw [hcommon] at h ⊢
  refine h.exchange fun q l hl hpre d tail heq _ => ?_
  -- only a string or a comment could hold the foreign character, and neither gets longer
  rcases hforeign.of_mem_lexeme hl (by simp [heq]) with rfl | rfl
  · exact h.string_le hp hl hpre
  · exact h.comment_le hl hpre hhead

/-- At the end of a text a line feed can follow, unless white space comes right before. -/
theorem Longest.lineBreak {u b : List Char} (h : Longest p lexeme u) (hp : p ≠ .openQuote)
    (hwhite : ¬ (p = .blank ∧ u = [])) : Longest p lexeme (u ++ '\n' :: b) := by
  rw [← List.append_nil u] at h
  refine h.exchange fun q l hl hpre d tail heq hd => ?_
  obtain rfl : '\n' = d := Option.some.inj hd
  rcases of_lineFeed_mem_lexeme hl (by simp [heq]) with rfl | rfl
  · -- white space up to the line feed would all have been taken
    exfalso
    subst heq
    apply hwhite
    have hbegins : lexeme <+: lexeme ++ u ++ '\n' :: tail := by simp
    have hall : Lexeme .blank (lexeme ++ u) := by
      cases hl with
      | blank hne hblank =>
        refine .blank ?_ fun c hc => hblank c (List.mem_append_left _ hc)
        simp [ne_nil_of_lexeme h.isLexeme]
    have hle := h.length_le .blank (lexeme ++ u) hall (by simp)
    rw [List.length_append] at hle
    refine ⟨?_, List.eq_nil_of_length_eq_zero (by omega)⟩
    rcases eq_or_short_of_begins h.isLexeme hl hbegins with heq | ⟨hlong, -⟩
    · exact heq.symm
    · simp [long, paired] at hlong
  · exact h.string_le hp hl hpre

end Behind

end Pattern

/-! ## Scans before another text -/

namespace Scanner

open Pattern

variable {s s' : Scanner} {left left' : List Char}

/-- Steps leave the end of a text as it is. -/
theorem Steps.suffix (h : Steps s left s' left') : left' <:+ left := by
  induction h with
  | done s left => exact List.suffix_refl left
  | more hstep hsteps ih =>
    obtain ⟨p, lexeme, hfirst, -⟩ := step_eq_ok_iff.mp hstep
    obtain ⟨rfl, -⟩ := first?_eq_some_iff.mp hfirst
    exact ih.trans (List.suffix_append lexeme _)

/-- A step takes a longest lexeme, and does the same before every text where it is still longest. -/
theorem exists_longest_of_step (h : s.step left = .ok left' s') :
    ∃ p lexeme, left = lexeme ++ left' ∧ p ≠ .openQuote ∧ Longest p lexeme left' ∧
      ∀ rest, Longest p lexeme rest → s.step (lexeme ++ rest) = .ok rest s' := by
  obtain ⟨p, lexeme, hfirst, hcases⟩ := step_eq_ok_iff.mp h
  obtain ⟨happ, hlongest⟩ := first?_eq_some_iff.mp hfirst
  refine ⟨p, lexeme, happ, ?_, hlongest, fun rest hrest => ?_⟩
  · -- a lone quote is read as a fault
    rintro rfl
    rcases hcases with ⟨hread, -⟩ | ⟨kind, literal, hread, -⟩ <;> cases hread
  · exact step_eq_ok_iff.mpr ⟨p, lexeme, first?_eq_some_iff.mpr ⟨rfl, hrest⟩, hcases⟩

/-- Steps can be made before another text if the lexemes they take are still longest there. -/
theorem Steps.replace {x y : List Char} (h : Steps s left s' x)
    (hkeep : ∀ (p : Pattern) (lexeme u : List Char), p ≠ .openQuote → Longest p lexeme (u ++ x) →
      Longest p lexeme (u ++ y)) {u : List Char} (hleft : left = u ++ x) :
    Steps s (u ++ y) s' y := by
  -- The induction is on the steps, for any text that they use up: each lexeme is also the longest
  -- in front of the other text.
  induction h generalizing u with
  | done s left =>
    obtain rfl : u = [] := by simpa using hleft
    exact .done s y
  | more hstep hsteps ih =>
    obtain ⟨p, lexeme, rfl, hp, hlongest, hagain⟩ := exists_longest_of_step hstep
    obtain ⟨u', rfl⟩ := hsteps.suffix
    rw [← List.append_assoc] at hleft
    obtain rfl : lexeme ++ u' = u := List.append_cancel_right hleft
    rw [List.append_assoc]
    exact .more (hagain _ (hkeep p lexeme u' hp hlongest)) (ih hkeep rfl)

/-- The text that steps leave can be cut off. -/
theorem Steps.truncate {u x : List Char} (h : Steps s (u ++ x) s' x) : Steps s u s' [] := by
  have hkeep := h.replace (y := []) (fun p lexeme u _ hlongest => hlongest.mono (by simp)) rfl
  rwa [List.append_nil] at hkeep

/-- The text behind a foreign character can be any other. -/
theorem Steps.graft {u v v' : List Char} {c : Char} (h : Steps s (u ++ c :: v) s' (c :: v))
    (hforeign : Foreign c) : Steps s (u ++ c :: v') s' (c :: v') :=
  h.replace (fun _ _ _ hp hlongest => hlongest.graft hp hforeign) rfl

end Scanner

end LoxExpr
