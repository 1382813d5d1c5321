import LoxExpr.Proofs.Grammar.Bare
import LoxExpr.Proofs.Lexing.Choice
import LoxExpr.Proofs.Lexing.Layout

/-!
# Tokens written with gaps between them

A source that is made of tokens with gaps between them scans to these tokens, whatever white space
and comments the gaps hold: `tokenize_spread`. Only the places of the tokens are new. White space
alone is a gap too (`tokenize_spaced`).
-/

namespace LoxExpr

/--
The texts that write the tokens in order. A gap may come in front of each token and behind the last
one, and what comes behind a token has to end it.
-/
inductive Spread : List Token → List Char → Prop where
  | nil {gap : List Char} (hgap : Gap [] gap) : Spread [] gap
  | cons {gap rest : List Char} {t : Token} {ts : List Token}
      (hgap : Gap (t.lexeme.toList ++ rest) gap) (hend : ∀ c ∈ rest.head?, t.kind.EndedBy c)
      (hrest : Spread ts rest) : Spread (t :: ts) (gap ++ (t.lexeme.toList ++ rest))

/--
The texts that write the tokens in order. White space may come in front of each token and behind the
last one, and has to come between two of them.
-/
inductive Spaced : List Token → List Char → Prop where
  | nil {blanks : List Char} (hblank : ∀ c ∈ blanks, Text.isBlank c = true) : Spaced [] blanks
  | cons {blanks rest : List Char} {t : Token} {ts : List Token}
      (hblank : ∀ c ∈ blanks, Text.isBlank c = true)
      (hsep : ∀ c ∈ rest.head?, Text.isBlank c = true) (hrest : Spaced ts rest) :
      Spaced (t :: ts) (blanks ++ (t.lexeme.toList ++ rest))

/-- White space is a gap. -/
theorem Gap.of_blanks {after blanks : List Char} (h : ∀ c ∈ blanks, Text.isBlank c = true) :
    Gap after blanks := by
  rw [← List.append_nil blanks]
  exact Gap.nil.blanks h

/-- A comment with its line feed makes the gap behind it longer. -/
theorem Gap.line {after body gap : List Char} (hline : '\n' ∉ body) (hgap : Gap after gap) :
    Gap after ('/' :: '/' :: body ++ '\n' :: gap) := by
  refine .comment hline (fun c hc => ?_) (.blank (by decide) hgap)
  exact (Option.some.inj hc).symm

/-- At the end of a source a comment needs no line feed. -/
theorem Gap.unended {body : List Char} (hline : '\n' ∉ body) : Gap [] ('/' :: '/' :: body) := by
  have hgap : Gap [] ('/' :: '/' :: body ++ []) :=
    .comment hline (by simp) .nil
  rwa [List.append_nil] at hgap

/-- Tokens with white space between them are spread. -/
theorem Spaced.spread {ts : List Token} {cs : List Char} (h : Spaced ts cs) : Spread ts cs := by
  induction h with
  | nil hblank => exact .nil (.of_blanks hblank)
  | cons hblank hsep _ ih => exact .cons (.of_blanks hblank) (fun c hc => Or.inl (hsep c hc)) ih

namespace Scanner

/-! ## Gaps -/

theorem skipped_append (s : Scanner) (l r : List Char) :
    s.skipped (l ++ r) = (s.skipped l).skipped r := by
  simp [skipped, advance, Nat.add_assoc]

/-- White space in front of a token leaves no trace but the offset. -/
theorem steps_blanks (s : Scanner) {blanks rest : List Char}
    (hblank : ∀ c ∈ blanks, Text.isBlank c = true)
    (hend : ∀ c ∈ rest.head?, Text.isBlank c = false) :
    Steps s (blanks ++ rest) (s.skipped blanks) rest := by
  by_cases hne : blanks = []
  -- without white space there is no step
  · subst hne
    exact .done s rest
  · have hstep : s.step (blanks ++ rest) = .ok rest (s.skipped blanks) :=
      step_eq_ok_iff.mpr ⟨.blank, blanks, first?_blanks hne hblank hend, Or.inl ⟨rfl, rfl⟩⟩
    exact .more hstep (.done _ _)

/-- White space is stepped over, however much of it there is. -/
theorem scan_blanks (s : Scanner) {blanks : List Char} (rest : List Char)
    (hblank : ∀ c ∈ blanks, Text.isBlank c = true) :
    s.scan (blanks ++ rest) = (s.skipped blanks).scan rest := by
  -- the white space that `rest` begins with belongs to the same lexeme
  obtain ⟨more, after, rfl, hmore, hend⟩ : ∃ more after, rest = more ++ after ∧
      (∀ c ∈ more, Text.isBlank c = true) ∧ ∀ c ∈ after.head?, Text.isBlank c = false :=
    ⟨rest.takeWhile Text.isBlank, rest.dropWhile Text.isBlank,
      List.takeWhile_append_dropWhile.symm, fun c hc => List.all_eq_true.mp List.all_takeWhile c hc,
      fun c hc => Pattern.eq_false_of_mem_head?_dropWhile hc⟩
  have hall : ∀ c ∈ blanks ++ more, Text.isBlank c = true := by
    intro c hc
    exact (List.mem_append.mp hc).elim (hblank c) (hmore c)
  calc s.scan (blanks ++ (more ++ after))
      = s.scan (blanks ++ more ++ after) := by rw [List.append_assoc]
    _ = (s.skipped (blanks ++ more)).scan after := (s.steps_blanks hall hend).scan_eq
    _ = ((s.skipped blanks).skipped more).scan after := by rw [skipped_append]
    _ = (s.skipped blanks).scan (more ++ after) :=
        ((s.skipped blanks).steps_blanks hmore hend).scan_eq.symm

/-- A comment is stepped over, up to the end of its line. -/
theorem scan_comment (s : Scanner) {body rest : List Char} (hline : '\n' ∉ body)
    (hend : ∀ c ∈ rest.head?, c = '\n') :
    s.scan ('/' :: '/' :: body ++ rest) = (s.skipped ('/' :: '/' :: body)).scan rest := by
  have hsplit : Pattern.comment.split? ('/' :: '/' :: body ++ rest) =
      some ('/' :: '/' :: body, rest) :=
    Pattern.split?_eq_some_iff.mpr ⟨rfl, .comment hline, hend⟩
  have hfirst : Pattern.first? ('/' :: '/' :: body ++ rest) =
      some (.comment, '/' :: '/' :: body, rest) :=
    Pattern.first?_eq_of_starts (by decide) (by decide) hsplit
  apply scan_of_step_ok
  exact step_eq_ok_iff.mpr ⟨_, _, hfirst, Or.inl ⟨rfl, rfl⟩⟩

/-- A gap is stepped over, and leaves no trace but the offset. -/
theorem scan_gap {after gap : List Char} (h : Gap after gap) (s : Scanner) :
    s.scan (gap ++ after) = (s.skipped gap).scan after := by
  -- The induction is on the gap: one piece of white space or one comment is skipped after the
  -- other.
  induction h generalizing s with
  | nil => rfl
  | @blank c gap hblank _ ih =>
    calc s.scan ([c] ++ (gap ++ after))
        = (s.skipped [c]).scan (gap ++ after) :=
          scan_blanks s _ (List.forall_mem_singleton.mpr hblank)
      _ = ((s.skipped [c]).skipped gap).scan after := ih _
      _ = (s.skipped ([c] ++ gap)).scan after := by rw [skipped_append]
  | @comment body gap hline hend _ ih =>
    calc s.scan ('/' :: '/' :: body ++ gap ++ after)
        = s.scan ('/' :: '/' :: body ++ (gap ++ after)) := by rw [List.append_assoc]
      _ = (s.skipped ('/' :: '/' :: body)).scan (gap ++ after) := scan_comment s hline hend
      _ = ((s.skipped ('/' :: '/' :: body)).skipped gap).scan after := ih _
      _ = (s.skipped ('/' :: '/' :: body ++ gap)).scan after := by rw [skipped_append]

/-! ## Tokens -/

/-- A token that ends where its text does takes one step, which pushes it. -/
theorem step_token (s : Scanner) {t : Token} {rest : List Char}
    (hagree : Agree t.kind t.lexeme t.literal) (hend : ∀ c ∈ rest.head?, t.kind.EndedBy c) :
    ∃ found s', s.step (t.lexeme.toList ++ rest) = .ok rest s' ∧ found.bare = t.bare ∧
      s'.tokens = s.tokens.push found := by
  obtain ⟨p, hfirst, hread⟩ := hagree.first?_eq hend
  rw [← String.ofList_toList (s := t.lexeme)] at hread
  refine ⟨s.tokenAt t.kind t.lexeme.toList t.literal, _,
    step_eq_ok_iff.mpr ⟨p, _, hfirst, Or.inr ⟨_, _, hread, rfl⟩⟩, ?_, rfl⟩
  rw [Token.bare_eq_bare_iff]
  exact ⟨rfl, String.ofList_toList, rfl⟩

/-- The scan of a text that writes tokens pushes these tokens. -/
theorem scan_spread {ts : List Token} {cs : List Char} (h : Spread ts cs)
    (hagree : ∀ t ∈ ts, Agree t.kind t.lexeme t.literal) (s : Scanner) :
    ∃ found s', s.scan cs = .ok () s' ∧ found.map Token.bare = ts.map Token.bare ∧
      s'.tokens.toList = s.tokens.toList ++ found := by
  -- The induction is on the tokens: a gap is skipped, and then a step pushes the token behind it.
  induction h generalizing s with
  | @nil gap hgap =>
    have hscan := scan_gap hgap s
    rw [List.append_nil, scan_nil] at hscan
    exact ⟨[], s.skipped gap, hscan, rfl, (List.append_nil _).symm⟩
  | @cons gap rest t ts hgap hend _ ih =>
    rw [List.forall_mem_cons] at hagree
    obtain ⟨u, s₁, hstep, hu, htokens₁⟩ := step_token (s.skipped gap) hagree.1 hend
    obtain ⟨found, s', hscan, hfound, htokens⟩ := ih hagree.2 s₁
    refine ⟨u :: found, s', ?_, ?_, ?_⟩
    · rw [scan_gap hgap, scan_of_step_ok hstep, hscan]
    · rw [List.map_cons, List.map_cons, hu, hfound]
    · rw [htokens, htokens₁, Array.toList_push, List.append_assoc, List.singleton_append]
      rfl

end Scanner

/-! ## Sources -/

/-- A source that writes tokens scans to these tokens. -/
theorem tokenize_spread {ts : List Token} {text : String} (h : Spread ts text.toList)
    (hagree : ∀ t ∈ ts, Agree t.kind t.lexeme t.literal) (file? : Option String) :
    ∃ tokens s found position, tokenize text file? = .ok tokens s ∧
      tokens.toList = found ++ [Token.endOfInput position] ∧
      found.map Token.bare = ts.map Token.bare := by
  obtain ⟨found, s, hscan, hfound, htokens⟩ :=
    Scanner.scan_spread h hagree (Scanner.ofText text file?)
  refine ⟨s.finish.tokens, s.finish, found, s.position,
    Scanner.tokenize_eq_ok_iff.mpr ⟨s, Scanner.scan_eq_ok_iff.mp hscan, rfl, rfl⟩, ?_, hfound⟩
  rw [Scanner.toList_finish, htokens]
  rfl

/-- Tokens with white space between them are scanned again, at their new places. -/
theorem tokenize_spaced {ts : List Token} {text : String} (h : Spaced ts text.toList)
    (hagree : ∀ t ∈ ts, Agree t.kind t.lexeme t.literal) (file? : Option String) :
    ∃ tokens s found position, tokenize text file? = .ok tokens s ∧
      tokens.toList = found ++ [Token.endOfInput position] ∧
      found.map Token.bare = ts.map Token.bare :=
  tokenize_spread h.spread hagree file?

end LoxExpr
