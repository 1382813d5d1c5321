import LoxExpr.Proofs.Grammar.Limit

/-!
# Tokens that a parse does not see

The procedures look at the token that the cursor is on, and at no other. So a procedure that ends at
an index has seen nothing behind it: on any tokens that are the same up to and with that index, it
gives the same tree or the same fault, and ends at the same place (`Shortsighted`). That goes for a
whole parse, too, and there it means that the tokens behind the first end of input are never seen,
and that it makes no difference whether a missing end of input is added before or by the parser.
-/

namespace LoxExpr

open LoxExpr.Parser

/-! ## Outcomes that look the same -/

/-- What an outcome shows, without the log: the tree or the fault, the cursor and the nesting. -/
def Grammar.Outcome.visible (r : Outcome) : Except Fault Expr × Nat × Nat :=
  ((report r).1, (report r).2.1, (report r).2.2.1)

/--
The parsers stand at the same index, with the same limit and nesting, and see the same tokens from
there to the index `n`, and at `n` itself.
-/
structure Parser.SameThrough (n : Nat) (p p' : Parser) : Prop where
  limit_eq : p'.limit = p.limit
  cursor_eq : p'.cursor = p.cursor
  nesting_eq : p'.nesting = p.nesting
  tokens_eq : ∀ i, p.cursor ≤ i → i ≤ n → p'.tokens[i]? = p.tokens[i]?

namespace Grammar

/-- The step looks the same from any parser that sees the same tokens to where the step ends. -/
def Shortsighted (m : ParseM Expr) : Prop :=
  ∀ p p' : Parser, p.SameThrough (Outcome.parser (m p)).cursor p' →
    Outcome.visible (m p') = Outcome.visible (m p)

end Grammar

namespace Parser

variable {n : Nat} {s s' p p' : Parser}

/-- Parsers with the same tokens through an index have the same sight up to behind it. -/
theorem SameThrough.sight (h : s.SameThrough n s') : Sight (n + 1) s s' :=
  ⟨Nat.le_of_eq h.limit_eq.symm, fun i hlow hi => h.tokens_eq i hlow (Nat.le_of_lt_succ hi)⟩

/-- Parsers with the same tokens through an index begin abreast. -/
theorem SameThrough.abreast (h : s.SameThrough n s') : Abreast s s' s s' :=
  Abreast.refl h.cursor_eq h.nesting_eq

/-- In front of the index, the token that is left over is the same fault on both sides. -/
theorem Sight.unexpected_eq (hs : Sight n s s') (hp : Abreast s s' p p') (hn : p.cursor < n) :
    p'.unexpected = p.unexpected := by
  unfold unexpected
  rw [hs.current_eq hp hn, hs.position_eq hp hn]

end Parser

namespace Grammar

/-! ## Procedures -/

variable {t : Task} {p p' : Parser} {r r' : Outcome}

/-- Parsers abreast show the same with the same tree. -/
theorem visible_ok {s s' q q' : Parser} (e : Expr) (h : Abreast s s' q q') :
    Outcome.visible (.ok e q') = Outcome.visible (.ok e q) := by
  show ((.ok e : Except Fault Expr), q'.cursor, q'.nesting) = _
  rw [h.cursor_eq, h.nesting_eq]
  rfl

/-- Parsers abreast show the same with the same fault. -/
theorem visible_error {s s' q q' : Parser} (fault : Fault) (h : Abreast s s' q q') :
    Outcome.visible (.error fault q') = Outcome.visible (.error fault q) := by
  show ((.error fault : Except Fault Expr), q'.cursor, q'.nesting) = _
  rw [h.cursor_eq, h.nesting_eq]
  rfl

/-- A run is followed by any parser with the same tokens through where it stops. -/
theorem Run.follows (h : Run t p r) (hsame : p.SameThrough (Outcome.parser r).cursor p') :
    Follows p p' t p' r :=
  h.abreast hsame.sight hsame.abreast (Nat.lt_succ_self _) fun _ => hsame.limit_eq

/-- Two runs over the same tokens through where the first stops look the same. -/
theorem Run.visible_eq (h : Run t p r) (hsame : p.SameThrough (Outcome.parser r).cursor p')
    (h' : Run t p' r') : Outcome.visible r' = Outcome.visible r := by
  have hfollows := h.follows hsame
  -- the run that follows is the only one from there, so it is the one at hand
  cases r with
  | ok e q =>
    obtain ⟨q', hq, habreast⟩ := hfollows
    rw [hq.det h']
    exact visible_ok e habreast
  | error fault q =>
    obtain ⟨q', hq, habreast⟩ := hfollows
    rw [hq.det h']
    exact visible_error fault habreast

/-- No procedure looks behind the token that it stops at. -/
theorem Procedure.shortsighted (f : Procedure) : Shortsighted f.parse := by
  intro p p' hsame
  exact (f.run_parse p).visible_eq hsame (f.run_parse p')

/-! ## Whole parses -/

/-- The check for the end of input consumes nothing. -/
theorem cursor_sentence (p : Parser) :
    (Outcome.parser (sentence p)).cursor = (Outcome.parser (Grammar.expression p)).cursor := by
  rw [sentence_eq]
  cases Grammar.expression p with
  | error fault q => rfl
  | ok e q =>
    show (Outcome.parser (if q.atEnd then .ok e q else .error q.unexpected q)).cursor = q.cursor
    split <;> rfl

/-- The token behind an expression is the last one that is looked at. -/
theorem sentence_shortsighted : Shortsighted sentence := by
  intro p p' hsame
  rw [cursor_sentence] at hsame
  have hfollows := (run_perform .expression p).follows hsame
  have hrun' := run_perform .expression p'
  rw [perform_expression] at hfollows hrun'
  rw [sentence_eq, sentence_eq]
  -- the expression is followed; if it succeeds, the token behind it is looked at once more
  cases hres : Grammar.expression p with
  | error fault q =>
    rw [hres] at hfollows
    obtain ⟨q', hq, habreast⟩ := hfollows
    rw [hq.det hrun']
    exact visible_error fault habreast
  | ok e q =>
    rw [hres] at hfollows hsame
    obtain ⟨q', hq, habreast⟩ := hfollows
    have hn : q.cursor < q.cursor + 1 := Nat.lt_succ_self _
    rw [hq.det hrun']
    show Outcome.visible (if q'.atEnd then .ok e q' else .error q'.unexpected q') =
      Outcome.visible (if q.atEnd then .ok e q else .error q.unexpected q)
    -- the cursor is on that token, which is still the same on both sides
    rw [hsame.sight.atEnd_eq habreast hn, hsame.sight.unexpected_eq habreast hn]
    split
    · exact visible_ok e habreast
    · exact visible_error _ habreast

end Grammar

open Grammar

/-- What shows of a parse is what shows of its sentence. -/
theorem visible_parse (tokens : Array Token) (limit : Nat) :
    Outcome.visible (parse tokens limit) = Outcome.visible (sentence (ofTokens tokens limit)) := by
  unfold parse
  cases sentence (ofTokens tokens limit) <;> rfl

/-- A parse stops where its sentence does. -/
theorem cursor_parse (tokens : Array Token) (limit : Nat) :
    (Outcome.parser (parse tokens limit)).cursor =
      (Outcome.parser (sentence (ofTokens tokens limit))).cursor := by
  unfold parse
  cases sentence (ofTokens tokens limit) <;> rfl

variable {tokens tokens' : Array Token} {limit : Nat}

/-- Sequences with the same tokens through where a parse stops are parsed alike. -/
theorem visible_parse_eq
    (h : ∀ i, i ≤ (Outcome.parser (parse tokens limit)).cursor →
      (ofTokens tokens' limit).tokens[i]? = (ofTokens tokens limit).tokens[i]?) :
    Outcome.visible (parse tokens' limit) = Outcome.visible (parse tokens limit) := by
  rw [visible_parse, visible_parse]
  apply sentence_shortsighted
  rw [cursor_parse] at h
  constructor
  · rw [limit_ofTokens, limit_ofTokens]
  · rw [cursor_ofTokens, cursor_ofTokens]
  · rw [nesting_ofTokens, nesting_ofTokens]
  · exact fun i _ hi => h i hi

/-- A parse does not go over an end of input. -/
theorem cursor_parse_le_of_eof {i : Nat} {t : Token} (ht : tokens[i]? = some t)
    (hkind : t.kind = .eof) : (Outcome.parser (parse tokens limit)).cursor ≤ i := by
  have hi : i < tokens.size := (Array.getElem?_eq_some_iff.mp ht).1
  obtain ⟨r, hrun, hparse⟩ := exists_parse_eq tokens limit
  rw [hparse, Outcome.cursor_conclude]
  apply hrun.onward.sound.cursor_le_end i t _ hkind
  rw [hrun.onward.tokens_eq, getElem?_tokens_ofTokens hi]
  exact ht

/-- Behind an end of input, no token makes a difference. -/
theorem visible_parse_append (h : ∃ t ∈ tokens, t.kind = .eof) (rest : Array Token) :
    Outcome.visible (parse (tokens ++ rest) limit) = Outcome.visible (parse tokens limit) := by
  obtain ⟨t, hmem, hkind⟩ := h
  obtain ⟨n, hn, rfl⟩ := Array.getElem_of_mem hmem
  apply visible_parse_eq
  intro i hi
  -- the parse stops at the first end of input, and that is among the tokens it was given
  have hle : (Outcome.parser (parse tokens limit)).cursor ≤ n :=
    cursor_parse_le_of_eof (Array.getElem?_eq_getElem hn) hkind
  have hlt : i < tokens.size := by omega
  have hlt' : i < (tokens ++ rest).size := by
    rw [Array.size_append]
    omega
  rw [getElem?_tokens_ofTokens hlt, getElem?_tokens_ofTokens hlt', Array.getElem?_append_left hlt]

/-- The parser adds the end of input that stands where the last token stops. -/
theorem tokens_ofTokens_push {last : Token} (hlast : tokens.back? = some last)
    (hkind : last.kind ≠ .eof) :
    (ofTokens (tokens.push (Token.endOfInput last.span.stop)) limit).tokens =
      (ofTokens tokens limit).tokens := by
  rw [tokens_ofTokens, tokens_ofTokens, if_pos (by simp [Token.endOfInput]),
    if_neg (by simpa [hlast] using hkind), endOf, hlast]

/--
**One token of lookahead.** Every procedure, and a parse as a whole, depends on the tokens from its
cursor to the one that it ends at, and on none behind. So what follows an end of input does not
matter, and an end of input that is missing can as well be handed in where the last token stops.
-/
theorem shortsighted_parse (f : Procedure) (tokens : Array Token) (limit : Nat) :
    Shortsighted f.parse ∧
    (∀ tokens', (∀ i, i ≤ (Outcome.parser (parse tokens limit)).cursor →
        (ofTokens tokens' limit).tokens[i]? = (ofTokens tokens limit).tokens[i]?) →
      Outcome.visible (parse tokens' limit) = Outcome.visible (parse tokens limit)) ∧
    (∀ rest, (∃ t ∈ tokens, t.kind = .eof) →
      Outcome.visible (parse (tokens ++ rest) limit) = Outcome.visible (parse tokens limit)) ∧
    ∀ last, tokens.back? = some last → last.kind ≠ .eof →
      Outcome.visible (parse (tokens.push (Token.endOfInput last.span.stop)) limit) =
        Outcome.visible (parse tokens limit) := by
  refine ⟨f.shortsighted, fun _ => visible_parse_eq, fun rest h => visible_parse_append h rest,
    fun last hlast hkind => ?_⟩
  apply visible_parse_eq
  intro i _
  -- the end of input is the one that would have been added
  rw [tokens_ofTokens_push hlast hkind]

/-- A parenthesis that is never looked at. -/
def stray : Token := ⟨.openParen, "(", none, ⟨⟨9, "t"⟩, ⟨10, "t"⟩⟩⟩

/-- The tokens of `nil`, with an end of input that is not the last token. -/
def closedEarly : Array Token := #[
  ⟨.kwNil, "nil", none, ⟨⟨0, "t"⟩, ⟨3, "t"⟩⟩⟩, Token.endOfInput ⟨3, "t"⟩, stray]

/-- Neither another parenthesis nor a second end of input makes a difference. -/
theorem visible_parse_closedEarly :
    (ofTokens closedEarly 1).SameThrough 1 (ofTokens (closedEarly ++ #[stray]) 1) ∧
    Outcome.visible (Grammar.term (ofTokens (closedEarly ++ #[stray]) 1)) =
      (.ok (.literal .nil), 1, 0) ∧
    (∃ t ∈ closedEarly, t.kind = .eof) ∧
    Outcome.visible (parse (closedEarly ++ #[stray]) 1) = (.ok (.literal .nil), 1, 0) ∧
    closedEarly.back? = some stray ∧ stray.kind ≠ .eof ∧
    Outcome.visible (parse (closedEarly.push (Token.endOfInput stray.span.stop)) 1) =
      (.ok (.literal .nil), 1, 0) := by
  have hsame : (ofTokens closedEarly 1).SameThrough 1 (ofTokens (closedEarly ++ #[stray]) 1) := by
    refine ⟨rfl, rfl, rfl, fun i _ hi => ?_⟩
    have htokens : ∀ i, i ≤ 1 → (ofTokens (closedEarly ++ #[stray]) 1).tokens[i]? =
        (ofTokens closedEarly 1).tokens[i]? := by decide
    exact htokens i hi
  have hread : Outcome.visible (Grammar.term (ofTokens closedEarly 1)) =
      (.ok (.literal .nil), 1, 0) := rfl
  have hparse : Outcome.visible (parse closedEarly 1) = (.ok (.literal .nil), 1, 0) := rfl
  have heof : ∃ t ∈ closedEarly, t.kind = .eof :=
    ⟨Token.endOfInput ⟨3, "t"⟩, by simp [closedEarly], rfl⟩
  have hlast : closedEarly.back? = some stray := by decide
  have hkind : stray.kind ≠ .eof := by decide
  -- the three parts are applied to a literal, with an end of input behind it and a stray token
  obtain ⟨hterm, -, hrest, hend⟩ := shortsighted_parse .term closedEarly 1
  have hstop : (Outcome.parser (Grammar.term (ofTokens closedEarly 1))).cursor = 1 :=
    congrArg (·.2.1) hread
  refine ⟨hsame, ?_, heof, ?_, hlast, hkind, ?_⟩
  · exact (hterm _ _ (hstop.symm ▸ hsame)).trans hread
  · exact (hrest _ heof).trans hparse
  · exact (hend _ hlast hkind).trans hparse

end LoxExpr
