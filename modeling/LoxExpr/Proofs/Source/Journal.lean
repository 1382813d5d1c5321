import LoxExpr.Proofs.Grammar.Journal
import LoxExpr.Proofs.Source.Diagnosis
import LoxExpr.Proofs.Source.Transcript

/-!
# The log of a source

The scan of a source notes its tokens, and the parse goes on with that log. Every step of the
scanner keeps its log a list of its tokens (`Scanner.Steps.listed`), and what the parser adds is
faithful (`Grammar.faithful_parse`). So the log tells which tokens there were and how far the parse
came, and, if there is a tree, how it was built: `journal_faithful`.
-/

namespace LoxExpr

open Grammar

/-! ## The log of a scan -/

namespace Scanner

/-- The scanner has noted the tokens that it found, and nothing else. -/
def Listed (s : Scanner) : Prop :=
  s.log.toList = s.tokens.toList.map .lexed

variable {s s' : Scanner} {left left' : List Char}

/-- A token that is pushed is listed with the others. -/
theorem Listed.push (h : s.Listed) (token : Token) : (s.push token).Listed := by
  have hlog : (s.push token).log.toList = s.log.toList ++ [.lexed token] := Array.toList_push ..
  have htokens : (s.push token).tokens.toList = s.tokens.toList ++ [token] :=
    Array.toList_push ..
  rw [Listed, hlog, htokens, List.map_append, h]
  rfl

/-- A step lists the token that it pushes. -/
theorem Listed.step (hs : s.Listed) (h : s.step left = .ok left' s') : s'.Listed := by
  obtain ⟨p, lexeme, -, ⟨-, rfl⟩ | ⟨kind, literal, -, rfl⟩⟩ := step_eq_ok_iff.mp h
  · exact hs
  · exact hs.push _

/-- Along any number of steps, the tokens stay listed. -/
theorem Steps.listed (h : Steps s left s' left') (hs : s.Listed) : s'.Listed := by
  induction h with
  | done s left => exact hs
  | more hstep _ ih => exact ih (hs.step hstep)

theorem listed_ofText (text : String) (file? : Option String) : (ofText text file?).Listed := rfl

/-- At the end of a source, the number of tokens is noted behind them. -/
theorem Listed.log_finish (h : s.Listed) :
    s.finish.log.toList =
      s.finish.tokens.toList.map .lexed ++ [.tokenized s.file s.finish.tokens.size] := by
  have hpush := h.push (Token.endOfInput s.position)
  have hlog : s.finish.log.toList = (s.push (Token.endOfInput s.position)).log.toList ++
      [.tokenized s.file s.finish.tokens.size] := Array.toList_push ..
  rw [hlog, hpush]
  rfl

end Scanner

/-! ## The whole log -/

/-- Everything that the scan and the parse of a source note, in order. -/
def journal (text : String) (file? : Option String) (limit : Nat) : List Event :=
  match tokenize text file? with
  | .error _ s => s.log.toList
  | .ok tokens s => s.log.toList ++ (Outcome.parser (parse tokens limit)).log.toList

open Scanner

variable {text : String} {file? : Option String}

/-- The log of a scan lists its tokens, and then says how many there are. -/
theorem log_of_tokenize {tokens : Array Token} {s : Scanner}
    (h : tokenize text file? = .ok tokens s) :
    s.log.toList = tokens.toList.map .lexed ++ [.tokenized (file?.getD "shell") tokens.size] := by
  obtain ⟨s', hsteps, rfl, rfl⟩ := tokenize_eq_ok_iff.mp h
  have hlog := (hsteps.listed (listed_ofText text file?)).log_finish
  rwa [hsteps.frame.2.1] at hlog

/-- What a scan that fails has noted are the tokens of the text in front of the fault. -/
theorem log_of_tokenize_eq_error {fault : Fault} {s : Scanner}
    (h : tokenize text file? = .error fault s) :
    ∃ before left tokens s', text.toList = before ++ left ∧
      fault.position = .at (file?.getD "shell") (Text.byteLength before) ∧
      tokenize (String.ofList before) file? = .ok tokens s' ∧
      tokens.toList = s.tokens.toList ++ [Token.endOfInput fault.position] ∧
      s.log.toList = s.tokens.toList.map .lexed := by
  obtain ⟨before, left, htext, hsteps, -, hposition⟩ := stuck_of_tokenize_eq_error h
  -- the text before the stop is scanned by the same steps as if nothing followed it
  have hscan : (ofText text file?).scan (String.ofList before).toList = .ok () s := by
    rw [String.toList_ofList]
    exact scan_eq_ok_iff.mpr hsteps.truncate
  obtain ⟨tokens, s', htokens, hlist⟩ := exists_tokenize_eq_ok hscan
  rw [toList_finish, hsteps.position_eq, ← hposition] at hlist
  exact ⟨before, left, tokens, s', htext, hposition, htokens, hlist,
    hsteps.listed (listed_ofText text file?)⟩

/-- The log of a source that scans, and of the parse of its tokens. -/
structure Chronicle (text : String) (file? : Option String) (limit : Nat) (tokens : Array Token)
    (q : Parser) : Prop where
  /-- The last token is the end of input. -/
  ends : ∃ found position, tokens.toList = found ++ [Token.endOfInput position]
  /-- The tokens come first, then their number, and then what the parser notes. -/
  journal_eq : journal text file? limit =
    tokens.toList.map .lexed ++ .tokenized (file?.getD "shell") tokens.size :: q.log.toList
  tokens_eq : q.tokens = tokens
  faithful : Faithful q

/-- The log of a parse of a source tells the scan first, and then the parse. -/
theorem chronicle {tokens : Array Token} {s : Scanner} (h : tokenize text file? = .ok tokens s)
    (limit : Nat) :
    Chronicle text file? limit tokens (Outcome.parser (parse tokens limit)) where
  ends := by
    obtain ⟨s', -, -, rfl⟩ := tokenize_eq_ok_iff.mp h
    exact ⟨_, _, toList_finish s'⟩
  journal_eq := by
    rw [journal, h]
    show s.log.toList ++ _ = _
    rw [log_of_tokenize h, List.append_assoc]
    rfl
  tokens_eq := (tokens_parser_parse tokens limit).trans (tokens_ofTokens_of_tokenize h)
  faithful := faithful_parse tokens limit

/-- The log of a source as it is read, one line for each event. -/
def transcript (text : String) (file? : Option String) (limit : Nat) : List String :=
  (journal text file? limit).map Event.text

/-- The lines of a source that scans: those of the scan, and then those of the parse. -/
theorem transcribed_of_tokenize {tokens : Array Token} {s : Scanner}
    (h : tokenize text file? = .ok tokens s) (limit : Nat) :
    ∃ noted, transcript text file? limit = scanLines (file?.getD "shell") tokens ++ noted ∧
      Transcribed (Outcome.parser (parse tokens limit)) noted := by
  have hchronicle := chronicle h limit
  refine ⟨_, ?_, hchronicle.faithful.transcribed⟩
  rw [transcript, hchronicle.journal_eq, List.map_append, List.map_map, scanLines,
    List.append_assoc]
  rfl

/--
**The log is a faithful record, and no longer than the work.** For a source that scans it has the
tokens in order, then their number, and then the way of the parser: it consumes the tokens up to its
cursor, each once and in order, goes straight down to the tightest tier wherever it begins an
expression, and goes down at most once for each cursor. If a tree comes out, the rules were begun as
often as its groupings and operators call for. For a source that does not scan, the log has the
tokens of the text in front of the fault, and nothing else. All of this can be read off the lines
that the log is shown in.
-/
theorem journal_faithful (text : String) (file? : Option String) (limit : Nat) :
    (∀ tokens s, tokenize text file? = .ok tokens s →
      Chronicle text file? limit tokens (Outcome.parser (parse tokens limit)) ∧
        (∀ e q, parse tokens limit = .ok e q → Tallied e q) ∧
        ∃ noted, transcript text file? limit = scanLines (file?.getD "shell") tokens ++ noted ∧
          Transcribed (Outcome.parser (parse tokens limit)) noted) ∧
      ∀ fault s, tokenize text file? = .error fault s →
        ∃ before left tokens s', text.toList = before ++ left ∧
          fault.position = .at (file?.getD "shell") (Text.byteLength before) ∧
          tokenize (String.ofList before) file? = .ok tokens s' ∧
          journal text file? limit = tokens.toList.dropLast.map .lexed ∧
          transcript text file? limit =
            tokens.toList.dropLast.map fun token => "lexed " ++ token.display := by
  refine ⟨fun tokens s h => ⟨chronicle h limit, fun e q => tallied_of_parse,
    transcribed_of_tokenize h limit⟩, fun fault s h => ?_⟩
  obtain ⟨before, left, tokens, s', htext, hposition, htokens, hlist, hlog⟩ :=
    log_of_tokenize_eq_error h
  -- a failed scan leaves the records of what it read, and the parser none
  have hjournal : journal text file? limit = tokens.toList.dropLast.map .lexed := by
    rw [journal, h, hlist, List.dropLast_concat]
    exact hlog
  refine ⟨before, left, tokens, s', htext, hposition, htokens, hjournal, ?_⟩
  rw [transcript, hjournal, List.map_map]
  rfl

/-- The tokens of `(nil)<nil`. -/
def compared : Array Token := #[
  ⟨.openParen, "(", none, ⟨.at "shell" 0, .at "shell" 1⟩⟩,
  ⟨.kwNil, "nil", some .nil, ⟨.at "shell" 1, .at "shell" 4⟩⟩,
  ⟨.closeParen, ")", none, ⟨.at "shell" 4, .at "shell" 5⟩⟩,
  ⟨.less, "<", none, ⟨.at "shell" 5, .at "shell" 6⟩⟩,
  ⟨.kwNil, "nil", some .nil, ⟨.at "shell" 6, .at "shell" 9⟩⟩,
  ⟨.eof, "", none, ⟨.at "shell" 9, .at "shell" 9⟩⟩]

theorem tokenize_compared : ∃ s, tokenize "(nil)<nil" none = .ok compared s :=
  value?_eq_some_iff.mp (by decide +kernel)

/--
A grouping and an ordering: terms are begun three times, and three lines say so. Without room for
the parentheses, the log stops behind the first of them; in front of a foreign character there are
tokens only.
-/
theorem journal_compared :
    (∃ e q noted, parse compared 4 = .ok e q ∧ q.begun .comparison = 2 ∧ q.begun .term = 3 ∧
      transcript "(nil)<nil" none 4 = scanLines "shell" compared ++ noted ∧
      noted.countP (Says "enter term at") = 3) ∧
      (∃ fault q noted, parse compared 1 = .error fault q ∧ q.cursor = 1 ∧
        Chronicle "(nil)<nil" none 1 compared q ∧
        transcript "(nil)<nil" none 1 = scanLines "shell" compared ++ noted ∧
        noted.filter (Says "consumed") = ["consumed OpenParen ( at 0"]) ∧
      ∃ before tokens s, before <+: sharpened.toList ∧
        tokenize (String.ofList before) none = .ok tokens s ∧
        journal sharpened none 4 = tokens.toList.dropLast.map .lexed ∧
        transcript sharpened none 4 =
          tokens.toList.dropLast.map fun token => "lexed " ++ token.display := by
  obtain ⟨s, hscan⟩ := tokenize_compared
  -- once with room for the grouping, once without, and once where the scan fails
  obtain ⟨-, htally, wide, hwide, hsaid⟩ :=
    (journal_faithful "(nil)<nil" none 4).1 compared s hscan
  obtain ⟨hfails, -, narrow, hnarrow, hconsumed⟩ :=
    (journal_faithful "(nil)<nil" none 1).1 compared s hscan
  obtain ⟨s', hstuck⟩ := tokenize_sharpened
  obtain ⟨before, left, tokens, s'', htext, -, htokens, hjournal, hlines⟩ :=
    (journal_faithful sharpened none 4).2 _ s' hstuck
  have hterm := (htally _ _ rfl).term_eq
  refine ⟨⟨_, _, wide, rfl, (htally _ _ rfl).comparison_eq, hterm, hwide, ?_⟩,
    ⟨_, _, narrow, rfl, rfl, hfails, hnarrow, ?_⟩,
    before, tokens, s'', ⟨left, htext.symm⟩, htokens, hjournal, hlines⟩
  · exact (hsaid.begun_eq .term).trans hterm
  · rw [hconsumed.consumed_eq]
    decide +kernel

end LoxExpr
