import LoxExpr.Proofs.Lexing.Meaning
import LoxExpr.Proofs.Lexing.Steps
import LoxExpr.Proofs.Text.Bytes

/-!
# The layout of a source

The tokens of a source lie in it one after the other, and what lies between them is white space and
comments. `Laid` says so by induction along the text, with every token at its byte offsets. Steps of
the scanner lay their tokens out in that way (`Steps.laid`), and the layout gives all that is said
about places: `tokenize_covers` collects it for a whole source.
-/

namespace LoxExpr

open Text (byteLength)

/-! ## Gaps -/

/--
What lies in front of a token, or of the end of the source: white space, and comments that run to a
line feed or to the end. `after` is the text that follows the gap.
-/
inductive Gap (after : List Char) : List Char → Prop where
  | nil : Gap after []
  | blank {c : Char} {gap : List Char} (hblank : Text.isBlank c = true) (hgap : Gap after gap) :
      Gap after (c :: gap)
  | comment {body gap : List Char} (hline : '\n' ∉ body)
      (hend : ∀ c ∈ (gap ++ after).head?, c = '\n') (hgap : Gap after gap) :
      Gap after ('/' :: '/' :: body ++ gap)

/-- White space in front of a gap makes a longer gap. -/
theorem Gap.blanks {after gap blanks : List Char} (hblank : ∀ c ∈ blanks, Text.isBlank c = true)
    (hgap : Gap after gap) : Gap after (blanks ++ gap) := by
  induction blanks with
  | nil => exact hgap
  | cons c blanks ih =>
    rw [List.forall_mem_cons] at hblank
    exact .blank hblank.1 (ih hblank.2)

/-- A lexeme that is left out makes the gap behind it longer. -/
theorem Gap.skip {p : Pattern} {lexeme after gap : List Char} (hp : p = .blank ∨ p = .comment)
    (hlexeme : p.Lexeme lexeme) (hends : p.Ends lexeme (gap ++ after)) (hgap : Gap after gap) :
    Gap after (lexeme ++ gap) := by
  rcases hp with rfl | rfl
  · cases hlexeme with
    | blank _ hblank => exact hgap.blanks hblank
  · cases hlexeme with
    | comment hline => exact .comment hline hends hgap

/-! ## Tokens in their places -/

def Position.at (file : String) (n : Nat) : Position :=
  ⟨n.toUInt32, file⟩

/--
The tokens that lie in a text which runs from byte `n` of a source to its end. Each comes after a
gap and has its own text and its own place, and the end of input comes after the last gap.
-/
inductive Laid (file : String) : Nat → List Char → List Token → Prop where
  | last {n : Nat} {gap : List Char} (hgap : Gap [] gap) :
      Laid file n gap [Token.endOfInput (.at file (n + byteLength gap))]
  | token {n : Nat} {gap lexeme rest : List Char} {t : Token} {tokens : List Token}
      (hgap : Gap (lexeme ++ rest) gap) (hlexeme : t.lexeme.toList = lexeme) (hne : lexeme ≠ [])
      (hagree : Agree t.kind t.lexeme t.literal)
      (hspan : t.span = ⟨.at file (n + byteLength gap),
        .at file (n + byteLength gap + byteLength lexeme)⟩)
      (hrest : Laid file (n + byteLength gap + byteLength lexeme) rest tokens) :
      Laid file n (gap ++ lexeme ++ rest) (t :: tokens)

/-- White space or a comment in front of a text makes its first gap longer. -/
theorem Laid.skip {file : String} {n : Nat} {p : Pattern} {lexeme rest : List Char}
    {tokens : List Token} (hp : p = .blank ∨ p = .comment) (hlexeme : p.Lexeme lexeme)
    (hends : p.Ends lexeme rest) (h : Laid file (n + byteLength lexeme) rest tokens) :
    Laid file n (lexeme ++ rest) tokens := by
  cases h with
  -- whatever comes next in the text, the gap in front of it takes the lexeme in
  | @last _ gap hgap =>
    have hplace : n + byteLength lexeme + byteLength rest = n + byteLength (lexeme ++ rest) := by
      rw [Text.byteLength_append]
      omega
    rw [hplace]
    exact .last (hgap.skip hp hlexeme (by rwa [List.append_nil]))
  | @token _ gap lexeme' rest t tokens hgap hlexeme' hne hagree hspan hrest =>
    have hplace : n + byteLength lexeme + byteLength gap = n + byteLength (lexeme ++ gap) := by
      rw [Text.byteLength_append]
      omega
    rw [hplace] at hspan hrest
    rw [List.append_assoc] at hends
    rw [← List.append_assoc, ← List.append_assoc]
    exact .token (hgap.skip hp hlexeme hends) hlexeme' hne hagree hspan hrest

namespace Scanner

/-- Steps keep the source, and what they take off the text is what the offset grows by. -/
theorem Steps.frame {s s' : Scanner} {left left' : List Char} (h : Steps s left s' left') :
    s'.text = s.text ∧ s'.file = s.file ∧
      s'.offset + byteLength left' = s.offset + byteLength left := by
  induction h with
  | done s left => exact ⟨rfl, rfl, rfl⟩
  | more hstep hsteps ih =>
    obtain ⟨p, lexeme, hfirst, -⟩ := step_eq_ok_iff.mp hstep
    obtain ⟨htext', hfile', hoffset'⟩ := frame_of_step hstep hfirst
    obtain ⟨rfl, -⟩ := Pattern.eq_append_of_split? (Pattern.split?_of_first? hfirst)
    obtain ⟨htext, hfile, hoffset⟩ := ih
    refine ⟨htext.trans htext', hfile.trans hfile', ?_⟩
    rw [hoffset, hoffset', Text.byteLength_append, Nat.add_assoc]

/-- The tokens that steps push lie in the text that the steps use up. -/
theorem Steps.laid {s s' : Scanner} {left left' : List Char} (h : Steps s left s' left')
    (hleft : left' = []) : ∃ tokens, s'.tokens.toList = s.tokens.toList ++ tokens ∧
      Laid s.file s.offset left (tokens ++ [Token.endOfInput s'.position]) := by
  induction h with
  | done s left =>
    subst hleft
    exact ⟨[], (List.append_nil _).symm, Laid.last .nil⟩
  | @more s s' s'' left left' left'' hstep hsteps ih =>
    obtain ⟨p, lexeme, hfirst, hcases⟩ := step_eq_ok_iff.mp hstep
    obtain ⟨rfl, hlexeme, hends⟩ := Pattern.split?_eq_some_iff.mp (Pattern.split?_of_first? hfirst)
    obtain ⟨tokens, htokens, hlaid⟩ := ih hleft
    rcases hcases with ⟨hread, rfl⟩ | ⟨kind, literal, hread, rfl⟩
    -- a lexeme that is left out belongs to the gap in front of the next token
    · exact ⟨tokens, htokens, hlaid.skip (Pattern.eq_blank_or_comment_of_read hread) hlexeme hends⟩
    · have hne := (Pattern.eq_append_of_split? (Pattern.split?_of_first? hfirst)).2
      refine ⟨s.tokenAt kind lexeme literal :: tokens, ?_, ?_⟩
      · rw [htokens]
        show (s.tokens.push _).toList ++ tokens = _
        rw [Array.toList_push, List.append_assoc, List.singleton_append]
      · -- the lexeme stands where the scanner is, so the gap in front of it is empty
        exact Laid.token .nil String.toList_ofList hne (agree_of_read hlexeme hread) rfl hlaid

end Scanner

/-! ## What the layout says about places -/

/-- An offset below the size of the machine word is stored as it is. -/
theorem Position.offset_at {file : String} {n : Nat} (h : n < UInt32.size) :
    (Position.at file n).offset.toNat = n :=
  UInt32.toNat_ofNat_of_lt' h

namespace Laid

variable {file : String} {n : Nat} {cs : List Char} {tokens : List Token}

/-- The end of input comes last, behind tokens of other kinds. -/
theorem ends (h : Laid file n cs tokens) :
    ∃ proper, tokens = proper ++ [Token.endOfInput (.at file (n + byteLength cs))] ∧
      ∀ t ∈ proper, Agree t.kind t.lexeme t.literal := by
  induction h with
  | last hgap => exact ⟨[], rfl, by simp⟩
  | @token n gap lexeme rest t tokens hgap hlexeme hne hagree hspan hrest ih =>
    obtain ⟨proper, rfl, hproper⟩ := ih
    refine ⟨t :: proper, ?_, ?_⟩
    · rw [Text.byteLength_append, Text.byteLength_append, List.cons_append]
      simp only [Nat.add_assoc]
    · rw [List.forall_mem_cons]
      exact ⟨hagree, hproper⟩

/-- Every token but the last has its lexeme at the place that its span gives. -/
theorem lexeme_at (h : Laid file n cs tokens) (hsize : n + byteLength cs < UInt32.size) {t : Token}
    (ht : t ∈ tokens) (hkind : t.kind ≠ .eof) :
    t.lexeme.toList ≠ [] ∧ ∃ before after, cs = before ++ t.lexeme.toList ++ after ∧
      n + byteLength before = t.span.start.offset.toNat ∧
      n + byteLength (before ++ t.lexeme.toList) = t.span.stop.offset.toNat := by
  -- The induction is on the layout. The last token is the end of input, and every other one is the
  -- first of some part of the text.
  induction h with
  | last hgap =>
    rw [List.mem_singleton] at ht
    exact absurd (congrArg Token.kind ht) hkind
  | @token n gap lexeme rest t' tokens hgap hlexeme hne hagree hspan hrest ih =>
    rw [Text.byteLength_append, Text.byteLength_append] at hsize
    rcases List.mem_cons.mp ht with rfl | ht
    -- the token is the first one, or lies behind the gap and the lexeme of the first one
    · refine ⟨by rwa [hlexeme], gap, rest, by rw [hlexeme], ?_, ?_⟩
      · rw [hspan]
        exact (Position.offset_at (by omega)).symm
      · rw [hspan, hlexeme, Text.byteLength_append, ← Nat.add_assoc]
        exact (Position.offset_at (by omega)).symm
    · obtain ⟨hne', before, after, rfl, hstart, hstop⟩ := ih (by omega) ht
      refine ⟨hne', gap ++ lexeme ++ before, after, by simp, ?_, ?_⟩
      · rw [← hstart]
        simp only [Text.byteLength_append, Nat.add_assoc]
      · rw [← hstop]
        simp only [Text.byteLength_append, Nat.add_assoc]

/-- Every token has its text at its place. The end of input has none, and stands at the end. -/
theorem stands (h : Laid file n cs tokens) (hsize : n + byteLength cs < UInt32.size) {t : Token}
    (ht : t ∈ tokens) : ∃ before after, cs = before ++ t.lexeme.toList ++ after ∧
      n + byteLength before = t.span.start.offset.toNat ∧
      n + byteLength (before ++ t.lexeme.toList) = t.span.stop.offset.toNat ∧
      ((t.kind = .eof ∧ t.lexeme = "" ∧ after = []) ∨ Agree t.kind t.lexeme t.literal) := by
  obtain ⟨proper, heq, hagree⟩ := h.ends
  rcases List.mem_append.mp (heq ▸ ht) with hproper | hlast
  · have hcoherent := hagree t hproper
    obtain ⟨-, before, after, hcs, hstart, hstop⟩ := h.lexeme_at hsize ht hcoherent.ne_eof
    exact ⟨before, after, hcs, hstart, hstop, Or.inr hcoherent⟩
  · obtain rfl := List.mem_singleton.mp hlast
    -- the end of input stands behind all of the text
    have hoffset : n + byteLength cs = (Position.at file (n + byteLength cs)).offset.toNat :=
      (Position.offset_at hsize).symm
    refine ⟨cs, [], (by simp [Token.endOfInput]), hoffset, ?_, Or.inl ⟨rfl, rfl, rfl⟩⟩
    show n + byteLength (cs ++ []) = _
    rw [List.append_nil]
    exact hoffset

/-- One token ends before the other starts. -/
def Before (t u : Token) : Prop :=
  t.span.start.offset < t.span.stop.offset ∧ t.span.stop.offset ≤ u.span.start.offset

/-- The tokens lie one after the other, and none of them before byte `n`. -/
theorem ordered (h : Laid file n cs tokens) (hsize : n + byteLength cs < UInt32.size) :
    tokens.Pairwise Before ∧ ∀ t ∈ tokens, n ≤ t.span.start.offset.toNat := by
  -- The induction is on the layout: what follows a token begins where its lexeme ends.
  induction h with
  | @last n gap hgap =>
    refine ⟨List.pairwise_singleton _ _, fun t ht => ?_⟩
    rw [List.mem_singleton.mp ht]
    show n ≤ (Position.at file (n + byteLength gap)).offset.toNat
    rw [Position.offset_at hsize]
    omega
  | @token n gap lexeme rest t tokens hgap hlexeme hne hagree hspan hrest ih =>
    rw [Text.byteLength_append, Text.byteLength_append] at hsize
    obtain ⟨hpairs, hlow⟩ := ih (by omega)
    have hstart : t.span.start.offset.toNat = n + byteLength gap := by
      rw [hspan]
      exact Position.offset_at (by omega)
    have hstop : t.span.stop.offset.toNat = n + byteLength gap + byteLength lexeme := by
      rw [hspan]
      exact Position.offset_at (by omega)
    -- no character is empty, so neither is the span
    have hpos : 0 < byteLength lexeme := Text.byteLength_pos hne
    refine ⟨List.pairwise_cons.mpr ⟨fun u hu => ⟨?_, ?_⟩, hpairs⟩, ?_⟩
    · rw [UInt32.lt_iff_toNat_lt]
      omega
    · have := hlow u hu
      rw [UInt32.le_iff_toNat_le]
      omega
    · rw [List.forall_mem_cons]
      refine ⟨by omega, fun u hu => ?_⟩
      have := hlow u hu
      omega

/-- All places are in the file that the text is laid out in. -/
theorem file_eq (h : Laid file n cs tokens) :
    ∀ t ∈ tokens, t.span.start.file = file ∧ t.span.stop.file = file := by
  induction h with
  | last hgap =>
    intro t ht
    rw [List.mem_singleton.mp ht]
    exact ⟨rfl, rfl⟩
  | token hgap hlexeme hne hagree hspan hrest ih =>
    rw [List.forall_mem_cons]
    refine ⟨?_, ih⟩
    rw [hspan]
    exact ⟨rfl, rfl⟩

end Laid

/-! ## Whole sources -/

/-- The tokens of a source are laid out in its text, from byte 0 on. -/
theorem laid_of_tokenize {text : String} {file? : Option String} {tokens : Array Token}
    {s : Scanner} (h : tokenize text file? = .ok tokens s) :
    Laid (file?.getD "shell") 0 text.toList tokens.toList := by
  obtain ⟨s₀, hsteps, -, rfl⟩ := Scanner.tokenize_eq_ok_iff.mp h
  obtain ⟨found, hfound, hlaid⟩ := hsteps.laid rfl
  rw [Scanner.toList_finish, hfound]
  exact hlaid

/-- The tokens of a source end with the end of input. -/
theorem ended_of_tokenize {text : String} {file? : Option String} {tokens : Array Token}
    {s : Scanner} (h : tokenize text file? = .ok tokens s) :
    tokens.back?.map Token.kind = some .eof := by
  obtain ⟨proper, heq, -⟩ := (laid_of_tokenize h).ends
  rw [← Array.getLast?_toList, heq, List.getLast?_concat]
  rfl

/-- Every token of a source has its text at its place, and the end of input is at the end. -/
theorem stands_of_tokenize {text : String} {file? : Option String} {tokens : Array Token}
    {s : Scanner} (hsize : text.utf8ByteSize < UInt32.size)
    (h : tokenize text file? = .ok tokens s) {t : Token} (ht : t ∈ tokens) :
    ∃ before after, text.toList = before ++ t.lexeme.toList ++ after ∧
      byteLength before = t.span.start.offset.toNat ∧
      byteLength (before ++ t.lexeme.toList) = t.span.stop.offset.toNat ∧
      ((t.kind = .eof ∧ t.lexeme = "" ∧ after = []) ∨ Agree t.kind t.lexeme t.literal) := by
  rw [← Text.byteLength_toList, ← Nat.zero_add (byteLength _)] at hsize
  have hstands := (laid_of_tokenize h).stands hsize (Array.mem_def.mp ht)
  simpa only [Nat.zero_add] using hstands

/-- What the tokens of a source say about it. The last one is the end of input. -/
structure Covers (text file : String) (proper : List Token) (last : Token) : Prop where
  /-- Gaps and lexemes are the text, with the tokens at their bytes. -/
  layout : Laid file 0 text.toList (proper ++ [last])
  /-- The last token has neither text nor value, and stands at the end of the text. -/
  last_kind : last.kind = .eof ∧ last.lexeme = "" ∧ last.literal = none
  last_start : last.span.start.offset.toNat = text.utf8ByteSize
  last_stop : last.span.stop.offset.toNat = text.utf8ByteSize
  kind_ne : ∀ t ∈ proper, t.kind ≠ .eof
  /-- The text from the start of a token to its end is its lexeme. -/
  lexeme_at : ∀ t ∈ proper, t.lexeme ≠ "" ∧ ∃ before after,
    text.toList = before ++ t.lexeme.toList ++ after ∧
      byteLength before = t.span.start.offset.toNat ∧
      byteLength (before ++ t.lexeme.toList) = t.span.stop.offset.toNat
  ordered : (proper ++ [last]).Pairwise Laid.Before
  file_eq : ∀ t ∈ proper ++ [last], t.span.start.file = file ∧ t.span.stop.file = file
  coherent : ∀ t ∈ proper, t.Coherent

/-- Scanning loses nothing, and every token is in its place. -/
theorem tokenize_covers {text : String} {file? : Option String} {tokens : Array Token}
    {s : Scanner} (hsize : text.utf8ByteSize < UInt32.size)
    (h : tokenize text file? = .ok tokens s) :
    ∃ proper last, tokens.toList = proper ++ [last] ∧
      Covers text (file?.getD "shell") proper last := by
  obtain ⟨s₀, hsteps, -, rfl⟩ := Scanner.tokenize_eq_ok_iff.mp h
  -- the scanner starts at byte 0 of the text and stops where nothing is left
  obtain ⟨found, hfound, hlaid⟩ := hsteps.laid rfl
  change Laid (file?.getD "shell") 0 text.toList _ at hlaid
  obtain ⟨proper, heq, hagree⟩ := hlaid.ends
  have hend : 0 + byteLength text.toList = text.utf8ByteSize := by
    rw [Nat.zero_add, Text.byteLength_toList]
  have htokens : s₀.finish.tokens.toList = found ++ [Token.endOfInput s₀.position] := by
    show (s₀.tokens.push _).toList = _
    rw [Array.toList_push, hfound]
    rfl
  rw [heq, hend] at hlaid htokens
  refine ⟨proper, _, htokens, ?_⟩
  -- each clause is read off the layout, with offsets that do not wrap around
  exact {
    layout := hlaid
    last_kind := ⟨rfl, rfl, rfl⟩
    last_start := Position.offset_at hsize
    last_stop := Position.offset_at hsize
    kind_ne := fun t ht => (hagree t ht).ne_eof
    lexeme_at := by
      intro t ht
      obtain ⟨hne, before, after, htext, hstart, hstop⟩ :=
        hlaid.lexeme_at (hend ▸ hsize) (List.mem_append_left _ ht) (hagree t ht).ne_eof
      rw [Nat.zero_add] at hstart hstop
      exact ⟨fun hempty => hne (by rw [hempty]; rfl), before, after, htext, hstart, hstop⟩
    ordered := (hlaid.ordered (hend ▸ hsize)).1
    file_eq := hlaid.file_eq
    coherent := fun t ht => (hagree t ht).coherent }

/--
A source with a token of every class: a string, an operator, a reserved word, an identifier and a
number. There are characters of two bytes in the string, and in the comment behind it.
-/
def accented : String := "\"é\" //é\n<= true x1 1.50"

def accentedTokens : Array Token := #[
  ⟨.string, "\"é\"", some (.string "é"), ⟨.at "shell" 0, .at "shell" 4⟩⟩,
  ⟨.lessEquals, "<=", none, ⟨.at "shell" 10, .at "shell" 12⟩⟩,
  ⟨.kwTrue, "true", some (.boolean true), ⟨.at "shell" 13, .at "shell" 17⟩⟩,
  ⟨.identifier, "x1", none, ⟨.at "shell" 18, .at "shell" 20⟩⟩,
  ⟨.number, "1.50", some (.number (.ofDecimal ⟨150, -2⟩)), ⟨.at "shell" 21, .at "shell" 25⟩⟩,
  ⟨.eof, "", none, ⟨.at "shell" 25, .at "shell" 25⟩⟩]

theorem tokenize_accented : ∃ s, tokenize accented none = .ok accentedTokens s :=
  Scanner.value?_eq_some_iff.mp (by decide +kernel)

/--
The tokens cover the source, and each of them has the kind and the value that its text calls for.
-/
theorem accentedTokens_cover : accented.utf8ByteSize < UInt32.size ∧
    ∃ s proper last, tokenize accented none = .ok accentedTokens s ∧
      accentedTokens.toList = proper ++ [last] ∧ Covers accented "shell" proper last ∧
      (∃ t ∈ proper, t.lexeme = "true" ∧
        t.kind = (Kind.ofReserved? "true").getD .identifier ∧ t.literal = t.kind.constant?) ∧
      ∃ t ∈ proper, t.lexeme = "1.50" ∧
        ∃ value, Number.read? "1.50" = some value ∧ t.literal = some (.number value) := by
  have hsize : accented.utf8ByteSize < UInt32.size := by decide +kernel
  obtain ⟨s, hscan⟩ := tokenize_accented
  obtain ⟨proper, last, hsplit, hcovers⟩ := tokenize_covers hsize hscan
  -- all tokens but the end of input are proper ones, those in question among them
  have hproper : proper = accentedTokens.toList.dropLast := by
    rw [hsplit, List.dropLast_concat]
  have hword : accentedTokens[2] ∈ proper := by
    rw [hproper]
    exact List.mem_of_getElem? (show accentedTokens.toList.dropLast[2]? = _ from rfl)
  have hnumber : accentedTokens[4] ∈ proper := by
    rw [hproper]
    exact List.mem_of_getElem? (show accentedTokens.toList.dropLast[4]? = _ from rfl)
  -- a word with the text of a reserved word has the kind and the value of that
  have hshape : Pattern.Lexeme .word accentedTokens[2].lexeme.toList :=
    .word (by decide +kernel) (List.all_eq_true.mp (by decide +kernel))
  obtain ⟨hkind, hliteral⟩ := (hcovers.coherent _ hword).word hshape
  obtain ⟨-, hvalue⟩ := (hcovers.coherent _ hnumber).number rfl
  exact ⟨hsize, s, proper, last, hscan, hsplit, hcovers, ⟨_, hword, rfl, hkind, hliteral⟩,
    _, hnumber, rfl, hvalue⟩

end LoxExpr
