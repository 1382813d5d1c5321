import LoxExpr.Proofs.Grammar.Blame
import LoxExpr.Proofs.Lexing.Failure
import LoxExpr.Proofs.Source.Result
import LoxExpr.Proofs.Source.Shown

/-!
# Faults and the text that they point at

A fault of a source points into the source, and the text from there on is what the fault says it is.
A scan fails where its text is stuck; a parse blames a token (`parse_blames`), and the text has the
token at its place (`Laid.stands`). So the diagnostic of a fault always shows the line that it is
about: `parseSource_points`.
-/

namespace LoxExpr

open Text (byteLength)

/--
The fault says the truth about its source, of which `left` is what follows the place of the fault. A
tree that is too deep has no text of its own; it is reported where a token starts.
-/
def Fault.Fits (fault : Fault) (text : String) (file? : Option String) (left : List Char) : Prop :=
  match fault.cause with
  | .unrecognised found => found ≠ "" ∧ found.toList <+: left
  | .unterminatedString => ∃ tail, left = '"' :: tail ∧ '"' ∉ tail
  | .badNumber _ => False
  | .expectedExpression _ found | .unexpected found =>
    (found ≠ "" ∧ found.toList <+: left) ∨ (left = [] ∧ found = "end of input")
  | .unclosedGrouping opening => opening = "(" ∧ ['('] <+: left
  | .tooDeep _ => ∃ tokens s, tokenize text file? = .ok tokens s ∧
      ∃ t ∈ tokens, fault.position = t.start

/-- The fault points at a character of the source, or at its end, and fits what it points at. -/
def Fault.Points (fault : Fault) (text : String) (file? : Option String) : Prop :=
  fault.position.file = file?.getD "shell" ∧
    ∃ before left, text.toList = before ++ left ∧
      byteLength before = fault.position.offset.toNat ∧ fault.Fits text file? left

section Places

variable {text : String} {file? : Option String} {fault : Fault}

/-- A fault of the scanner points at the text that it is stuck at. -/
theorem points_of_tokenize {s : Scanner} (hsize : text.utf8ByteSize < UInt32.size)
    (h : tokenize text file? = .error fault s) : fault.Points text file? := by
  obtain ⟨before, left, htext, -, hstuck, hposition⟩ := stuck_of_tokenize_eq_error h
  refine ⟨by rw [hposition]; rfl, before, left, htext, ?_, ?_⟩
  · rw [hposition, offset_at_of_append hsize htext]
  · unfold Fault.Fits
    generalize fault.cause = cause at hstuck
    cases hstuck with
    | openString hquote => exact ⟨_, rfl, hquote⟩
    | foreign _ => exact ⟨by simp, by simp⟩

/-- What a message calls a token is its text, and that stands where the token starts. -/
theorem describe_fits {t : Token} {after : List Char}
    (h : (t.kind = .eof ∧ t.lexeme = "" ∧ after = []) ∨ Agree t.kind t.lexeme t.literal) :
    (t.describe ≠ "" ∧ t.describe.toList <+: t.lexeme.toList ++ after) ∨
      (t.lexeme.toList ++ after = [] ∧ t.describe = "end of input") := by
  -- the final token is described in words of its own, every other one by its lexeme
  rcases h with ⟨hkind, hlexeme, rfl⟩ | hagree
  · exact Or.inr ⟨by rw [hlexeme]; rfl, by rw [Token.describe, if_pos hkind]⟩
  · obtain ⟨c, tail, hcons, -⟩ := hagree.head
    rw [Token.describe, if_neg hagree.ne_eof]
    refine Or.inl ⟨?_, List.prefix_append ..⟩
    rintro hempty
    rw [hempty] at hcons
    cases hcons

/-- A fault of the parser points at the token that it blames. -/
theorem points_of_blames {tokens : Array Token} {s : Scanner} {t : Token}
    (hsize : text.utf8ByteSize < UInt32.size) (h : tokenize text file? = .ok tokens s)
    (ht : t ∈ tokens) (hblames : Blames fault t) : fault.Points text file? := by
  obtain ⟨before, after, htext, hstart, -, hends⟩ := stands_of_tokenize hsize h ht
  have hposition : fault.position = t.start := by cases hblames <;> rfl
  refine ⟨?_, before, t.lexeme.toList ++ after, by rw [htext, List.append_assoc], ?_, ?_⟩
  · rw [hposition]
    exact ((laid_of_tokenize h).file_eq t (Array.mem_def.mp ht)).1
  · rw [hposition]
    exact hstart
  · -- each cause has its own text, and the token that is blamed stands at the place
    cases hblames with
    | unexpected => exact describe_fits hends
    | missing => exact describe_fits hends
    | unclosed hkind =>
      -- the text of an opening parenthesis is that of its kind
      have hlexeme : t.lexeme = "(" := by
        rcases hends with ⟨heof, -⟩ | hagree
        · cases hkind.symm.trans heof
        · exact hagree.lexeme_eq (hkind ▸ rfl)
      rw [hlexeme]
      exact ⟨rfl, List.prefix_append ['('] after⟩
    | tooDeep => exact ⟨tokens, s, h, t, ht, rfl⟩
    | badNumber hkind hliteral =>
      -- the number tokens of a source carry their value
      rcases hends with ⟨heof, -⟩ | hagree
      · cases hkind.symm.trans heof
      · obtain ⟨-, value, -, hvalue⟩ := hagree.coherent.number hkind
        cases hliteral.symm.trans hvalue

/-- The tokens of a source end with the end of input, so a parse adds none. -/
theorem tokens_ofTokens_of_tokenize {tokens : Array Token} {s : Scanner} {limit : Nat}
    (h : tokenize text file? = .ok tokens s) :
    (Parser.ofTokens tokens limit).tokens = tokens := by
  rw [Parser.tokens_ofTokens, if_pos (ended_of_tokenize h)]

end Places

/-- Whether the scan fails or the parse, the fault points at what it is about. -/
theorem points_of_parseSource {text : String} (hsize : text.utf8ByteSize < UInt32.size)
    {file? : Option String} {limit : Nat} {fault : Fault}
    (h : parseSource text file? limit = .error fault) : fault.Points text file? := by
  rcases parseSource_eq_error_iff.mp h with ⟨s, hscan⟩ | ⟨tokens, s, q, hscan, hparse⟩
  · exact points_of_tokenize hsize hscan
  · obtain ⟨t, ht, hblames⟩ := parse_blames hparse
    rw [tokens_ofTokens_of_tokenize hscan] at ht
    exact points_of_blames hsize hscan ht hblames

/--
A source that does not parse gets a fault that points into it, at the text that the fault is about.
The place has a line, and the diagnostic shows that line: in its five pieces, and written out.
-/
theorem parseSource_points {text : String} (hsize : text.utf8ByteSize < UInt32.size)
    {file? : Option String} {limit : Nat} {fault : Fault}
    (h : parseSource text file? limit = .error fault) :
    fault.Points text file? ∧ fault.position.offset.toNat ≤ text.utf8ByteSize ∧
      (∃ place, Text.place? text.toList fault.position.offset.toNat = some place ∧
        fault.report text =
          [fault.header, "-> " ++ fault.position.file] ++ Fault.excerpt place) ∧
      ∃ number above indent seen trailing below,
        fault.Draws text number above indent seen trailing below := by
  have hpoints := points_of_parseSource hsize h
  -- the text before the error is part of the text, so the offset lies within it
  have hle : fault.position.offset.toNat ≤ text.utf8ByteSize := by
    obtain ⟨-, before, left, htext, hbefore, -⟩ := hpoints
    rw [← Text.byteLength_toList, htext, Text.byteLength_append]
    omega
  exact ⟨hpoints, hle, Fault.report_eq_excerpt hle, Fault.exists_draws hle⟩

/--
A complete expression, with a character of two bytes, and a parenthesis that cannot follow it.
-/
def misplaced : String := "\"é\" ("

/-- The parenthesis stands five bytes into the source. -/
def misplacedFault : Fault := ⟨.unexpected "(", .at "shell" 5⟩

theorem parseSource_misplaced : parseSource misplaced none 128 = .error misplacedFault :=
  Fault.ofResult?_eq_some_iff.mp (by decide +kernel)

/-- The fault points at the parenthesis, and the caret stands behind five dashes. -/
theorem misplaced_points : misplaced.utf8ByteSize < UInt32.size ∧
    parseSource misplaced none 128 = .error misplacedFault ∧
    (∃ before left, misplaced.toList = before ++ left ∧ byteLength before = 5 ∧ ['('] <+: left) ∧
    (∃ place, Text.place? misplaced.toList 5 = some place ∧
      misplacedFault.report misplaced =
        [misplacedFault.header, "-> shell"] ++ Fault.excerpt place) ∧
    (∃ number above indent seen trailing below,
      misplacedFault.Draws misplaced number above indent seen trailing below) ∧
    misplacedFault.render misplaced =
      "Error: UnexpectedToken (Unexpected token: `(` after a complete expression)\n-> shell\n" ++
      "  |\n1 | \"é\" (\n  | -----^\n" := by
  have hsize : misplaced.utf8ByteSize < UInt32.size := by decide +kernel
  obtain ⟨⟨-, before, left, htext, hbefore, hfits⟩, -, hplace, hdraws⟩ :=
    parseSource_points hsize parseSource_misplaced
  refine ⟨hsize, parseSource_misplaced, ⟨before, left, htext, hbefore, ?_⟩, hplace, hdraws,
    by decide +kernel⟩
  -- the parenthesis is a token, so its own text stands at the error; the other case is the end
  rcases hfits with ⟨-, hpre⟩ | ⟨-, hend⟩
  · exact hpre
  · exact absurd hend (by decide)

end LoxExpr
