import LoxExpr.Proofs.Lexing.Failure
import LoxExpr.Proofs.Lexing.Spacing

/-!
# Sources joined by a line feed

No lexeme reaches from one line of a source into the next, but strings, and white space. So a source
that scans can be followed by a line feed and another source: the scanner steps over the first one
as before (`Steps.scan_lineBreak`), and then over the second one as from its start, with all places
shifted (`Later.scan`). The white space around the line feed is taken at once, and leaves no trace.
-/

namespace LoxExpr

open Pattern

namespace Scanner

variable {s s' : Scanner}

/-- Behind a text that the steps use up, a line feed is stepped over. -/
theorem Steps.scan_lineBreak {a left : List Char} (h : Steps s a s' left) (hleft : left = [])
    (b : List Char) : s.scan (a ++ '\n' :: b) = (s'.skipped ['\n']).scan b := by
  have hfeed : ∀ c ∈ ['\n'], Text.isBlank c = true := by
    rw [List.forall_mem_singleton]
    decide
  -- The induction is on the steps through the first text. Each of them would be made with the line
  -- feed behind the text, too, unless that goes on with what the step takes.
  induction h with
  | done s left =>
    subst hleft
    exact scan_blanks s b hfeed
  | @more s s₁ s' left left₁ left' hstep hsteps ih =>
    obtain ⟨p, lexeme, rfl, hp, hlongest, hagain⟩ := exists_longest_of_step hstep
    by_cases hwhite : p = .blank ∧ left₁ = []
    · -- white space at the end of the first text and the line feed are one lexeme
      obtain ⟨rfl, rfl⟩ := hwhite
      obtain rfl : s' = s₁ := by
        cases hsteps with
        | done => rfl
        | more hstep' hsteps' => exact absurd rfl (ne_nil_of_step hstep')
      have hskip : s.step (lexeme ++ []) = .ok [] (s.skipped lexeme) :=
        step_eq_ok_iff.mpr ⟨.blank, lexeme, first?_eq_some_iff.mpr ⟨rfl, hlongest⟩,
          Or.inl ⟨rfl, rfl⟩⟩
      cases hstep.symm.trans hskip
      have hblank : ∀ c ∈ lexeme, Text.isBlank c = true := by
        have hlexeme := hlongest.isLexeme
        cases hlexeme with
        | blank hne hblank => exact hblank
      rw [List.append_nil, scan_blanks s _ hblank]
      exact scan_blanks _ b hfeed
    · rw [List.append_assoc, scan_of_step_ok (hagain _ (hlongest.lineBreak hp hwhite))]
      exact ih hleft

/-- Behind the line feed the scanner is as at the start of a source, only later. -/
theorem later_lineBreak {a b : String} {file? : Option String}
    (h : Steps (ofText a file?) a.toList s []) :
    Later (a.utf8ByteSize + 1) s.tokens.toList (ofText b file?) (s.skipped ['\n']) := by
  obtain ⟨-, hfile, hoffset⟩ := h.frame
  refine ⟨hfile, ?_, (List.append_nil _).symm⟩
  rw [Text.byteLength_toList] at hoffset
  change s.offset + 0 = 0 + a.utf8ByteSize at hoffset
  show s.offset + 1 = 0 + (a.utf8ByteSize + 1)
  omega

end Scanner

open Scanner

/-! ## Two sources -/

/-- No token of a source reaches past the end. -/
theorem le_size_of_tokenize {text : String} {file? : Option String} {tokens : Array Token}
    {s : Scanner} (hsize : text.utf8ByteSize < UInt32.size)
    (h : tokenize text file? = .ok tokens s) {t : Token} (ht : t ∈ tokens) :
    t.span.start.offset.toNat ≤ text.utf8ByteSize ∧
      t.span.stop.offset.toNat ≤ text.utf8ByteSize := by
  obtain ⟨before, after, htext, hstart, hstop, -⟩ := stands_of_tokenize hsize h ht
  rw [← Text.byteLength_toList, htext, ← hstart, ← hstop]
  simp only [Text.byteLength_append]
  omega

section TwoSources

variable {a b : String} {file? : Option String}

/-- Behind a source that scans, the scanner of its own finds what one of the second source finds. -/
theorem alike_lineBreak {s : Scanner} (h : Steps (ofText a file?) a.toList s []) :
    Alike (a.utf8ByteSize + 1) s.tokens.toList ((ofText b file?).scan b.toList)
      ((ofText a file?).scan (a ++ "\n" ++ b).toList) := by
  have htext : (a ++ "\n" ++ b).toList = a.toList ++ '\n' :: b.toList := by simp
  rw [htext, h.scan_lineBreak rfl]
  exact (later_lineBreak h).scan b.toList

/--
The tokens of both sources, in a row and with the second ones shifted, are those of the whole.
-/
theorem tokenize_lineBreak_eq_ok {tokens tokens' : Array Token} {found : List Token}
    {position : Position} {s s' : Scanner} (h : tokenize a file? = .ok tokens s)
    (hfound : tokens.toList = found ++ [Token.endOfInput position])
    (h' : tokenize b file? = .ok tokens' s') :
    ∃ joined s'', tokenize (a ++ "\n" ++ b) file? = .ok joined s'' ∧
      joined.toList = found ++ tokens'.toList.map (Token.shift (a.utf8ByteSize + 1)) := by
  obtain ⟨s₀, hsteps, -, rfl⟩ := tokenize_eq_ok_iff.mp h
  obtain ⟨s₁, hsteps', -, rfl⟩ := tokenize_eq_ok_iff.mp h'
  rw [toList_finish] at hfound
  obtain ⟨rfl, -⟩ := List.append_inj' hfound rfl
  -- behind the line feed, the whole is scanned as the second source is, only later
  have halike := alike_lineBreak (b := b) hsteps
  rw [scan_eq_ok_iff.mpr hsteps'] at halike
  obtain ⟨s₂, hscan, hlater⟩ := halike.exists_ok
  obtain ⟨joined, s'', hjoined, heq⟩ := exists_tokenize_eq_ok hscan
  exact ⟨joined, s'', hjoined, heq.trans hlater.toList_finish⟩

/-- What the second source fails with, the whole fails with, shifted as far. -/
theorem tokenize_lineBreak_eq_error {tokens : Array Token} {fault : Fault} {s s' : Scanner}
    (h : tokenize a file? = .ok tokens s) (h' : tokenize b file? = .error fault s') :
    ∃ s'', tokenize (a ++ "\n" ++ b) file? = .error (fault.shift (a.utf8ByteSize + 1)) s'' := by
  obtain ⟨s₀, hsteps, -, rfl⟩ := tokenize_eq_ok_iff.mp h
  have halike := alike_lineBreak (b := b) hsteps
  rw [tokenize_eq_error_iff_scan.mp h'] at halike
  obtain ⟨s₂, hscan, -⟩ := halike.exists_error
  exact exists_tokenize_eq_error hscan

end TwoSources

/--
**Line breaks are seams.** Behind a source that scans, a line feed and a second source add what the
second one has for itself, with all places so many bytes further on: its tokens if it scans, and its
fault if it does not. A foreign character in the first source stays what it was.
-/
theorem tokenize_lineBreak {a b : String}
    (hsize : a.utf8ByteSize + 1 + b.utf8ByteSize < UInt32.size) (file? : Option String) :
    (∀ tokens s, tokenize a file? = .ok tokens s → ∃ found,
      tokens.toList = found ++ [Token.endOfInput (.at (file?.getD "shell") a.utf8ByteSize)] ∧
      (∀ tokens' s', tokenize b file? = .ok tokens' s' →
        (∃ joined s'', tokenize (a ++ "\n" ++ b) file? = .ok joined s'' ∧
          joined.toList = found ++ tokens'.toList.map (Token.shift (a.utf8ByteSize + 1))) ∧
        ∀ t ∈ tokens'.toList, ∀ place ∈ [t.span.start, t.span.stop],
          (place.shift (a.utf8ByteSize + 1)).offset.toNat =
            place.offset.toNat + (a.utf8ByteSize + 1)) ∧
      ∀ fault s', tokenize b file? = .error fault s' →
        (∃ s'', tokenize (a ++ "\n" ++ b) file? =
          .error (fault.shift (a.utf8ByteSize + 1)) s'') ∧
        (fault.position.shift (a.utf8ByteSize + 1)).offset.toNat =
          fault.position.offset.toNat + (a.utf8ByteSize + 1)) ∧
    ∀ found position s, tokenize a file? = .error ⟨.unrecognised found, position⟩ s →
      ∃ s', tokenize (a ++ "\n" ++ b) file? = .error ⟨.unrecognised found, position⟩ s' := by
  have hsize' : b.utf8ByteSize < UInt32.size := by omega
  have hshift {place : Position} (hle : place.offset.toNat ≤ b.utf8ByteSize) :
      (place.shift (a.utf8ByteSize + 1)).offset.toNat =
        place.offset.toNat + (a.utf8ByteSize + 1) := Position.toNat_shift (by omega)
  refine ⟨fun tokens s h => ?_, fun found position s h => ?_⟩
  · obtain ⟨found, hfound, -⟩ := (laid_of_tokenize h).ends
    rw [Nat.zero_add, Text.byteLength_toList] at hfound
    -- all places of the second source are within it, so shifting them does not wrap around
    refine ⟨found, hfound, fun tokens' s' h' => ⟨tokenize_lineBreak_eq_ok h hfound h', ?_⟩,
      fun fault s' h' => ⟨tokenize_lineBreak_eq_error h h', ?_⟩⟩
    · intro t ht place hplace
      obtain ⟨hstart, hstop⟩ := le_size_of_tokenize hsize' h' (Array.mem_def.mpr ht)
      simp only [List.mem_cons, List.not_mem_nil, or_false] at hplace
      rcases hplace with rfl | rfl
      · exact hshift hstart
      · exact hshift hstop
    · obtain ⟨before, left, htext, -, -, hposition⟩ := stuck_of_tokenize_eq_error h'
      apply hshift
      rw [hposition, offset_at_of_append hsize' htext, ← Text.byteLength_toList, htext,
        Text.byteLength_append]
      omega
  · -- a foreign character is one whatever comes behind it
    obtain ⟨before, c, after, htext, -, -, hall⟩ := tokenize_graft h
    exact hall _ ⟨after ++ '\n' :: b.toList, by simp [htext]⟩

/-- A line that ends with a bang, behind a character of two bytes. -/
def banged : String := "\"é\" !"

def bangedTokens : Array Token := #[
  ⟨.string, "\"é\"", some (.string "é"), ⟨.at "shell" 0, .at "shell" 4⟩⟩,
  ⟨.not, "!", none, ⟨.at "shell" 5, .at "shell" 6⟩⟩,
  Token.endOfInput (.at "shell" 6)]

/-- A line that begins with an equals sign. -/
def equated : String := "= //!"

def equatedTokens : Array Token := #[
  ⟨.assignment, "=", none, ⟨.at "shell" 0, .at "shell" 1⟩⟩,
  Token.endOfInput (.at "shell" 5)]

theorem tokenize_banged : ∃ s, tokenize banged none = .ok bangedTokens s :=
  value?_eq_some_iff.mp (by decide +kernel)

theorem tokenize_equated : ∃ s, tokenize equated none = .ok equatedTokens s :=
  value?_eq_some_iff.mp (by decide +kernel)

/-- The bang and the equals sign stay two tokens. -/
theorem tokenize_bang_lineBreak_equals :
    banged.utf8ByteSize + 1 + equated.utf8ByteSize < UInt32.size ∧
      ∃ joined s, tokenize (banged ++ "\n" ++ equated) none = .ok joined s ∧ joined.toList = [
        ⟨.string, "\"é\"", some (.string "é"), ⟨.at "shell" 0, .at "shell" 4⟩⟩,
        ⟨.not, "!", none, ⟨.at "shell" 5, .at "shell" 6⟩⟩,
        ⟨.assignment, "=", none, ⟨.at "shell" 7, .at "shell" 8⟩⟩,
        Token.endOfInput (.at "shell" 12)] := by
  have hsize : banged.utf8ByteSize + 1 + equated.utf8ByteSize < UInt32.size := by decide +kernel
  obtain ⟨s, hbanged⟩ := tokenize_banged
  obtain ⟨s', hequated⟩ := tokenize_equated
  obtain ⟨found, hfound, hok, -⟩ := (tokenize_lineBreak hsize none).1 _ s hbanged
  obtain ⟨⟨joined, s'', hjoined, heq⟩, -⟩ := hok _ s' hequated
  have hlines : bangedTokens.toList.dropLast = found := by
    rw [hfound, List.dropLast_concat]
  refine ⟨hsize, joined, s'', hjoined, ?_⟩
  rw [heq, ← hlines]
  decide +kernel

end LoxExpr
