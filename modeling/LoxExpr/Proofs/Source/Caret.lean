import LoxExpr.Proofs.Source.Diagnosis

/-!
# The column of the caret

A diagnostic shows the line of its fault without the spaces in front of it, and below that a run of
dashes and a caret (`Fault.Shows`). There are as many dashes as bytes in the text shown up to the
place of the fault. A fault never points into the spaces that are left out, so the caret is in the
column of the character that it points at exactly if every character shown in front of that takes
one byte (`parseSource_caret`); behind a longer one it is too far to the right.
-/

namespace LoxExpr

open Text (byteLength)

/-! ## What is shown -/

namespace Fault

/-- The text from the place on, if that is not in the spaces that are left out. -/
theorem Shows.exists_split {fault : Fault} {text : String} {number : Nat}
    {above indent shown below before left : List Char}
    (h : fault.Shows text number above indent shown below) (htext : text.toList = before ++ left)
    (hbefore : byteLength before = fault.position.offset.toNat) (hleft : left.head? ≠ some ' ') :
    ∃ reached, reached <+: shown ∧
      byteLength (above ++ indent ++ reached) = fault.position.offset.toNat := by
  have hge := h.offset_ge
  have hle := h.offset_le
  rw [← hbefore] at hge hle ⊢
  have hcut : above ++ (indent ++ shown ++ below) = before ++ left := by
    rw [← htext, h.text_eq]
    simp only [List.append_assoc]
  obtain ⟨middle, rfl, hmiddle⟩ := Text.exists_append_of_byteLength_le hcut hge
  rw [List.append_assoc] at hmiddle
  have hin : byteLength indent ≤ byteLength middle := by
    rcases List.append_eq_append_iff.mp hmiddle with ⟨reached, rfl, -⟩ | ⟨spaces, hindent, hspaces⟩
    · rw [Text.byteLength_append]
      omega
    · -- a place among the spaces would have a space right behind it
      cases spaces with
      | nil =>
        rw [hindent, List.append_nil]
      | cons c spaces =>
        have hc : c = ' ' := h.indent_eq c (by rw [hindent]; simp)
        rw [hspaces, hc] at hleft
        exact absurd rfl hleft
  -- the place lies in the line that is shown, so what is in front of it there is a part of that
  obtain ⟨reached, rfl, hreached⟩ := Text.exists_append_of_byteLength_le hmiddle hin
  have hshown : byteLength reached ≤ byteLength shown := by
    simp only [Text.byteLength_append] at hle
    omega
  obtain ⟨rest, hrest, -⟩ := Text.exists_append_of_byteLength_le hreached.symm hshown
  exact ⟨reached, ⟨rest, hrest.symm⟩, by rw [List.append_assoc]⟩

/-- Carets that are drawn in one way stand in one column. -/
theorem caretLine_inj {number m n : Nat} : caretLine number m = caretLine number n ↔ m = n := by
  constructor
  · intro h
    have hlength := congrArg String.length h
    simp only [caretLine, String.length_append, String.length_ofList, List.length_replicate]
      at hlength
    omega
  · rintro rfl
    rfl

/-- The dashes are the bytes up to the place, and this is the right number if all are characters. -/
theorem Shows.caret_iff {fault : Fault} {text : String} {number : Nat}
    {above indent shown below reached : List Char}
    (h : fault.Shows text number above indent shown below)
    (hreached : byteLength (above ++ indent ++ reached) = fault.position.offset.toNat) :
    (fault.report text).getLast? = some (caretLine number (byteLength reached)) ∧
      ((fault.report text).getLast? = some (caretLine number reached.length) ↔
        ∀ c ∈ reached, c.utf8Size = 1) := by
  -- the bytes behind the gutter are those of the text between the indentation and the error
  have hdashes :
      fault.position.offset.toNat - byteLength (above ++ indent) = byteLength reached := by
    rw [← hreached, Text.byteLength_append]
    omega
  have hlast : (fault.report text).getLast? = some (caretLine number (byteLength reached)) := by
    rw [h.report_eq, hdashes]
    rfl
  refine ⟨hlast, ?_⟩
  -- two caret lines of one gutter agree when their dashes do, so bytes must count as characters
  rw [hlast, Option.some.injEq, caretLine_inj, Text.byteLength_eq_length_iff]

end Fault

/-! ## Where faults are placed -/

section Places

variable {text : String} {file? : Option String} {fault : Fault}

/-- The scanner fails at a character that is no space. -/
theorem exists_split_of_tokenize {s : Scanner} (hsize : text.utf8ByteSize < UInt32.size)
    (h : tokenize text file? = .error fault s) :
    ∃ before left, text.toList = before ++ left ∧
      byteLength before = fault.position.offset.toNat ∧ left.head? ≠ some ' ' := by
  obtain ⟨before, left, htext, -, hstuck, hposition⟩ := stuck_of_tokenize_eq_error h
  refine ⟨before, left, htext, ?_, ?_⟩
  · rw [hposition, offset_at_of_append hsize htext]
  · -- what the scanner is stuck at starts with a quote or with a foreign character, never a blank
    generalize fault.cause = cause at hstuck
    cases hstuck with
    | openString hquote => simp
    | foreign hforeign =>
      rintro hspace
      cases hspace
      exact absurd hforeign.not_blank (by decide)

/-- A token starts with a character that is no space, or is the end of input. -/
theorem exists_split_of_mem {tokens : Array Token} {s : Scanner} {t : Token}
    (hsize : text.utf8ByteSize < UInt32.size) (h : tokenize text file? = .ok tokens s)
    (ht : t ∈ tokens) :
    ∃ before left, text.toList = before ++ left ∧
      byteLength before = t.start.offset.toNat ∧ left.head? ≠ some ' ' := by
  obtain ⟨before, after, htext, hstart, -, hends⟩ := stands_of_tokenize hsize h ht
  refine ⟨before, t.lexeme.toList ++ after, by rw [htext, List.append_assoc], hstart, ?_⟩
  -- the final token stands at the end of the text, every other one starts with its lexeme
  rcases hends with ⟨-, hlexeme, rfl⟩ | hagree
  · rw [hlexeme]
    simp
  · obtain ⟨c, tail, hcons, hblank⟩ := hagree.head
    rw [hcons]
    rintro hspace
    cases hspace
    exact absurd hblank (by decide)

/-- A fault of a source is placed between two characters, and not in front of a space. -/
theorem exists_split_of_parseSource {limit : Nat} (hsize : text.utf8ByteSize < UInt32.size)
    (h : parseSource text file? limit = .error fault) :
    ∃ before left, text.toList = before ++ left ∧
      byteLength before = fault.position.offset.toNat ∧ left.head? ≠ some ' ' := by
  -- a fault of the scanner is where it is stuck, one of the parser at the token that it blames
  rcases parseSource_eq_error_iff.mp h with ⟨s, hscan⟩ | ⟨tokens, s, q, hscan, hparse⟩
  · exact exists_split_of_tokenize hsize hscan
  · obtain ⟨t, ht, hblames⟩ := parse_blames hparse
    rw [tokens_ofTokens_of_tokenize hscan] at ht
    have hposition : fault.position = t.start := by cases hblames <;> rfl
    rw [hposition]
    exact exists_split_of_mem hsize hscan ht

/-- Offsets have 32 bits, so in a longer source they all lie within it. -/
theorem offset_le_of_parseSource {limit : Nat} (h : parseSource text file? limit = .error fault) :
    fault.position.offset.toNat ≤ text.utf8ByteSize := by
  rcases Nat.lt_or_ge text.utf8ByteSize UInt32.size with hsize | hsize
  · obtain ⟨before, left, htext, hbefore, -⟩ := exists_split_of_parseSource hsize h
    rw [← hbefore, ← Text.byteLength_toList, htext, Text.byteLength_append]
    omega
  · have hlt := fault.position.offset.toNat_lt_size
    omega

end Places

/--
**Where the caret stands.** The diagnostic of every source that does not parse shows the line of the
fault. The fault points into the text that is shown or at its end, if the source is not too long for
offsets. Wherever it does, there is a dash for every byte shown in front, so the caret is in the
column of its character exactly if all characters in front take one byte.
-/
theorem parseSource_caret {text : String} {file? : Option String} {limit : Nat} {fault : Fault}
    (h : parseSource text file? limit = .error fault) :
    ∃ number above indent shown below, fault.Shows text number above indent shown below ∧
      (text.utf8ByteSize < UInt32.size → ∃ reached, reached <+: shown ∧
        byteLength (above ++ indent ++ reached) = fault.position.offset.toNat) ∧
      ∀ reached, reached <+: shown →
        byteLength (above ++ indent ++ reached) = fault.position.offset.toNat →
        (fault.report text).getLast? = some (Fault.caretLine number (byteLength reached)) ∧
          ((fault.report text).getLast? = some (Fault.caretLine number reached.length) ↔
            ∀ c ∈ reached, c.utf8Size = 1) := by
  obtain ⟨number, above, indent, shown, below, hshows⟩ :=
    Fault.exists_shows (offset_le_of_parseSource h)
  refine ⟨number, above, indent, shown, below, hshows, fun hsize => ?_,
    fun reached _ hreached => hshows.caret_iff hreached⟩
  -- an error stands at no blank, so the indentation that is cut off ends before it
  obtain ⟨before, left, htext, hbefore, hleft⟩ := exists_split_of_parseSource hsize h
  exact hshows.exists_split htext hbefore hleft

/-- A second line with two spaces in front, a character of two bytes, and a parenthesis too many. -/
def indented : String := "1 +\n  \"é\" ("

/-- The parenthesis stands seven bytes into its line, and behind six characters. -/
def misplacedParen : Fault := ⟨.unexpected "(", .at "shell" 11⟩

theorem parseSource_indented : parseSource indented none 128 = .error misplacedParen :=
  Fault.ofResult?_eq_some_iff.mp (by decide +kernel)

/-- Of that line, the part behind the spaces is shown. -/
theorem shows_indented : misplacedParen.Shows indented 2 ['1', ' ', '+', '\n'] [' ', ' ']
    ['"', 'é', '"', ' ', '('] [] where
  text_eq := by decide +kernel
  starts := Or.inr ⟨['1', ' ', '+'], rfl⟩
  isLine := .last (by decide)
  number_eq := rfl
  indent_eq := by simp
  head_ne := by decide
  offset_ge := by decide
  offset_le := by decide
  report_eq := by decide +kernel

/--
The caret is not always below the character that the fault points at: here it is one column off.
-/
theorem caret_behind_accent :
    ¬ ∀ (text : String) (file? : Option String) (limit : Nat) (fault : Fault),
      parseSource text file? limit = .error fault →
      ∀ number above indent shown below, fault.Shows text number above indent shown below →
      ∀ reached, reached <+: shown →
        byteLength (above ++ indent ++ reached) = fault.position.offset.toNat →
        (fault.report text).getLast? = some (Fault.caretLine number reached.length) := by
  intro hall
  have hoffset : byteLength (['1', ' ', '+', '\n'] ++ [' ', ' '] ++ ['"', 'é', '"', ' ']) =
      misplacedParen.position.offset.toNat := by decide
  have hcaret := hall indented none 128 _ parseSource_indented _ _ _ _ _ shows_indented
    ['"', 'é', '"', ' '] ⟨['('], rfl⟩ hoffset
  -- the caret would be right only if each character before it took one byte; the accent takes two
  have hbytes := ((shows_indented.caret_iff hoffset).2.mp hcaret) 'é' (by decide)
  exact absurd hbytes (by decide)

/-- The dashes below the second line are the bytes of what stands in front of the parenthesis. -/
theorem parseSource_caret_indented :
    parseSource indented none 128 = .error misplacedParen ∧ indented.utf8ByteSize < UInt32.size ∧
    ∃ number above indent shown below reached,
      misplacedParen.Shows indented number above indent shown below ∧ reached <+: shown ∧
      byteLength (above ++ indent ++ reached) = 11 ∧
      (misplacedParen.report indented).getLast? =
        some (Fault.caretLine number (byteLength reached)) := by
  have hsize : indented.utf8ByteSize < UInt32.size := by decide +kernel
  obtain ⟨number, above, indent, shown, below, hshows, hpoints, hcaret⟩ :=
    parseSource_caret parseSource_indented
  obtain ⟨reached, hprefix, hreached⟩ := hpoints hsize
  exact ⟨parseSource_indented, hsize, number, above, indent, shown, below, reached, hshows, hprefix,
    hreached, (hcaret reached hprefix hreached).1⟩

end LoxExpr
