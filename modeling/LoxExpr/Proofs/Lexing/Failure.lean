import LoxExpr.Proofs.Lexing.Seam
import LoxExpr.Proofs.Lexing.Shift
import LoxExpr.Proofs.Number.Display

/-!
# Where a scan fails

There are two ways for a scan to fail, and they are told by the text that is left: it starts with a
quote and holds no second one, or with a character that is in no lexical class (`Stuck`). The steps
up to there would all have been made without the rest of the source, and if the fault is a foreign
character, also before any other text.
-/

namespace LoxExpr

open Pattern

/-! ## Texts that no lexeme begins -/

namespace Pattern

/-- No lexeme begins with a foreign character. -/
theorem Foreign.not_lexeme {p : Pattern} {c : Char} {l : List Char} (hforeign : Foreign c) :
    ¬ p.Lexeme (c :: l) := by
  intro hl
  rcases hforeign.of_mem_lexeme hl (List.mem_cons_self ..) with rfl | rfl
  · cases hl
    exact hforeign.not_quote rfl
  · cases hl
    exact hforeign.not_punctuation (by decide)

/-- Every character that is not foreign is a lexeme of its own. -/
theorem exists_lexeme_of_not_foreign {c : Char} (h : ¬ Foreign c) :
    ∃ p : Pattern, p.Lexeme [c] := by
  -- the classes are tried one by one, and what is in none of them is foreign
  by_cases hblank : Text.isBlank c = true
  · exact ⟨.blank, .blank (by simp) (by simpa using hblank)⟩
  by_cases hstart : isWordStart c = true
  · exact ⟨.word, .word hstart (by simp)⟩
  by_cases hdigit : c.isDigit = true
  · exact ⟨.numeral, .whole ⟨by simp, by simpa using hdigit⟩⟩
  by_cases hquote : c = '"'
  · exact ⟨.openQuote, hquote ▸ .openQuote⟩
  by_cases hpunctuation : c ∈ punctuation
  · have hall : punctuation.all (fun c => Kind.all.any fun kind =>
        kind.spelling? = some (String.ofList [c])) = true := by decide
    obtain ⟨kind, -, hspelling⟩ := List.any_eq_true.mp (List.all_eq_true.mp hall c hpunctuation)
    exact ⟨.fixed kind, fixed_of_ofList (by simpa using hspelling)⟩
  · refine absurd ⟨by simpa using hblank, ?_, hquote, hpunctuation⟩ h
    simp [isWordPart, hstart, hdigit]

/-- No pattern applies exactly where the text begins with a foreign character. -/
theorem first?_eq_none_iff_foreign {c : Char} {tail : List Char} :
    first? (c :: tail) = none ↔ Foreign c := by
  rw [first?_eq_none_iff]
  constructor
  · intro hnone
    -- a character that is not foreign is a lexeme by itself, so some pattern would match
    refine Classical.byContradiction fun hforeign => ?_
    obtain ⟨p, hp⟩ := exists_lexeme_of_not_foreign hforeign
    exact hnone p [c] hp ⟨tail, rfl⟩
  · rintro hforeign p l hl hpre
    obtain ⟨d, tail', rfl⟩ := List.exists_cons_of_ne_nil (ne_nil_of_lexeme hl)
    obtain ⟨r, hr⟩ := hpre
    obtain rfl := (List.cons.inj hr).1
    exact hforeign.not_lexeme hl

/-- A quote is taken alone exactly where no second one follows. -/
theorem longest_openQuote_iff {lexeme rest : List Char} :
    Longest .openQuote lexeme rest ↔ lexeme = ['"'] ∧ '"' ∉ rest := by
  constructor
  · intro h
    have hlexeme := h.isLexeme
    cases hlexeme
    refine ⟨rfl, fun hmem => ?_⟩
    -- with a second quote there would be a string, which is longer
    obtain ⟨body, after, rfl, hbody⟩ := List.eq_append_cons_of_mem hmem
    have hle := h.length_le .string _ (.string hbody) ⟨after, by simp⟩
    simp at hle
  · rintro ⟨rfl, hquote⟩
    refine ⟨.openQuote, fun q l hl hpre => Nat.le_of_not_lt fun hlt => ?_⟩
    obtain ⟨c, tail, rfl, hrest⟩ := exists_append_of_length_lt hpre hlt
    rcases eq_or_short_of_begins .openQuote hl (List.prefix_append ..) with rfl | ⟨hlong, -⟩
    · cases hl
    · -- the only long lexeme that starts with a quote ends with one
      have hstring : ∀ q ∈ long, q.starts '"' = true → q = .string := by decide
      obtain rfl := hstring q hlong (starts_of_lexeme hl)
      have hlast : '"' ∈ c :: tail := by
        generalize heq : ['"'] ++ c :: tail = l at hl
        cases hl with
        | @string body hbody =>
          have htail : c :: tail = body ++ ['"'] := (List.cons.inj heq).2
          simp [htail]
      exact hquote (hrest.subset hlast)

end Pattern

/-- The texts at which a scan fails, with the cause. -/
inductive Stuck : List Char → Cause → Prop where
  | openString {tail : List Char} (hquote : '"' ∉ tail) : Stuck ('"' :: tail) .unterminatedString
  | foreign {c : Char} {tail : List Char} (hforeign : Foreign c) :
      Stuck (c :: tail) (.unrecognised (String.ofList [c]))

theorem Stuck.ne_nil {left : List Char} {cause : Cause} (h : Stuck left cause) : left ≠ [] := by
  cases h <;> simp

/-- Only a lone quote is read as a fault. -/
theorem read_eq_fault {p : Pattern} {lexeme : List Char} {cause : Cause} (hlexeme : p.Lexeme lexeme)
    (hread : p.read (String.ofList lexeme) = .fault cause) :
    p = .openQuote ∧ cause = .unterminatedString := by
  cases p with
  | word =>
    rw [Pattern.read, readWord_eq] at hread
    split at hread <;> cases hread
  | numeral =>
    -- a numeral always has a value, however large or small
    obtain ⟨d, hd⟩ := Number.exists_ofDecimal_of_numeral hlexeme
    rw [Pattern.read, hd] at hread
    cases hread
  | openQuote =>
    cases hread
    exact ⟨rfl, rfl⟩
  | blank => cases hread
  | string => cases hread
  | comment => cases hread
  | fixed kind => cases hread

namespace Scanner

variable {s s' : Scanner} {left : List Char} {fault : Fault}

/-- A lexeme is refused exactly if it is read as a fault, and then nothing changes. -/
theorem take_eq_error_iff {p : Pattern} {lexeme : List Char} :
    s.take p lexeme = .error fault s' ↔ s' = s ∧ ∃ cause,
      p.read (String.ofList lexeme) = .fault cause ∧ fault = ⟨cause, s.position⟩ := by
  simp only [take]
  -- only a lexeme that is read as a fault is refused
  cases p.read (String.ofList lexeme) with
  | skip => simp
  | token kind literal => simp
  | fault cause =>
    constructor
    · intro h
      cases h
      exact ⟨rfl, cause, rfl, rfl⟩
    · rintro ⟨rfl, cause', hcause, rfl⟩
      cases hcause
      rfl

/-- A step fails where the text that is left is stuck, and blames the place where it is. -/
theorem step_eq_error_iff (hne : left ≠ []) :
    s.step left = .error fault s' ↔
      s' = s ∧ ∃ cause, Stuck left cause ∧ fault = ⟨cause, s.position⟩ := by
  constructor
  · intro h
    rw [step] at h
    split at h
    · -- the lexeme is read as a fault, so it is a quote without a second one behind it
      rename_i p lexeme rest hfirst
      obtain ⟨rfl, hlongest⟩ := first?_eq_some_iff.mp hfirst
      split at h
      · cases h
      · rename_i htake
        cases h
        obtain ⟨rfl, cause, hread, rfl⟩ := take_eq_error_iff.mp htake
        obtain ⟨rfl, rfl⟩ := read_eq_fault hlongest.isLexeme hread
        obtain ⟨rfl, hquote⟩ := longest_openQuote_iff.mp hlongest
        exact ⟨rfl, _, .openString hquote, rfl⟩
    · rename_i hfirst
      cases h
      -- no pattern applies at all, so the first character is foreign
      obtain ⟨c, tail, rfl⟩ := List.exists_cons_of_ne_nil hne
      exact ⟨rfl, _, .foreign (first?_eq_none_iff_foreign.mp hfirst), rfl⟩
  · rintro ⟨rfl, cause, hstuck, rfl⟩
    cases hstuck with
    | @openString tail hquote =>
      have hfirst : first? ('"' :: tail) = some (.openQuote, ['"'], tail) :=
        first?_eq_some_iff.mpr ⟨rfl, longest_openQuote_iff.mpr ⟨rfl, hquote⟩⟩
      rw [step, hfirst]
      rfl
    | foreign hforeign =>
      rw [step, first?_eq_none_iff_foreign.mpr hforeign]
      rfl

end Scanner

/-! ## Whole sources -/

open Scanner

/-- A source fails exactly if the scan of its text does. -/
theorem tokenize_eq_error_iff_scan {text : String} {file? : Option String} {fault : Fault}
    {s : Scanner} :
    tokenize text file? = .error fault s ↔
      (ofText text file?).scan text.toList = .error fault s := by
  rw [tokenize]
  cases (ofText text file?).scan text.toList <;> simp

/-- A scan of a source fails where its steps lead to a text that is stuck. -/
theorem tokenize_eq_error_iff {text : String} {file? : Option String} {fault : Fault}
    {s : Scanner} :
    tokenize text file? = .error fault s ↔ ∃ left cause,
      Steps (ofText text file?) text.toList s left ∧ Stuck left cause ∧
        fault = ⟨cause, s.position⟩ := by
  rw [tokenize_eq_error_iff_scan, scan_eq_error_iff]
  constructor
  · rintro ⟨s', left, hsteps, hne, hstep⟩
    obtain ⟨rfl, cause, hstuck, hfault⟩ := (step_eq_error_iff hne).mp hstep
    exact ⟨left, cause, hsteps, hstuck, hfault⟩
  · rintro ⟨left, cause, hsteps, hstuck, hfault⟩
    exact ⟨s, left, hsteps, hstuck.ne_nil,
      (step_eq_error_iff hstuck.ne_nil).mpr ⟨rfl, cause, hstuck, hfault⟩⟩

/-- The text in front of a place that the steps reach is a source that scans. -/
theorem exists_tokenize_of_steps {text : String} {file? : Option String} {s : Scanner}
    {before left : List Char} (h : Steps (ofText text file?) (before ++ left) s left) :
    ∃ tokens s', tokenize (String.ofList before) file? = .ok tokens s' := by
  have hscan : (ofText text file?).scan (String.ofList before).toList = .ok () s := by
    rw [String.toList_ofList]
    exact scan_eq_ok_iff.mpr h.truncate
  obtain ⟨tokens, s', htokens, -⟩ := exists_tokenize_eq_ok hscan
  exact ⟨tokens, s', htokens⟩

/-- Where the steps over the front of a source lead. -/
theorem Scanner.Steps.position_eq {text : String} {file? : Option String} {s : Scanner}
    {before left : List Char} (h : Steps (ofText text file?) (before ++ left) s left) :
    s.position = .at (file?.getD "shell") (Text.byteLength before) := by
  obtain ⟨-, hfile, hoffset⟩ := h.frame
  change s.offset + Text.byteLength left = 0 + Text.byteLength (before ++ left) at hoffset
  have hbefore : s.offset = Text.byteLength before := by
    rw [Text.byteLength_append] at hoffset
    omega
  rw [position, hbefore, hfile]
  rfl

/-- A scan that fails has come to a place of the source where the text that is left is stuck. -/
theorem stuck_of_tokenize_eq_error {text : String} {file? : Option String} {fault : Fault}
    {s : Scanner} (h : tokenize text file? = .error fault s) :
    ∃ before left, text.toList = before ++ left ∧
      Steps (ofText text file?) (before ++ left) s left ∧ Stuck left fault.cause ∧
      fault.position = .at (file?.getD "shell") (Text.byteLength before) := by
  obtain ⟨left, cause, hsteps, hstuck, rfl⟩ := tokenize_eq_error_iff.mp h
  obtain ⟨before, htext⟩ := hsteps.suffix
  rw [← htext] at hsteps
  exact ⟨before, left, htext.symm, hsteps, hstuck, hsteps.position_eq⟩

/-- The offset of a place in a source of the size of an offset. -/
theorem offset_at_of_append {text : String} {before left : List Char} {file : String}
    (hsize : text.utf8ByteSize < UInt32.size) (htext : text.toList = before ++ left) :
    (Position.at file (Text.byteLength before)).offset.toNat = Text.byteLength before := by
  apply Position.offset_at
  rw [← Text.byteLength_toList, htext, Text.byteLength_append] at hsize
  omega

/-- A foreign character that ends the scan of a source ends that of every source up to it. -/
theorem tokenize_graft {text : String} {file? : Option String} {found : String}
    {position : Position} {s : Scanner}
    (h : tokenize text file? = .error ⟨.unrecognised found, position⟩ s) :
    ∃ before c after, text.toList = before ++ c :: after ∧ found = String.ofList [c] ∧
      position = .at (file?.getD "shell") (Text.byteLength before) ∧
      ∀ text' : String, before ++ [c] <+: text'.toList →
        ∃ s', tokenize text' file? = .error ⟨.unrecognised found, position⟩ s' := by
  obtain ⟨before, left, htext, hsteps, hstuck, hposition⟩ := stuck_of_tokenize_eq_error h
  cases hstuck with
  | @foreign c after hforeign =>
    refine ⟨before, c, after, htext, rfl, hposition, fun text' hpre => ?_⟩
    obtain ⟨after', happ'⟩ := hpre
    have htext' : text'.toList = before ++ c :: after' := by simp [← happ']
    -- the scanner of the first source meets the character before the text of the second one, too
    have hscan : (ofText text file?).scan text'.toList =
        .error ⟨.unrecognised (String.ofList [c]), position⟩ s := by
      rw [htext', scan_eq_error_iff]
      refine ⟨s, c :: after', hsteps.graft hforeign, by simp, ?_⟩
      refine (step_eq_error_iff (by simp)).mpr ⟨rfl, _, .foreign hforeign, ?_⟩
      rw [hsteps.position_eq]
      exact congrArg (Fault.mk _) hposition
    exact exists_tokenize_eq_error hscan

/--
A scan fails at a byte of a source exactly if the text up to there scans, the steps over the source
lead there, and the text that is left is stuck. No numeral is at fault. A foreign character is a
fault whatever comes behind it.
-/
theorem tokenize_fails_iff {text : String} (hsize : text.utf8ByteSize < UInt32.size)
    (file? : Option String) :
    (∀ (cause : Cause) (p : Nat),
      (∃ fault s, tokenize text file? = .error fault s ∧ fault.cause = cause ∧
        fault.position.offset.toNat = p ∧ fault.position.file = file?.getD "shell") ↔
      ∃ before left, text.toList = before ++ left ∧ Text.byteLength before = p ∧
        (∃ tokens s, tokenize (String.ofList before) file? = .ok tokens s) ∧
        (∃ s, Steps (ofText text file?) text.toList s left) ∧ Stuck left cause) ∧
    (∀ fault s, tokenize text file? = .error fault s →
      ∀ numeral, fault.cause ≠ .badNumber numeral) ∧
    ∀ found position s, tokenize text file? = .error ⟨.unrecognised found, position⟩ s →
      ∃ before c after, text.toList = before ++ c :: after ∧ found = String.ofList [c] ∧
        Text.byteLength before = position.offset.toNat ∧
        ∀ text' : String, before ++ [c] <+: text'.toList →
          ∃ s', tokenize text' file? = .error ⟨.unrecognised found, position⟩ s' := by
  refine ⟨fun cause p => ⟨?_, ?_⟩, ?_, ?_⟩
  · rintro ⟨fault, s, h, rfl, rfl, -⟩
    -- the steps to where the scan is stuck are all the steps that a scan of the prefix takes
    obtain ⟨before, left, htext, hsteps, hstuck, hposition⟩ := stuck_of_tokenize_eq_error h
    refine ⟨before, left, htext, ?_, exists_tokenize_of_steps hsteps, ⟨s, htext ▸ hsteps⟩, hstuck⟩
    rw [hposition, offset_at_of_append hsize htext]
  · rintro ⟨before, left, htext, rfl, -, ⟨s, hsteps⟩, hstuck⟩
    -- the steps tell how far the scanner has come, so the failure is placed there
    have hposition := (htext ▸ hsteps).position_eq
    refine ⟨_, s, tokenize_eq_error_iff.mpr ⟨left, cause, hsteps, hstuck, rfl⟩, rfl, ?_, ?_⟩
    · rw [hposition, offset_at_of_append hsize htext]
    · rw [hposition]
      rfl
  · intro fault s h numeral hcause
    obtain ⟨before, left, -, -, hstuck, -⟩ := stuck_of_tokenize_eq_error h
    rw [hcause] at hstuck
    cases hstuck
  · intro found position s h
    obtain ⟨before, c, after, htext, hfound, rfl, hall⟩ := tokenize_graft h
    exact ⟨before, c, after, htext, hfound, (offset_at_of_append hsize htext).symm, hall⟩

/-- A source whose last character is foreign. In front of it stands one of two bytes. -/
def sharpened : String := "\"é\" #"

theorem tokenize_sharpened :
    ∃ s, tokenize sharpened none = .error ⟨.unrecognised "#", .at "shell" 5⟩ s :=
  fault?_eq_some_iff.mp (by decide +kernel)

/-- However the source goes on, the fault stays. -/
theorem sharpened_fails : sharpened.utf8ByteSize < UInt32.size ∧
    (∃ before left, sharpened.toList = before ++ left ∧ Text.byteLength before = 5 ∧
      (∃ tokens s, tokenize (String.ofList before) none = .ok tokens s) ∧
      (∃ s, Steps (ofText sharpened none) sharpened.toList s left) ∧
      Stuck left (.unrecognised "#")) ∧
    ∀ text' : String, sharpened.toList <+: text'.toList →
      ∃ s', tokenize text' none = .error ⟨.unrecognised "#", .at "shell" 5⟩ s' := by
  have hsize : sharpened.utf8ByteSize < UInt32.size := by decide +kernel
  obtain ⟨s, hscan⟩ := tokenize_sharpened
  obtain ⟨hexact, -, hstable⟩ := tokenize_fails_iff hsize none
  refine ⟨hsize, (hexact _ 5).mp ⟨_, s, hscan, rfl, rfl, rfl⟩, fun text' hpre => ?_⟩
  obtain ⟨before, c, after, htext, -, hbefore, hall⟩ := hstable _ _ s hscan
  -- the source has six bytes, so nothing comes behind the foreign character
  have hlength : Text.byteLength (before ++ c :: after) = 6 := by
    rw [← htext]
    rfl
  have hnone : after = [] := by
    cases after with
    | nil => rfl
    | cons d after =>
      have hd : 0 < d.utf8Size := d.utf8Size_pos
      have hc : 0 < c.utf8Size := c.utf8Size_pos
      have hfive : Text.byteLength before = 5 := hbefore
      simp only [Text.byteLength_append, Text.byteLength_cons] at hlength
      omega
  rw [htext, hnone] at hpre
  exact hall text' hpre

end LoxExpr
