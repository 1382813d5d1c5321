import LoxExpr.Proofs.Lexing.Meaning
import LoxExpr.Proofs.Lexing.Steps
import LoxExpr.Proofs.Text.Bytes

/-!
# Scanning by offsets

A scan hands the text that is left from step to step. A scanner that keeps its source and an offset
only has to cut that text out of the source each time it looks at it, and such a cut fails past the
end and inside a character. This module runs the scan in that way: `turn?` is one turn of the loop,
`loop?` makes turns until the offset is at the end, and both give nothing if a slice fails.

A turn takes a lexeme of at least one byte and moves the offset to where it ends (`turn?_eq_take`),
so the offset always stands at a character boundary, with no fewer bytes in front of it than turns
have been made (`OnTrack`). Hence the loop never fails to cut, ends within as many turns as the
source has bytes, and scans the source as the steps do: `tokenize_by_offsets`.
-/

namespace LoxExpr

open Text (byteLength)

namespace Scanner

/-! ## The loop -/

/-- The text that a pattern takes where the scanner is, empty if the pattern does not apply. -/
def matched? (s : Scanner) (p : Pattern) : Option (List Char) :=
  s.remainder?.map fun left => ((p.split? left).map Prod.fst).getD []

/-- The character where the scanner is, if it is not at the end. -/
def at? (s : Scanner) : Option (Option Char) :=
  s.remainder?.map List.head?

/--
What a pattern does where the scanner is. The value of a string is sliced out between its quotes. A
punctuation mark has the text and the length of its kind, and these are not looked up in the source.
-/
def handle? (s : Scanner) (p : Pattern) : Option (EStateM.Result Fault Scanner Unit) :=
  match p with
  | .string => do
    let lexeme ← s.matched? .string
    let body ← Text.slice? 1 (byteLength lexeme - 1) lexeme
    let token := s.tokenAt .string lexeme (some (.string (String.ofList body)))
    return .ok () ((s.push token).skipped lexeme)
  | .openQuote => some (.error ⟨.unterminatedString, s.position⟩ s)
  | .fixed kind =>
    let spelling := (kind.spelling?.getD "").toList
    some (.ok () ((s.push (s.tokenAt kind spelling none)).skipped spelling))
  | .word | .numeral | .blank | .comment => (s.matched? p).map (s.take p)

/--
One turn of the loop: the first pattern that applies to the text that is left does its work, or the
first character is at fault.
-/
def turn? (s : Scanner) : Option (EStateM.Result Fault Scanner Unit) := do
  let left ← s.remainder?
  match Pattern.first? left with
  | some (p, _) => s.handle? p
  | none =>
    let c? ← s.at?
    return .error ⟨.unrecognised (String.ofList c?.toList), s.position⟩ s

/-- Makes turns until the end is reached or a turn fails, but not more than `n`. -/
def loop? : Nat → Scanner → Option (EStateM.Result Fault Scanner Unit)
  | 0, s => if s.atEnd then some (.ok () s) else none
  | n + 1, s =>
    if s.atEnd then some (.ok () s)
    else
      match s.turn? with
      | some (.ok () s') => loop? n s'
      | some (.error fault s') => some (.error fault s')
      | none => none

/-- The scanner as it is when the loop has made `n` turns and asks whether to make another. -/
def afterTurns? (s : Scanner) : Nat → Option Scanner
  | 0 => some s
  | n + 1 =>
    match s.afterTurns? n with
    | some s' =>
      if s'.atEnd then none
      else
        match s'.turn? with
        | some (.ok () s'') => some s''
        | _ => none
    | none => none

/-! ## The text that is left -/

variable {s s' : Scanner} {left left' : List Char}

/-- What is left can be cut out exactly if the offset is a boundary between two characters. -/
theorem remainder?_eq_some_iff : s.remainder? = some left ↔
    ∃ before, before ++ left = s.text.toList ∧ byteLength before = s.offset :=
  Text.dropBytes?_eq_some_iff

/-- At the start, all of the text is left. -/
theorem remainder?_ofText (text : String) (file? : Option String) :
    (ofText text file?).remainder? = some text.toList := by
  rw [remainder?_eq_some_iff]
  exact ⟨[], rfl, rfl⟩

/-- The bytes in front of the offset and those that are left are all bytes of the source. -/
theorem offset_add_byteLength (hleft : s.remainder? = some left) :
    s.offset + byteLength left = s.text.utf8ByteSize := by
  obtain ⟨before, happ, hbefore⟩ := remainder?_eq_some_iff.mp hleft
  rw [← hbefore, ← Text.byteLength_append, happ, Text.byteLength_toList]

/-- The offset is at the end of the text exactly if nothing is left. -/
theorem atEnd_eq_true_iff (hleft : s.remainder? = some left) : s.atEnd = true ↔ left = [] := by
  have hsize := offset_add_byteLength hleft
  rw [atEnd, decide_eq_true_eq]
  constructor
  · intro h
    exact Text.eq_nil_of_byteLength_eq_zero (by omega)
  · rintro rfl
    rw [Text.byteLength_nil] at hsize
    omega

/-! ## One turn -/

variable {p : Pattern} {lexeme rest : List Char}

/-- The text that a pattern takes is the lexeme that it splits off. -/
theorem matched?_eq (hleft : s.remainder? = some left)
    (hsplit : p.split? left = some (lexeme, rest)) : s.matched? p = some lexeme := by
  rw [matched?, hleft, Option.map_some, hsplit]
  rfl

/-- Between the quotes of a string lies a slice, and that is the text without the quotes. -/
theorem slice?_quoted (body : List Char) :
    Text.slice? 1 (byteLength ('"' :: body ++ ['"']) - 1) ('"' :: body ++ ['"']) = some body := by
  refine Text.slice?_eq_some_iff.mpr ⟨['"'], ['"'], rfl, rfl, ?_⟩
  show byteLength (['"'] ++ body) = byteLength (['"'] ++ body ++ ['"']) - 1
  rw [Text.byteLength_append _ ['"']]
  rfl

/-- A lexeme that is read as a token is pushed as that token. -/
theorem take_of_read {kind : Kind} {literal : Option Literal}
    (hread : p.read (String.ofList lexeme) = .token kind literal) :
    s.take p lexeme = .ok () ((s.push (s.tokenAt kind lexeme literal)).skipped lexeme) := by
  simp only [take, hread]
  rfl

/-- Every pattern does with what it finds what a step does with the lexeme. -/
theorem handle?_eq_take (hleft : s.remainder? = some left)
    (hsplit : p.split? left = some (lexeme, rest)) : s.handle? p = some (s.take p lexeme) := by
  have hmatched := matched?_eq hleft hsplit
  -- by pattern: only strings and fixed texts are not handled by taking what was matched
  cases p with
  | word => rw [handle?, hmatched, Option.map_some]
  | numeral => rw [handle?, hmatched, Option.map_some]
  | blank => rw [handle?, hmatched, Option.map_some]
  | comment => rw [handle?, hmatched, Option.map_some]
  | openQuote => rfl
  | string =>
    obtain ⟨-, hlexeme⟩ := Pattern.string_split?_eq_some_iff.mp hsplit
    cases hlexeme with
    | @string body hquote =>
      have hread : Pattern.string.read (String.ofList ('"' :: body ++ ['"'])) =
          .token .string (some (.string (String.ofList body))) := by
        rw [Pattern.read, Pattern.inner_quoted]
      rw [take_of_read hread, handle?, hmatched, Option.bind_eq_bind, Option.bind_some,
        slice?_quoted]
      rfl
  | fixed kind =>
    -- the text that is written down for the kind is the one that was found
    obtain ⟨-, hlexeme, -⟩ := Pattern.split?_eq_some_iff.mp hsplit
    cases hlexeme with
    | @fixed _ spelling hspelling =>
      have hread : (Pattern.fixed kind).read (String.ofList spelling.toList) = .token kind none :=
        rfl
      rw [take_of_read hread, handle?, hspelling]
      rfl

/-- The first pattern that applies takes its lexeme. -/
theorem turn?_eq_take (hleft : s.remainder? = some left)
    (hfirst : Pattern.first? left = some (p, lexeme, rest)) :
    s.turn? = some (s.take p lexeme) := by
  rw [turn?, hleft, Option.bind_eq_bind, Option.bind_some, hfirst]
  exact handle?_eq_take hleft (Pattern.split?_of_first? hfirst)

/-- A turn does what a step does with the text that is left. -/
theorem turn?_eq_step (hleft : s.remainder? = some left) :
    s.turn? = some (match s.step left with
      | .ok _ s' => .ok () s'
      | .error fault s' => .error fault s') := by
  -- both look for the first pattern in the text that is left
  cases hfirst : Pattern.first? left with
  | some found =>
    obtain ⟨p, lexeme, rest⟩ := found
    rw [turn?_eq_take hleft hfirst, step, hfirst]
    cases htake : s.take p lexeme with
    | ok _ s' => simp only [htake]
    | error fault s' => simp only [htake]
  | none =>
    rw [turn?, hleft, Option.bind_eq_bind, Option.bind_some, hfirst, at?, hleft, step, hfirst,
      List.take_one]
    rfl

/-- A step takes a lexeme off the text that is left, and moves the offset to where that ends. -/
theorem exists_lexeme_of_step (h : s.step left = .ok left' s') :
    ∃ p lexeme, Pattern.first? left = some (p, lexeme, left') ∧ lexeme ++ left' = left ∧
      lexeme ≠ [] ∧ s'.text = s.text ∧ s'.offset = s.offset + byteLength lexeme := by
  obtain ⟨p, lexeme, hfirst, -⟩ := step_eq_ok_iff.mp h
  obtain ⟨happ, hne⟩ := Pattern.eq_append_of_split? (Pattern.split?_of_first? hfirst)
  obtain ⟨htext, -, hoffset⟩ := frame_of_step h hfirst
  exact ⟨p, lexeme, hfirst, happ, hne, htext, hoffset⟩

/-- Behind a step, the text that is left can be cut out again. -/
theorem remainder?_of_step (hleft : s.remainder? = some left) (h : s.step left = .ok left' s') :
    s'.remainder? = some left' := by
  obtain ⟨before, happ, hbefore⟩ := remainder?_eq_some_iff.mp hleft
  obtain ⟨p, lexeme, -, rfl, -, htext, hoffset⟩ := exists_lexeme_of_step h
  refine remainder?_eq_some_iff.mpr ⟨before ++ lexeme, ?_, ?_⟩
  · rw [htext, ← happ, List.append_assoc]
  · rw [hoffset, Text.byteLength_append, hbefore]

/-- A turn that does not fail is a step, and its lexeme is what the offset grows by. -/
theorem exists_step_of_turn? (hleft : s.remainder? = some left) (h : s.turn? = some (.ok () s')) :
    ∃ left', s.step left = .ok left' s' := by
  rw [turn?_eq_step hleft] at h
  cases hstep : s.step left with
  | ok left' s'' =>
    rw [hstep] at h
    cases h
    exact ⟨left', rfl⟩
  | error fault s'' =>
    rw [hstep] at h
    cases h

/-! ## Many turns -/

/--
What holds when the loop asks whether to make another turn, and has made `n`: the offset is at a
character boundary of the source, and no slice of it that the next turn looks at is missing. If the
turn does not fail, the offset grows by the bytes of the lexeme that was found, and these are not
none.
-/
structure OnTrack (text : String) (n : Nat) (s : Scanner) : Prop where
  text_eq : s.text = text
  offset_le : s.offset ≤ text.utf8ByteSize
  isValid : String.Pos.Raw.IsValid text ⟨s.offset⟩
  turns_le : n ≤ s.offset
  isSome_remainder? : s.remainder?.isSome = true
  isSome_at? : s.at?.isSome = true
  isSome_turn? : s.turn?.isSome = true
  advances : ∀ s', s.turn? = some (.ok () s') → ∃ left p lexeme rest, s.remainder? = some left ∧
    Pattern.first? left = some (p, lexeme, rest) ∧ 0 < byteLength lexeme ∧
      s'.offset = s.offset + byteLength lexeme

/-- A scanner whose text can be cut at its offset is on track. -/
theorem onTrack_of_remainder? {text : String} {n : Nat} (htext : s.text = text)
    (hleft : s.remainder? = some left) (hturns : n ≤ s.offset) : s.OnTrack text n := by
  subst htext
  -- the text can be cut at the offset, and all else follows from that
  have hsome : s.remainder?.isSome = true := Option.isSome_of_eq_some hleft
  exact {
    text_eq := rfl
    offset_le := Nat.le_of_add_right_le (Nat.le_of_eq (offset_add_byteLength hleft))
    isValid := Text.isSome_dropBytes?_iff.mp hsome
    turns_le := hturns
    isSome_remainder? := hsome
    isSome_at? := by rw [at?, hleft]; rfl
    isSome_turn? := by rw [turn?_eq_step hleft]; rfl
    advances := by
      intro s' h
      obtain ⟨left', hstep⟩ := exists_step_of_turn? hleft h
      obtain ⟨p, lexeme, hfirst, -, hne, -, hoffset⟩ := exists_lexeme_of_step hstep
      exact ⟨left, p, lexeme, left', hleft, hfirst, Text.byteLength_pos hne, hoffset⟩ }

/-- After any number of turns the text that is left can be cut out of the source. -/
theorem remainder?_afterTurns {n : Nat} (hleft : s.remainder? = some left)
    (h : s.afterTurns? n = some s') :
    s'.text = s.text ∧ s.offset + n ≤ s'.offset ∧ ∃ left', s'.remainder? = some left' := by
  -- The induction is on the number of turns. Each turn is a step, which takes a lexeme that is not
  -- empty.
  induction n generalizing s' with
  | zero =>
    cases h
    exact ⟨rfl, Nat.le_refl _, left, hleft⟩
  | succ n ih =>
    rw [afterTurns?] at h
    split at h
    · rename_i s₁ hbefore
      obtain ⟨htext, hle, left₁, hleft₁⟩ := ih hbefore
      split at h
      · cases h
      · split at h
        · rename_i s₂ hturn
          cases h
          obtain ⟨left₂, hstep⟩ := exists_step_of_turn? hleft₁ hturn
          obtain ⟨-, lexeme, -, -, hne, htext', hoffset⟩ := exists_lexeme_of_step hstep
          have hpos := Text.byteLength_pos hne
          exact ⟨htext'.trans htext, by omega, left₂, remainder?_of_step hleft₁ hstep⟩
        · cases h
    · cases h

/-- After any number of turns, the loop is on track. -/
theorem onTrack_afterTurns {text : String} {file? : Option String} {n : Nat}
    (h : (ofText text file?).afterTurns? n = some s) : s.OnTrack text n := by
  obtain ⟨htext, hle, left, hleft⟩ := remainder?_afterTurns (remainder?_ofText text file?) h
  refine onTrack_of_remainder? htext hleft ?_
  rwa [show (ofText text file?).offset = 0 from rfl, Nat.zero_add] at hle

/-- As many turns as there are bytes left are enough, and they do what the scan does. -/
theorem loop?_eq_scan {n : Nat} (hleft : s.remainder? = some left) (hn : byteLength left ≤ n) :
    loop? n s = some (s.scan left) := by
  have hend := atEnd_eq_true_iff hleft
  -- The induction is on the turns that are allowed, for any text with no more bytes than that.
  induction n generalizing s left with
  | zero =>
    have hnil : left = [] := Text.eq_nil_of_byteLength_eq_zero (Nat.le_zero.mp hn)
    rw [loop?, if_pos (hend.mpr hnil), hnil, scan_nil]
  | succ n ih =>
    by_cases hnil : left = []
    · rw [loop?, if_pos (hend.mpr hnil), hnil, scan_nil]
    · rw [loop?, if_neg (hnil ∘ hend.mp), turn?_eq_step hleft]
      cases hstep : s.step left with
      | error fault s' => rw [scan_of_step_error hnil hstep]
      | ok left' s' =>
        -- a step leaves fewer bytes, so the other turns are enough for what is left then
        obtain ⟨-, lexeme, -, happ, hne, -, -⟩ := exists_lexeme_of_step hstep
        have hpos := Text.byteLength_pos hne
        rw [← happ, Text.byteLength_append] at hn
        have hleft' := remainder?_of_step hleft hstep
        rw [scan_of_step_ok hstep]
        exact ih hleft' (by omega) (atEnd_eq_true_iff hleft')

end Scanner

open Scanner

/-- Scans a whole source by offsets, in as many turns as it has bytes. -/
def tokenizeByOffset? (text : String) (file? : Option String) :
    Option (EStateM.Result Fault Scanner (Array Token)) :=
  match loop? text.utf8ByteSize (ofText text file?) with
  | some (.ok () s) => some (.ok s.finish.tokens s.finish)
  | some (.error fault s) => some (.error fault s)
  | none => none

/--
**A scan makes progress and stays on character boundaries.** However many turns have been made, the
offset is at a boundary within the source, and what the next turn slices out is there. A turn that
does not fail moves the offset on by the bytes of the text that its pattern takes, which is not
empty. So no more turns are made than there are bytes, and in that many turns the loop ends with the
outcome of the scan.
-/
theorem tokenize_by_offsets (text : String) (file? : Option String) :
    (∀ n s, (ofText text file?).afterTurns? n = some s → s.OnTrack text n) ∧
    tokenizeByOffset? text file? = some (tokenize text file?) := by
  refine ⟨fun n s h => onTrack_afterTurns h, ?_⟩
  -- as many turns as bytes are enough, since each of them takes one at least
  have hloop : loop? text.utf8ByteSize (ofText text file?) =
      some ((ofText text file?).scan text.toList) :=
    loop?_eq_scan (remainder?_ofText text file?) (Nat.le_of_eq (Text.byteLength_toList text))
  rw [tokenizeByOffset?, hloop, tokenize]
  cases (ofText text file?).scan text.toList with
  | ok _ s => rfl
  | error fault s => rfl

/-- A string with a character of two bytes, a blank of three, and an operator of two characters. -/
def wideBlank : String := "\"é\"\u3000<="

/-- Two turns get the loop past the string, to byte 7. -/
theorem afterTurns?_wideBlank :
    ∃ s, (ofText wideBlank none).afterTurns? 2 = some s ∧ s.offset = 7 := by
  have hoffset : ((ofText wideBlank none).afterTurns? 2).map Scanner.offset = some 7 := by
    decide +kernel
  exact Option.map_eq_some_iff.mp hoffset

/-- Two turns take four bytes and three, and the third one is in front of the operator. -/
theorem wideBlank_onTrack : ∃ s, (ofText wideBlank none).afterTurns? 2 = some s ∧ s.offset = 7 ∧
    s.OnTrack wideBlank 2 ∧ tokenizeByOffset? wideBlank none = some (tokenize wideBlank none) := by
  obtain ⟨s, hturns, hoffset⟩ := afterTurns?_wideBlank
  obtain ⟨htrack, hloop⟩ := tokenize_by_offsets wideBlank none
  exact ⟨s, hturns, hoffset, htrack 2 s hturns, hloop⟩

end LoxExpr
