import LoxExpr.Proofs.Lexing.Steps

/-!
# The same text further on

What a scanner makes of the text that is left does not depend on how far it has come, nor on what it
has found before; only the places it notes do. `Scanner.Later` compares two scanners of which one is
some bytes further on, in whatever source, and `Later.scan` scans the same text with both: they end
in the same way, with the same tokens, and every place of the one is a place of the other, shifted
by those bytes.
-/

namespace LoxExpr

/-! ## Shifted places -/

/-- The position so many bytes further on. -/
def Position.shift (n : Nat) (q : Position) : Position :=
  ⟨q.offset + n.toUInt32, q.file⟩

def Span.shift (n : Nat) (span : Span) : Span :=
  ⟨span.start.shift n, span.stop.shift n⟩

/-- The token so many bytes further on. -/
def Token.shift (n : Nat) (t : Token) : Token :=
  { t with span := t.span.shift n }

/-- The fault so many bytes further on. -/
def Fault.shift (n : Nat) (fault : Fault) : Fault :=
  { fault with position := fault.position.shift n }

/-- A position shifted within the range of offsets. -/
theorem Position.toNat_shift {q : Position} {n : Nat} (h : q.offset.toNat + n < UInt32.size) :
    (q.shift n).offset.toNat = q.offset.toNat + n := by
  show (q.offset + n.toUInt32).toNat = _
  rw [UInt32.toNat_add, UInt32.toNat_ofNat_of_lt' (by omega : n < UInt32.size)]
  exact Nat.mod_eq_of_lt h

@[simp] theorem Position.shift_zero (q : Position) : q.shift 0 = q := by
  simp [Position.shift]

theorem Token.shift_zero : Token.shift 0 = id := by
  funext t
  simp [Token.shift, Span.shift]

@[simp] theorem Fault.shift_zero (fault : Fault) : fault.shift 0 = fault := by
  simp [Fault.shift]

@[simp] theorem Token.shift_endOfInput (n : Nat) (q : Position) :
    (Token.endOfInput q).shift n = Token.endOfInput (q.shift n) := rfl

namespace Scanner

/-! ## Two scanners -/

/-- The second scanner is some bytes further on than the first, and has found tokens before. -/
structure Later (n : Nat) (found : List Token) (s s' : Scanner) : Prop where
  file_eq : s'.file = s.file
  offset_eq : s'.offset = s.offset + n
  tokens_eq : s'.tokens.toList = found ++ s.tokens.toList.map (Token.shift n)

variable {n : Nat} {found : List Token} {s s' : Scanner}

/-- The second scanner is as far ahead as places are shifted. -/
theorem Later.position_eq (h : Later n found s s') : s'.position = s.position.shift n := by
  simp [position, Position.shift, h.offset_eq, h.file_eq]

theorem Later.skipped (h : Later n found s s') (lexeme : List Char) :
    Later n found (s.skipped lexeme) (s'.skipped lexeme) where
  file_eq := h.file_eq
  offset_eq := by
    show s'.offset + Text.byteLength lexeme = s.offset + Text.byteLength lexeme + n
    rw [h.offset_eq]
    omega
  tokens_eq := h.tokens_eq

theorem Later.push (h : Later n found s s') (t : Token) :
    Later n found (s.push t) (s'.push (t.shift n)) where
  file_eq := h.file_eq
  offset_eq := h.offset_eq
  tokens_eq := by simp [Scanner.push, h.tokens_eq]

/-- A token that both find stands in shifted places. -/
theorem Later.tokenAt_eq (h : Later n found s s') (kind : Kind) (lexeme : List Char)
    (literal : Option Literal) :
    s'.tokenAt kind lexeme literal = (s.tokenAt kind lexeme literal).shift n := by
  have hstop := (h.skipped lexeme).position_eq
  have hspan :
      s'.spanOf (Text.byteLength lexeme) = (s.spanOf (Text.byteLength lexeme)).shift n := by
    rw [spanOf, h.position_eq]
    exact congrArg (Span.mk _) hstop
  rw [tokenAt, hspan]
  rfl

/-- At the end, the tokens of the second scanner are those it had, and the shifted ones. -/
theorem Later.toList_finish (h : Later n found s s') :
    s'.finish.tokens.toList = found ++ s.finish.tokens.toList.map (Token.shift n) := by
  rw [Scanner.toList_finish, Scanner.toList_finish, h.tokens_eq, h.position_eq]
  simp

/-! ## The same text scanned by both -/

/--
Both outcomes are values, or both are faults; the values are the same, and a fault is shifted.
-/
def Alike {α : Type} (n : Nat) (found : List Token) :
    EStateM.Result Fault Scanner α → EStateM.Result Fault Scanner α → Prop
  | .ok a s, .ok a' s' => a' = a ∧ Later n found s s'
  | .error fault s, .error fault' s' => fault' = fault.shift n ∧ Later n found s s'
  | _, _ => False

/-- Where one scanner succeeds, so does the other, with the same result. -/
theorem Alike.exists_ok {α : Type} {a : α} {r : EStateM.Result Fault Scanner α}
    (h : Alike n found (.ok a s) r) : ∃ s', r = .ok a s' ∧ Later n found s s' := by
  cases r with
  | ok a' s' =>
    obtain ⟨rfl, hlater⟩ := h
    exact ⟨s', rfl, hlater⟩
  | error fault s' => exact h.elim

/-- Where one scanner fails, so does the other, at the shifted place. -/
theorem Alike.exists_error {α : Type} {fault : Fault} {r : EStateM.Result Fault Scanner α}
    (h : Alike n found (.error fault s) r) :
    ∃ s', r = .error (fault.shift n) s' ∧ Later n found s s' := by
  cases r with
  | ok a s' => exact h.elim
  | error fault' s' =>
    obtain ⟨rfl, hlater⟩ := h
    exact ⟨s', rfl, hlater⟩

/-- Both scanners make the same of a lexeme. -/
theorem Later.take (h : Later n found s s') (p : Pattern) (lexeme : List Char) :
    Alike n found (s.take p lexeme) (s'.take p lexeme) := by
  simp only [Scanner.take]
  cases p.read (String.ofList lexeme) with
  | skip => exact ⟨rfl, h.skipped lexeme⟩
  | token kind literal =>
    refine ⟨rfl, ?_⟩
    have hpush := h.push (s.tokenAt kind lexeme literal)
    rw [← h.tokenAt_eq] at hpush
    exact hpush.skipped lexeme
  | fault cause => exact ⟨by simp [Fault.shift, h.position_eq], h⟩

/-- Both scanners take the same step. -/
theorem Later.step (h : Later n found s s') (left : List Char) :
    Alike n found (s.step left) (s'.step left) := by
  simp only [Scanner.step]
  -- the text is the same for both, so they find the same lexeme
  cases Pattern.first? left with
  | none => exact ⟨by simp [Fault.shift, h.position_eq], h⟩
  | some first =>
    obtain ⟨p, lexeme, rest⟩ := first
    have htake := h.take p lexeme
    simp only
    cases hres : s.take p lexeme with
    | ok u t =>
      rw [hres] at htake
      obtain ⟨t', hres', hlater⟩ := htake.exists_ok
      rw [hres']
      exact ⟨rfl, hlater⟩
    | error fault t =>
      rw [hres] at htake
      obtain ⟨t', hres', hlater⟩ := htake.exists_error
      rw [hres']
      exact ⟨rfl, hlater⟩

/-- The scan of a text ends alike wherever it begins. -/
theorem Later.scan {s s' : Scanner} (h : Later n found s s') (left : List Char) :
    Alike n found (s.scan left) (s'.scan left) := by
  by_cases hne : left = []
  · subst hne
    rw [scan_nil, scan_nil]
    exact ⟨rfl, h⟩
  · -- both take the same step, and go on with less text
    have hstep := h.step left
    cases hres : s.step left with
    | ok rest t =>
      rw [hres] at hstep
      obtain ⟨t', hres', hlater⟩ := hstep.exists_ok
      have hlt := length_lt_of_step hres
      rw [scan_of_step_ok hres, scan_of_step_ok hres']
      exact hlater.scan rest
    | error fault t =>
      rw [hres] at hstep
      obtain ⟨t', hres', hlater⟩ := hstep.exists_error
      rw [scan_of_step_error hne hres, scan_of_step_error hne hres']
      exact ⟨rfl, hlater⟩
termination_by left.length

end Scanner

/-! ## Sources of one name -/

section SameFile

open Scanner

variable {text text' : String} {file? : Option String} {s : Scanner}

/-- Sources of one name are scanned from the same place. -/
theorem later_ofText (text' text : String) (file? : Option String) :
    Later 0 [] (ofText text' file?) (ofText text file?) :=
  ⟨rfl, rfl, rfl⟩

/-- The tokens that the scanner of another source finds in the text are those of the text. -/
theorem exists_tokenize_eq_ok (h : (ofText text' file?).scan text.toList = .ok () s) :
    ∃ tokens s', tokenize text file? = .ok tokens s' ∧
      tokens.toList = s.finish.tokens.toList := by
  have halike := (later_ofText text' text file?).scan text.toList
  rw [h] at halike
  obtain ⟨s', hscan, hlater⟩ := halike.exists_ok
  refine ⟨s'.finish.tokens, s'.finish, by rw [tokenize, hscan], ?_⟩
  rw [hlater.toList_finish, Token.shift_zero, List.map_id, List.nil_append]

/-- The fault that the scanner of another source meets in the text is that of the text. -/
theorem exists_tokenize_eq_error {fault : Fault}
    (h : (ofText text' file?).scan text.toList = .error fault s) :
    ∃ s', tokenize text file? = .error fault s' := by
  have halike := (later_ofText text' text file?).scan text.toList
  rw [h] at halike
  obtain ⟨s', hscan, -⟩ := halike.exists_error
  exact ⟨s', by rw [tokenize, hscan, Fault.shift_zero]⟩

end SameFile

end LoxExpr
