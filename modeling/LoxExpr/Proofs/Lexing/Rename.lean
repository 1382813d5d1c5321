import LoxExpr.Proofs.Lexing.Steps

/-!
# The same text under another file name

The name of its file has no part in how a source is scanned. `Scanner.inFile` puts another name in
all that a scanner holds; each operation of the scanner commutes with it, so a step does
(`step_inFile`), and a scan (`scan_inFile`). Scanned under another name, a source has the same
tokens or the same fault, with the name in their places exchanged (`tokenize_inFile`).
-/

namespace LoxExpr

/-! ## Places in another file -/

/-- The same place of another file. -/
def Position.inFile (path : String) (q : Position) : Position :=
  { q with file := path }

def Span.inFile (path : String) (span : Span) : Span :=
  ⟨span.start.inFile path, span.stop.inFile path⟩

/-- The token at the same place of another file. -/
def Token.inFile (path : String) (t : Token) : Token :=
  { t with span := t.span.inFile path }

/-- The fault at the same place of another file. -/
def Fault.inFile (path : String) (fault : Fault) : Fault :=
  { fault with position := fault.position.inFile path }

/-- An event of a scan, in another file. The other events come from no scan, and stay. -/
def Event.inFile (path : String) : Event → Event
  | .lexed token => .lexed (token.inFile path)
  | .tokenized _ count => .tokenized path count
  | event => event

namespace Scanner

/-- The scanner of the same text under another name. -/
def inFile (path : String) (s : Scanner) : Scanner :=
  ⟨s.text, path, s.offset, s.tokens.map (Token.inFile path), s.log.map (Event.inFile path)⟩

/-- What comes of the same text under another name. -/
def resultInFile {α : Type} (path : String) :
    EStateM.Result Fault Scanner α → EStateM.Result Fault Scanner α
  | .ok a s => .ok a (s.inFile path)
  | .error fault s => .error (fault.inFile path) (s.inFile path)

variable (path : String)

/-! ## Operations under another name -/

theorem ofText_inFile (text : String) (file? : Option String) :
    (ofText text file?).inFile path = ofText text (some path) := by
  simp [inFile, ofText]

theorem push_inFile (s : Scanner) (t : Token) :
    (s.inFile path).push (t.inFile path) = (s.push t).inFile path := by
  simp [inFile, push, Event.inFile]

theorem finish_inFile (s : Scanner) : (s.inFile path).finish = s.finish.inFile path := by
  simp [inFile, finish, push, record, Event.inFile, position, Token.endOfInput, Token.inFile,
    Span.inFile, Position.inFile]

/-- What is made of a lexeme is the same under another name. -/
theorem take_inFile (s : Scanner) (p : Pattern) (lexeme : List Char) :
    (s.inFile path).take p lexeme = resultInFile path (s.take p lexeme) := by
  simp only [take]
  cases p.read (String.ofList lexeme) with
  | skip => rfl
  | token kind literal =>
    show EStateM.Result.ok ()
        (((s.inFile path).push ((s.tokenAt kind lexeme literal).inFile path)).skipped lexeme) =
      .ok () (((s.push (s.tokenAt kind lexeme literal)).skipped lexeme).inFile path)
    rw [push_inFile]
    rfl
  | fault cause => rfl

/-- A step is the same under another name. -/
theorem step_inFile (s : Scanner) (left : List Char) :
    (s.inFile path).step left = resultInFile path (s.step left) := by
  unfold step
  cases Pattern.first? left with
  | none => rfl
  | some first =>
    simp only [take_inFile]
    cases s.take first.1 first.2.1 with
    | ok u t => rfl
    | error fault t => rfl

/-- A scan under another name goes as before. -/
theorem scan_inFile (s : Scanner) (left : List Char) :
    (s.inFile path).scan left = resultInFile path (s.scan left) := by
  by_cases hne : left = []
  · subst hne
    rw [scan_nil, scan_nil]
    rfl
  · -- both take the same step, and what it leaves is shorter
    have hstep := step_inFile path s left
    cases hres : s.step left with
    | ok rest t =>
      rw [hres] at hstep
      have hlt := length_lt_of_step hres
      rw [scan_of_step_ok hres, scan_of_step_ok hstep]
      exact scan_inFile t rest
    | error fault t =>
      rw [hres] at hstep
      rw [scan_of_step_error hne hres, scan_of_step_error hne hstep]
      rfl
termination_by left.length

end Scanner

open Scanner

/-! ## Sources under another name -/

variable {text : String} {file? : Option String} (path : String)

/-- The name of the file shows in the places of the tokens, and nowhere else. -/
theorem tokenize_inFile_eq_ok {tokens : Array Token} {s : Scanner}
    (h : tokenize text file? = .ok tokens s) :
    tokenize text (some path) = .ok (tokens.map (Token.inFile path)) (s.inFile path) := by
  obtain ⟨s₀, hsteps, rfl, rfl⟩ := tokenize_eq_ok_iff.mp h
  have hscan := scan_inFile path (ofText text file?) text.toList
  rw [ofText_inFile, scan_eq_ok_iff.mpr hsteps] at hscan
  unfold tokenize
  rw [hscan]
  show EStateM.Result.ok (s₀.inFile path).finish.tokens (s₀.inFile path).finish = _
  rw [finish_inFile]
  rfl

/-- A source that fails does so under another name, at the same place in that file. -/
theorem tokenize_inFile_eq_error {fault : Fault} {s : Scanner}
    (h : tokenize text file? = .error fault s) :
    tokenize text (some path) = .error (fault.inFile path) (s.inFile path) := by
  -- the scan fails under either name, with the place in that file
  have hscan := scan_inFile path (ofText text file?) text.toList
  unfold tokenize at h ⊢
  cases hres : (ofText text file?).scan text.toList with
  | ok u s₀ =>
    rw [hres] at h
    cases h
  | error fault s₀ =>
    rw [hres] at h hscan
    cases h
    rw [ofText_inFile] at hscan
    rw [hscan]
    rfl

end LoxExpr
