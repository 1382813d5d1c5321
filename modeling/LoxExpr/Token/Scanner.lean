import LoxExpr.Event
import LoxExpr.Token.Pattern

/-!
# Scanning

A scanner is a place in a source text together with the tokens found so far. `step` takes one lexeme
off the text that is left, and `scan` repeats that until nothing is left or a step fails; `tokenize`
does so from the start of a source, and ends the tokens with the end of input. The scanner comes
back in both cases, with what it has found and logged up to there.
-/

namespace LoxExpr

/--
A scan in progress: the source with its name, the byte offset reached, the tokens and the log.
-/
structure Scanner where
  text : String
  file : String
  offset : Nat
  tokens : Array Token
  log : Array Event
deriving DecidableEq, Repr

namespace Scanner

/-- The name of a source that comes without one. -/
def defaultFile : String := "shell"

/-- A scanner at the start of a source. -/
def ofText (text : String) (file? : Option String) : Scanner :=
  ⟨text, file?.getD defaultFile, 0, #[], #[]⟩

/-- Moves on by `n` bytes, whatever stands there. -/
def advance (s : Scanner) (n : Nat) : Scanner :=
  { s with offset := s.offset + n }

/-- The text that is left. There is none past the end, nor inside a character. -/
def remainder? (s : Scanner) : Option (List Char) :=
  Text.dropBytes? s.offset s.text.toList

/-- Is nothing left? -/
def atEnd (s : Scanner) : Bool :=
  s.text.utf8ByteSize ≤ s.offset

/-- Where the scanner is. -/
def position (s : Scanner) : Position :=
  ⟨s.offset.toUInt32, s.file⟩

/-- The span of the next `n` bytes. -/
def spanOf (s : Scanner) (n : Nat) : Span :=
  ⟨s.position, (s.advance n).position⟩

/-- Adds a token to those found. -/
def push (s : Scanner) (token : Token) : Scanner :=
  { s with tokens := s.tokens.push token, log := s.log.push (.lexed token) }

/-- Notes an event. -/
def record (s : Scanner) (event : Event) : Scanner :=
  { s with log := s.log.push event }

/-- Takes a lexeme of a pattern: it is left out, or becomes a token, or is a fault. -/
def take (s : Scanner) (pattern : Pattern) (lexeme : List Char) :
    EStateM.Result Fault Scanner Unit :=
  let size := Text.byteLength lexeme
  match pattern.read (String.ofList lexeme) with
  | .skip => .ok () (s.advance size)
  | .token kind literal =>
    .ok () ((s.push ⟨kind, String.ofList lexeme, literal, s.spanOf size⟩).advance size)
  | .fault cause => .error ⟨cause, s.position⟩ s

/--
Takes the lexeme of the first pattern that applies to the text that is left, and yields what is left
then. The first character is at fault if no pattern applies.
-/
def step (s : Scanner) (left : List Char) : EStateM.Result Fault Scanner (List Char) :=
  match Pattern.first? left with
  | some (pattern, lexeme, rest) =>
    match s.take pattern lexeme with
    | .ok () s' => .ok rest s'
    | .error fault s' => .error fault s'
  | none => .error ⟨.unrecognised (String.ofList (left.take 1)), s.position⟩ s

/-- Every step leaves less text. -/
theorem length_lt_of_step {s s' : Scanner} {left left' : List Char}
    (h : s.step left = .ok left' s') : left'.length < left.length := by
  unfold step at h
  split at h
  · rename_i first
    split at h <;> cases h
    exact Pattern.length_lt_of_first? first
  · cases h

/-- Scans the text that is left, from where the scanner is. -/
def scan (s : Scanner) (left : List Char) : EStateM.Result Fault Scanner Unit :=
  if left = [] then .ok () s
  else
    match _ : s.step left with
    | .ok left' s' => scan s' left'
    | .error fault s' => .error fault s'
termination_by left.length
decreasing_by exact length_lt_of_step (by assumption)

/-- Ends the tokens with the end of input, where the scanner is. -/
def finish (s : Scanner) : Scanner :=
  let s := s.push (Token.endOfInput s.position)
  s.record (.tokenized s.file s.tokens.size)

end Scanner

/--
Scans a whole source. The scanner that comes back holds the log, and all tokens before a fault.
-/
def tokenize (text : String) (file? : Option String) :
    EStateM.Result Fault Scanner (Array Token) :=
  match (Scanner.ofText text file?).scan text.toList with
  | .ok () s => .ok s.finish.tokens s.finish
  | .error fault s => .error fault s

end LoxExpr
