import LoxExpr.Fault
import LoxExpr.Text.Blank
import LoxExpr.Text.Bytes
import LoxExpr.Token.Basic

/-!
# Lexical patterns

A pattern splits a text into a lexeme at its start and the rest, or does not apply. `Pattern.table`
gives the patterns in the order in which they are tried, and `Pattern.first?` the first that
applies. A text with a first pattern always gets shorter (`length_lt_of_first?`), so scanning ends.
-/

namespace LoxExpr

/-- The lexical classes of the language. -/
inductive Pattern where
  /-- A letter or underscore, and all letters, digits and underscores that follow. -/
  | word
  /-- Digits, and a fraction if a point has digits on both sides. -/
  | numeral
  /-- White space. -/
  | blank
  /-- A string with both its quotes. It has no escapes, and may run over lines. -/
  | string
  /-- A quote that opens a string without end. -/
  | openQuote
  /-- Two slashes, and everything up to the end of the line. -/
  | comment
  /-- The fixed text of a punctuation kind. -/
  | fixed (kind : Kind)
deriving DecidableEq, Repr

namespace Pattern

/-- Letters are the ASCII ones, and the underscore counts as one. -/
def isWordStart (c : Char) : Bool :=
  c.isAlpha || c = '_'

def isWordPart (c : Char) : Bool :=
  isWordStart c || c.isDigit

/-- The longest run of characters of a class at the start of a text, unless that is empty. -/
def run? (p : Char → Bool) (cs : List Char) : Option (List Char × List Char) :=
  if cs.takeWhile p = [] then none else some (cs.takeWhile p, cs.dropWhile p)

/-- A fixed text at the start of a text. -/
def exactly? (lexeme cs : List Char) : Option (List Char × List Char) :=
  if lexeme ≠ [] ∧ lexeme <+: cs then some (lexeme, cs.drop lexeme.length) else none

/--
The point and the digits after it, and the rest; nothing and the text if no digit comes there.
-/
def splitFraction (cs : List Char) : List Char × List Char :=
  match cs with
  | '.' :: afterPoint =>
    match run? Char.isDigit afterPoint with
    | some (digits, rest) => ('.' :: digits, rest)
    | none => ([], cs)
  | _ => ([], cs)

/-- The lexeme of a pattern at the start of a text and what follows it, if the pattern applies. -/
def split? : Pattern → List Char → Option (List Char × List Char)
  | .word, cs =>
    match cs with
    | c :: _ => if isWordStart c then run? isWordPart cs else none
    | [] => none
  | .numeral, cs =>
    (run? Char.isDigit cs).map fun (whole, afterWhole) =>
      let (fraction, rest) := splitFraction afterWhole
      (whole ++ fraction, rest)
  | .blank, cs => run? Text.isBlank cs
  | .string, cs =>
    match cs with
    | '"' :: afterQuote =>
      match afterQuote.dropWhile (· ≠ '"') with
      | quote :: rest => some ('"' :: afterQuote.takeWhile (· ≠ '"') ++ [quote], rest)
      | [] => none
    | _ => none
  | .openQuote, cs => exactly? ['"'] cs
  | .comment, cs =>
    match cs with
    | '/' :: '/' :: rest =>
      some ('/' :: '/' :: rest.takeWhile (· ≠ '\n'), rest.dropWhile (· ≠ '\n'))
    | _ => none
  | .fixed kind, cs =>
    match kind.spelling? with
    | some spelling => exactly? spelling.toList cs
    | none => none

/--
The patterns in the order in which they are tried. A string comes before a lone quote, a comment
before a slash, and an operator of two characters before the one that is its first character.
-/
def table : List Pattern := [
  .word, .numeral, .blank, .string, .openQuote, .comment,
  .fixed .openParen, .fixed .closeParen, .fixed .openCurly, .fixed .closeCurly,
  .fixed .comma, .fixed .dot, .fixed .semicolon,
  .fixed .dash, .fixed .plus, .fixed .slash, .fixed .star,
  .fixed .notEquals, .fixed .not, .fixed .equals, .fixed .assignment,
  .fixed .greaterEquals, .fixed .greater, .fixed .lessEquals, .fixed .less]

/-- The first pattern of the table that applies, with the lexeme and the rest of the text. -/
def first? (cs : List Char) : Option (Pattern × List Char × List Char) :=
  table.findSome? fun p => (p.split? cs).map fun parts => (p, parts)

/-! ### A split loses nothing and moves on -/

/-- A run is the text it is taken from, cut behind its last character, and has a first one. -/
theorem eq_append_of_run? {p : Char → Bool} {cs lexeme rest : List Char}
    (h : run? p cs = some (lexeme, rest)) : lexeme ++ rest = cs ∧ lexeme ≠ [] := by
  rw [run?] at h
  split at h
  · cases h
  · rename_i nonempty
    cases h
    exact ⟨List.takeWhile_append_dropWhile, nonempty⟩

/-- A fixed text is found at the start of what follows, and is not empty. -/
theorem eq_append_of_exactly? {text cs lexeme rest : List Char}
    (h : exactly? text cs = some (lexeme, rest)) : lexeme ++ rest = cs ∧ lexeme ≠ [] := by
  rw [exactly?] at h
  split at h
  · rename_i applies
    cases h
    exact ⟨List.prefix_iff_eq_append.mp applies.2, applies.1⟩
  · cases h

/-- Decimal places are cut off, not changed. -/
theorem splitFraction_append (cs : List Char) :
    (splitFraction cs).1 ++ (splitFraction cs).2 = cs := by
  unfold splitFraction
  split
  · split
    · rename_i h
      simp [(eq_append_of_run? h).1]
    · rfl
  · rfl

/-- Lexeme and rest are the text that was split, and the lexeme is never empty. -/
theorem eq_append_of_split? {p : Pattern} {cs lexeme rest : List Char}
    (h : p.split? cs = some (lexeme, rest)) : lexeme ++ rest = cs ∧ lexeme ≠ [] := by
  -- by pattern; each case is one of the lemmas above, or quotes around what has none
  unfold split? at h
  split at h
  · split at h
    · split at h
      · exact eq_append_of_run? h
      · cases h
    · cases h
  · obtain ⟨⟨whole, afterWhole⟩, hrun, heq⟩ := Option.map_eq_some_iff.mp h
    obtain ⟨happ, hne⟩ := eq_append_of_run? hrun
    simp only [Prod.mk.injEq] at heq
    obtain ⟨rfl, rfl⟩ := heq
    exact ⟨by rw [List.append_assoc, splitFraction_append, happ], by simp [hne]⟩
  · exact eq_append_of_run? h
  · split at h
    · rename_i afterQuote
      split at h
      · rename_i quote rest' hdrop
        cases h
        refine ⟨?_, by simp⟩
        rw [List.cons_append, List.cons_append, List.append_assoc, List.singleton_append, ← hdrop,
          List.takeWhile_append_dropWhile]
      · cases h
    · cases h
  · exact eq_append_of_exactly? h
  · split at h
    · cases h
      simp
    · cases h
  · split at h
    · exact eq_append_of_exactly? h
    · cases h

/-- The pattern that is found first does match. -/
theorem split?_of_first? {p : Pattern} {cs lexeme rest : List Char}
    (h : first? cs = some (p, lexeme, rest)) : p.split? cs = some (lexeme, rest) := by
  obtain ⟨q, -, hq⟩ := List.exists_of_findSome?_eq_some h
  obtain ⟨parts, hparts, heq⟩ := Option.map_eq_some_iff.mp hq
  cases heq
  exact hparts

/-- A lexeme takes at least one character, so less is left behind it. -/
theorem length_lt_of_first? {p : Pattern} {cs lexeme rest : List Char}
    (h : first? cs = some (p, lexeme, rest)) : rest.length < cs.length := by
  obtain ⟨happ, hne⟩ := eq_append_of_split? (split?_of_first? h)
  rw [← happ, List.length_append]
  have := List.length_pos_iff.mpr hne
  omega

/-! ### What a lexeme means -/

/-- What becomes of a lexeme: it is left out, it is a token, or it is a fault. -/
inductive Reading where
  | skip
  | token (kind : Kind) (literal : Option Literal)
  | fault (cause : Cause)
deriving DecidableEq, Repr

/-- A word is a reserved word or an identifier. Three reserved words are literals. -/
def readWord (lexeme : String) : Reading :=
  match Kind.ofReserved? lexeme with
  | some .kwTrue => .token .kwTrue (some (.boolean true))
  | some .kwFalse => .token .kwFalse (some (.boolean false))
  | some .kwNil => .token .kwNil (some .nil)
  | some kind => .token kind none
  | none => .token .identifier none

/-- The text of a lexeme without its first and its last character. -/
def inner (lexeme : String) : String :=
  String.ofList (lexeme.toList.drop 1).dropLast

/-- The reading of a lexeme of the pattern. The lexeme of a string has a quote at either end. -/
def read (p : Pattern) (lexeme : String) : Reading :=
  match p with
  | .word => readWord lexeme
  | .numeral =>
    match Number.read? lexeme with
    | some value => .token .number (some (.number value))
    | none => .fault (.badNumber lexeme)
  | .blank => .skip
  | .string => .token .string (some (.string (inner lexeme)))
  | .openQuote => .fault .unterminatedString
  | .comment => .skip
  | .fixed kind => .token kind none

end Pattern

end LoxExpr
