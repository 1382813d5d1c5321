import LoxExpr.Text.Bytes

/-!
# Lines of a text

A line runs up to and with its line feed; only the last line of a text may lack one. `place?` finds
the line that holds a byte offset. The end of a text belongs to its last line if that is not
terminated, and otherwise to the empty line after it.
-/

namespace LoxExpr.Text

/-- The lines of a text, each with its line feed. The empty text has none. -/
def lines : List Char → List (List Char)
  | [] => []
  | c :: cs =>
    if c = '\n' then [c] :: lines cs
    else
      match lines cs with
      | [] => [[c]]
      | line :: rest => (c :: line) :: rest

/-- The lines are the text, cut into pieces. -/
theorem flatten_lines (cs : List Char) : (lines cs).flatten = cs := by
  induction cs with
  | nil => rfl
  | cons c cs ih =>
    rw [lines]
    split
    · simp [ih]
    · split
      · rename_i h
        simp [h] at ih
        simp [← ih]
      · rename_i h
        -- the character goes in front of the first line, which it cannot end
        simp [h] at ih
        simp [ih]

/--
A byte of a text, by its line: the line's number from one, its characters, and the bytes before.
-/
structure Place where
  number : Nat
  line : List Char
  column : Nat
deriving DecidableEq, Repr

/--
The place `offset` bytes after the start of the given lines, of which the first has the given
number. An offset that a line does not reach is looked for in the next; at the end of the text an
unterminated line keeps the offset to itself.
-/
def placeIn (number offset : Nat) : List (List Char) → Place
  | [] => ⟨number, [], 0⟩
  | line :: rest =>
    if offset < byteLength line ∨ line.getLast? ≠ some '\n' then ⟨number, line, offset⟩
    else placeIn (number + 1) (offset - byteLength line) rest

/-- The place of a byte offset. Only offsets past the end have none. -/
def place? (text : List Char) (offset : Nat) : Option Place :=
  if byteLength text < offset then none else some (placeIn 1 offset (lines text))

/-- Only an offset past the end of the text has no place. -/
theorem place?_eq_none_iff {text : List Char} {offset : Nat} :
    place? text offset = none ↔ byteLength text < offset := by
  rw [place?]
  split <;> simp_all

end LoxExpr.Text
