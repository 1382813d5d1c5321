import LoxExpr.Fault
import LoxExpr.Text.Blank
import LoxExpr.Text.Line

/-!
# Diagnostics

A fault is shown in five lines: what it is, the file, a gutter, the line of the source that holds
its position, and a caret below that line:

```text
Error: UnclosedGrouping (This `(` is never closed, add a `)`)
-> expr.lox
  |
1 | (1 + 2
  | ^
```

The line is shown without its leading spaces and without the white space at its end. The caret
stands as many columns in as the position has bytes before it on its line, less the spaces left out.
-/

namespace LoxExpr.Fault

/-- The first line: the name of the fault, and the advice if there is any. -/
def header (f : Fault) : String :=
  match f.cause.tip? with
  | some tip => "Error: " ++ f.cause.name ++ " (" ++ tip ++ ")"
  | none => "Error: " ++ f.cause.name

/-- The bar beside an excerpt, in the column that it has after the line number. -/
def gutter (number : Nat) : String :=
  String.ofList (List.replicate ((toString number).length + 1) ' ') ++ "|"

/-- The excerpt of a place, with a caret under it. -/
def excerpt (place : Text.Place) : List String :=
  let shown := place.line.dropWhile (· = ' ')
  let indent := place.line.length - shown.length
  [gutter place.number,
    toString place.number ++ " | " ++ String.ofList (Text.trimEnd shown),
    gutter place.number ++ " " ++
      String.ofList (List.replicate (place.column - indent) '-') ++ "^"]

/-- The lines of the diagnostic. A position past the end of the source has no excerpt. -/
def report (f : Fault) (source : String) : List String :=
  [f.header, "-> " ++ f.position.file] ++
    match Text.place? source.toList f.position.offset.toNat with
    | some place => excerpt place
    | none => ["   at offset " ++ toString f.position.offset]

/-- The diagnostic of a fault in a source, each line with its line feed. -/
def render (f : Fault) (source : String) : String :=
  String.join ((f.report source).map (· ++ "\n"))

end LoxExpr.Fault
