import LoxExpr.Number.Rounding

/-!
# Reading numbers

A number is written as an optional sign and a magnitude: digits with an optional point and fraction,
of which at least one digit must be there, an optional exponent, or one of the words for infinity
and for no number, in any case. Nothing may stand around it. The value is the number nearest to the
decimal.
-/

namespace LoxExpr.Number

/-- The value of an ASCII digit. -/
def digitValue (c : Char) : Nat :=
  c.toNat - '0'.toNat

/-- The natural number that a run of digits writes in base ten. -/
def digitsValue (ds : List Char) : Nat :=
  ds.foldl (fun n c => 10 * n + digitValue c) 0

/--
The natural number that the digits of an exponent write. It stops growing once it has passed 65535,
where every magnitude is already zero or infinite.
-/
def exponentValue (ds : List Char) : Nat :=
  ds.foldl (fun n c => if n < 65536 then 10 * n + digitValue c else n) 0

/-- A non-empty run of digits that is the whole text. -/
def exponentDigits? (cs : List Char) : Option Nat :=
  if cs ≠ [] ∧ cs.all Char.isDigit then some (exponentValue cs) else none

/-- What may follow the digits of a magnitude: nothing, or a signed exponent. -/
def exponent? : List Char → Option Int
  | [] => some 0
  | mark :: rest =>
    if mark = 'e' ∨ mark = 'E' then
      match rest with
      | '-' :: ds => (exponentDigits? ds).map fun n => -(n : Int)
      | '+' :: ds => (exponentDigits? ds).map fun n => (n : Int)
      | ds => (exponentDigits? ds).map fun n => (n : Int)
    else none

/-- The digits of a text up to the first other character, and the text from there on. -/
def spanDigits (cs : List Char) : List Char × List Char :=
  (cs.takeWhile Char.isDigit, cs.dropWhile Char.isDigit)

/-- A magnitude in digits. -/
def decimal? (cs : List Char) : Option Decimal :=
  let (whole, afterWhole) := spanDigits cs
  let (fraction, rest) :=
    match afterWhole with
    | '.' :: afterPoint => spanDigits afterPoint
    | rest => ([], rest)
  if whole ++ fraction = [] then none
  else (exponent? rest).map fun e => ⟨digitsValue (whole ++ fraction), e - fraction.length⟩

/-- A magnitude in words. -/
def namedMagnitude? (cs : List Char) : Option Number :=
  match String.ofList (cs.map Char.toLower) with
  | "inf" | "infinity" => some infinity
  | "nan" => some nan
  | _ => none

/-- A number without sign. -/
def magnitude? (cs : List Char) : Option Number :=
  (decimal? cs).map ofDecimal <|> namedMagnitude? cs

/-- The number that a text writes. -/
def read? (text : String) : Option Number :=
  match text.toList with
  | '-' :: cs => (magnitude? cs).map negate
  | '+' :: cs => magnitude? cs
  | cs => magnitude? cs

end LoxExpr.Number
