import LoxExpr.Number.Rounding

/-!
# Shortest decimals

A number is shown by the decimal with the fewest digits that reads back as the number itself. Of two
such decimals the nearer is shown, and of two at the same distance the greater. It is always written
positionally, without an exponent.

The search goes over ever finer grids of powers of ten, and on each grid it tries the two neighbours
of the number: if any point of a grid reads back, one of those two does. Whatever the search yields
has been read back on the way.
-/

namespace LoxExpr.Number

/-- How many decimal digits a natural number has; zero has one. -/
def digitCount (n : Nat) : Nat :=
  (Nat.toDigits 10 n).length

/--
The least power of ten above a magnitude other than zero, by its exponent. Above one, that is the
digit count of the whole part; below one, it is found from the inverse.
-/
def magnitudeScale (steps : Nat) : Int :=
  if stepsInOne ≤ steps then digitCount (steps / stepsInOne)
  else 1 - digitCount ((stepsInOne - 1) / steps)

/--
The better of the two multiples of `10 ^ exponent` around a number, among those that read back as
the number. The greater one is taken at the same distance.
-/
def onGrid? (x : Number) (exponent : Int) : Option Decimal :=
  let num := x.steps * tenTo (-exponent).toNat
  let den := stepsInOne * tenTo exponent.toNat
  let low : Decimal := ⟨num / den, exponent⟩
  let high : Decimal := ⟨num / den + 1, exponent⟩
  match decide (ofDecimal low = x), decide (ofDecimal high = x) with
  | true, true => some (if 2 * (num % den) < den then low else high)
  | true, false => some low
  | false, true => some high
  | false, false => none

/-- A power of five. -/
def fiveTo (n : Nat) : Nat :=
  Nat.pow 5 n

/--
A magnitude digit by digit, to the last: `steps / 2 ^ 1074` is `steps * 5 ^ 1074 / 10 ^ 1074`.
-/
def exactDecimal (x : Number) : Decimal :=
  ⟨x.steps * fiveTo 1074, -1074⟩

/--
The shortest decimal of a finite number without sign, other than zero. Seventeen digits always
suffice; the exact decimal is there so that the search needs no proof of that.
-/
def shortest (x : Number) : Decimal :=
  let scale := magnitudeScale x.steps
  ((List.range 18).findSome? fun (n : Nat) => onGrid? x (scale - n)).getD (exactDecimal x)

/--
A decimal in positional notation: all digits of the whole part, and those of the fraction if any.
-/
def positional (d : Decimal) : List Char :=
  if 0 ≤ d.exponent then Nat.toDigits 10 (d.digits * tenTo d.exponent.toNat)
  else
    let places := (-d.exponent).toNat
    let fraction := Nat.toDigits 10 (d.digits % tenTo places)
    Nat.toDigits 10 (d.digits / tenTo places) ++ ['.'] ++
      List.replicate (places - fraction.length) '0' ++ fraction

/-- A number without sign, in characters. -/
def displayMagnitude (x : Number) : List Char :=
  if x.isZero then ['0']
  else if x.isInfinite then ['i', 'n', 'f']
  else positional (shortest x)

/-- The text of a number. A negative zero keeps its sign; a code for no number has none. -/
def display (x : Number) : String :=
  if x.isNaN then "NaN"
  else if x.negative then String.ofList ('-' :: displayMagnitude { x with negative := false })
  else String.ofList (displayMagnitude x)

end LoxExpr.Number
