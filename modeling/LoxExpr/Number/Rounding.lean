import LoxExpr.Number.Basic

/-!
# Rounding to the nearest number

A quotient of two natural numbers is rounded to the nearest magnitude, and a quotient halfway
between two of them to the one with the even place. Quotients beyond the largest magnitude go to
infinity.
-/

namespace LoxExpr.Number

/-- The natural number nearest to a quotient; of two at the same distance, the even one. -/
def divNearest (num den : Nat) : Nat :=
  if 2 * (num % den) < den ∨ (2 * (num % den) = den ∧ num / den % 2 = 0) then num / den
  else num / den + 1

/--
The place of the magnitude nearest to a quotient. The quotient is counted in steps; if that takes
more than 53 bits, all bits after the 53rd are rounded away, and each of them moves the place up one
block. A carry out of the 53 bits leads to the first place of the next block by itself.
-/
def nearestPlace (num den : Nat) : Nat :=
  let scaled := num * stepsInOne
  let spare := (scaled / den).log2 - 52
  min infinityPlace (spare * blockSize + divNearest scaled (den <<< spare))

/-- A power of ten. -/
def tenTo (n : Nat) : Nat :=
  Nat.pow 10 n

/-- A decimal: `digits * 10 ^ exponent`. -/
structure Decimal where
  digits : Nat
  exponent : Int
deriving DecidableEq, Repr

/--
The number nearest to a decimal. Two bounds keep the powers of ten small: above 10^310 every decimal
but zero is infinite, and `digits * 10 ^ exponent` is below half a step, hence zero, if even
`2 ^ (log2 digits + 1) * 8 ^ exponent` is at most that.
-/
def ofDecimal (d : Decimal) : Number :=
  if d.digits = 0 then ofPlace 0
  else if 310 < d.exponent then infinity
  else if (d.digits.log2 : Int) + 1 + 1075 ≤ -3 * d.exponent then ofPlace 0
  else ofPlace (nearestPlace (d.digits * tenTo d.exponent.toNat) (tenTo (-d.exponent).toNat))

end LoxExpr.Number
