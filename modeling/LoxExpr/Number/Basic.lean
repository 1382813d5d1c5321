/-!
# Double-precision numbers

A number is a sign and a magnitude. The magnitudes of the binary64 format stand in one ascending
list: zero, the subnormal and the normal magnitudes, infinity, and after it the codes that are not a
number. A number keeps the place of its magnitude in that list, which is also how the format lays
out its bits.

Every finite magnitude is a whole number of steps of 2^-1074, the smallest magnitude above zero. All
arithmetic on numbers is done exactly, on natural numbers of steps (`stepsAt`).
-/

namespace LoxExpr

/-- The number of places, those of the codes that are not a number included: 2^63. -/
def Number.placeCount : Nat := 1 <<< 63

/-- A double-precision number: its sign, and the place of its magnitude among all magnitudes. -/
structure Number where
  negative : Bool
  place : Fin Number.placeCount
deriving DecidableEq, Repr

namespace Number

/-- The places of a block, in which all magnitudes are the same distance apart: 2^52. -/
def blockSize : Nat := 1 <<< 52

/-- The place of infinity: 2047 blocks of finite magnitudes come before it. -/
def infinityPlace : Nat := 2047 * blockSize

/-- The steps of 2^-1074 in one. -/
def stepsInOne : Nat := 1 <<< 1074

/--
The finite magnitude at a place, in steps of 2^-1074. The first two blocks go up by one step; from
there each block starts at a power of two and goes up by twice the increment of the last.
-/
def stepsAt (place : Nat) : Nat :=
  if place / blockSize = 0 then place
  else (blockSize + place % blockSize) <<< (place / blockSize - 1)

/-- The number of steps in the magnitude of a finite number. -/
def steps (x : Number) : Nat :=
  stepsAt x.place

/-- Is it one of the codes that stand for no number? -/
def isNaN (x : Number) : Bool :=
  infinityPlace < x.place.val

def isInfinite (x : Number) : Bool :=
  x.place.val = infinityPlace

/-- Is it zero, of either sign? -/
def isZero (x : Number) : Bool :=
  x.place.val = 0

/-- Does the number print as digits: is it neither infinite nor a code for no number? -/
def isFinite (x : Number) : Bool :=
  x.place.val < infinityPlace

/-- The number with its sign turned. -/
def negate (x : Number) : Number :=
  { x with negative := !x.negative }

/-- The place that the lower 63 bits of a number give. -/
def placeOf (n : Nat) : Fin placeCount :=
  ⟨n % placeCount, Nat.mod_lt _ (by decide)⟩

/-- The number without sign whose magnitude stands at a place. Places run only to the last code. -/
def ofPlace (place : Nat) : Number :=
  ⟨false, placeOf place⟩

def infinity : Number := ofPlace infinityPlace

/-- The quiet code for no number, which has the first fraction bit set. -/
def nan : Number := ofPlace (infinityPlace + blockSize / 2)

/--
Equality of values: a code for no number equals nothing, not even itself, and the two zeros are
equal.
-/
def equals (x y : Number) : Bool :=
  !x.isNaN && !y.isNaN && (x == y || (x.isZero && y.isZero))

/-- The number that 64 bits stand for: the sign in the top bit, the place in the others. -/
def ofBits (bits : UInt64) : Number :=
  ⟨decide (placeCount ≤ bits.toNat), placeOf bits.toNat⟩

/-- The 64 bits that stand for a number. -/
def bits (x : Number) : UInt64 :=
  UInt64.ofNat ((if x.negative then placeCount else 0) + x.place)

end Number

end LoxExpr
