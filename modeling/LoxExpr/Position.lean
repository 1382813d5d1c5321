/-!
# Positions and spans

A position is a byte offset in a named source. Offsets are kept in 32 bits: a scan that runs past
that range counts on from zero.
-/

namespace LoxExpr

/-- A byte offset into a named source. -/
structure Position where
  offset : UInt32
  file : String
deriving DecidableEq, Repr

/-- The stretch of a source from one position up to another. -/
structure Span where
  start : Position
  stop : Position
deriving DecidableEq, Repr

end LoxExpr
