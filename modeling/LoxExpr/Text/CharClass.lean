/-!
# Character classes

A class of characters is a table of closed ranges of code points, in ascending order. The modules
that hold such tables are named for the property that the class stands for.
-/

namespace LoxExpr.Text

/-- A class of characters, given by closed ranges of code points. -/
structure CharClass where
  ranges : List (Nat × Nat)

/-- Does the class hold the character? -/
def CharClass.contains (k : CharClass) (c : Char) : Bool :=
  k.ranges.any fun r => r.1 ≤ c.toNat && c.toNat ≤ r.2

/-- A character is in a class exactly if one of the ranges spans its code point. -/
theorem CharClass.contains_iff {k : CharClass} {c : Char} :
    k.contains c = true ↔ ∃ r ∈ k.ranges, r.1 ≤ c.toNat ∧ c.toNat ≤ r.2 := by
  simp [CharClass.contains]

end LoxExpr.Text
