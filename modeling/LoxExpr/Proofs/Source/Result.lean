import LoxExpr.Grammar.Descent

/-!
# What a source comes to

A source has a tree if it scans and its tokens parse, and otherwise it has the fault of the first of
the two that fails (`parseSource_eq_ok_iff`, `parseSource_eq_error_iff`). What a given source fails
with can be computed, and `Fault.ofResult?` reads it off.
-/

namespace LoxExpr

/-- The fault that there is in place of a value, if there is one. -/
def Fault.ofResult? {α : Type} : Except Fault α → Option Fault
  | .ok _ => none
  | .error fault => some fault

/-- Faults have decidable equality and trees need none, so a failure is decided by its fault. -/
theorem Fault.ofResult?_eq_some_iff {α : Type} {r : Except Fault α} {fault : Fault} :
    Fault.ofResult? r = some fault ↔ r = .error fault := by
  cases r <;> simp [Fault.ofResult?]

variable {text : String} {file? : Option String} {limit : Nat}

/-- A source has a tree exactly if it scans and its tokens have that tree. -/
theorem parseSource_eq_ok_iff {e : Expr} : parseSource text file? limit = .ok e ↔
    ∃ tokens s q, tokenize text file? = .ok tokens s ∧ parse tokens limit = .ok e q := by
  rw [parseSource]
  cases hscan : tokenize text file? with
  | error fault s => simp
  | ok tokens s =>
    cases hparse : parse tokens limit with
    | ok e' q => simp [hparse]
    | error fault q => simp [hparse]

/-- A source does not parse because it does not scan, or because its tokens do not parse. -/
theorem parseSource_eq_error_iff {fault : Fault} : parseSource text file? limit = .error fault ↔
    (∃ s, tokenize text file? = .error fault s) ∨
      ∃ tokens s q, tokenize text file? = .ok tokens s ∧ parse tokens limit = .error fault q := by
  rw [parseSource]
  cases hscan : tokenize text file? with
  | error fault' s => simp
  | ok tokens s =>
    cases hparse : parse tokens limit with
    | ok e q => simp [hparse]
    | error fault' q => simp [hparse]

end LoxExpr
