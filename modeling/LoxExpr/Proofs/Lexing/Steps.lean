import LoxExpr.Token.Scanner

/-!
# Runs of the scanner

A scan is a sequence of steps. `Scanner.Steps` is the relation that successful steps give, from a
scanner and the text that is left to it, to a later scanner and the text left then. A scan succeeds
where steps use the text up (`scan_eq_ok_iff`), and fails where they lead to one that fails
(`scan_eq_error_iff`). What one step does is said once, by `step_eq_ok_iff`.
-/

namespace LoxExpr.Scanner

variable {s s' s'' : Scanner} {left left' left'' : List Char}

/-! ## One step -/

/-- What the scanner becomes when it takes a lexeme that is left out. -/
def skipped (s : Scanner) (lexeme : List Char) : Scanner :=
  s.advance (Text.byteLength lexeme)

/-- The token that a lexeme becomes where the scanner is. -/
def tokenAt (s : Scanner) (kind : Kind) (lexeme : List Char) (literal : Option Literal) : Token :=
  ⟨kind, String.ofList lexeme, literal, s.spanOf (Text.byteLength lexeme)⟩

/--
A step takes the lexeme of the first pattern that applies, and leaves it out or pushes a token.
-/
theorem step_eq_ok_iff :
    s.step left = .ok left' s' ↔ ∃ p lexeme, Pattern.first? left = some (p, lexeme, left') ∧
      ((p.read (String.ofList lexeme) = .skip ∧ s' = s.skipped lexeme) ∨
        ∃ kind literal, p.read (String.ofList lexeme) = .token kind literal ∧
          s' = (s.push (s.tokenAt kind lexeme literal)).skipped lexeme) := by
  constructor
  · intro h
    rw [step] at h
    split at h
    · -- a pattern applies, and what is left does not depend on how its lexeme is read
      rename_i p lexeme rest hfirst
      refine ⟨p, lexeme, ?_⟩
      rw [take] at h
      split at h
      · rename_i htake
        cases h
        refine ⟨hfirst, ?_⟩
        split at htake
        · rename_i hread
          cases htake
          exact Or.inl ⟨hread, rfl⟩
        · rename_i kind literal hread
          cases htake
          exact Or.inr ⟨kind, literal, hread, rfl⟩
        · cases htake
      · cases h
    · cases h
  · rintro ⟨p, lexeme, hfirst, ⟨hread, rfl⟩ | ⟨kind, literal, hread, rfl⟩⟩
    · rw [step, hfirst]
      simp only [take, hread]
      rfl
    · rw [step, hfirst]
      simp only [take, hread]
      rfl

/-- A step keeps the source, and moves the offset to where its lexeme ends. -/
theorem frame_of_step {p : Pattern} {lexeme : List Char} (h : s.step left = .ok left' s')
    (hfirst : Pattern.first? left = some (p, lexeme, left')) :
    s'.text = s.text ∧ s'.file = s.file ∧ s'.offset = s.offset + Text.byteLength lexeme := by
  obtain ⟨_, _, hfound, hcases⟩ := step_eq_ok_iff.mp h
  cases hfirst.symm.trans hfound
  rcases hcases with ⟨-, rfl⟩ | ⟨kind, literal, -, rfl⟩
  · exact ⟨rfl, rfl, rfl⟩
  · exact ⟨rfl, rfl, rfl⟩

theorem step_nil (s : Scanner) : s.step [] = .error ⟨.unrecognised "", s.position⟩ s := rfl

theorem ne_nil_of_step (h : s.step left = .ok left' s') : left ≠ [] := by
  rintro rfl
  rw [step_nil] at h
  cases h

/-! ## Many steps -/

/-- What successful steps make of a scanner and of the text that is left to it. -/
inductive Steps : Scanner → List Char → Scanner → List Char → Prop where
  | done (s : Scanner) (left : List Char) : Steps s left s left
  | more {s s' s'' : Scanner} {left left' left'' : List Char} (hstep : s.step left = .ok left' s')
      (hsteps : Steps s' left' s'' left'') : Steps s left s'' left''

theorem Steps.trans (h : Steps s left s' left') (h' : Steps s' left' s'' left'') :
    Steps s left s'' left'' := by
  induction h with
  | done s left => exact h'
  | more hstep hsteps ih => exact .more hstep (ih h')

theorem scan_nil (s : Scanner) : s.scan [] = .ok () s := by
  rw [scan, if_pos rfl]

/-- A scan goes on from where a step has led. -/
theorem scan_of_step_ok (h : s.step left = .ok left' s') : s.scan left = s'.scan left' := by
  rw [scan, if_neg (ne_nil_of_step h)]
  split
  · rename_i hstep
    cases h.symm.trans hstep
    rfl
  · rename_i hstep
    cases h.symm.trans hstep

/-- A scan fails where a step does. -/
theorem scan_of_step_error {fault : Fault} (hne : left ≠ []) (h : s.step left = .error fault s') :
    s.scan left = .error fault s' := by
  rw [scan, if_neg hne]
  split
  · rename_i hstep
    cases h.symm.trans hstep
  · rename_i hstep
    cases h.symm.trans hstep
    rfl

/-- Steps that have been made leave the outcome of the scan as it is. -/
theorem Steps.scan_eq (h : Steps s left s' left') : s.scan left = s'.scan left' := by
  induction h with
  | done s left => rfl
  | more hstep hsteps ih => rw [scan_of_step_ok hstep, ih]

/-- Where the scan ends: the steps use up the text, or lead to one that fails. -/
theorem scan_cases (s : Scanner) (left : List Char) :
    (∃ s', Steps s left s' [] ∧ s.scan left = .ok () s') ∨
      ∃ s' left' fault s'', Steps s left s' left' ∧ left' ≠ [] ∧
        s'.step left' = .error fault s'' ∧ s.scan left = .error fault s'' := by
  by_cases hne : left = []
  · subst hne
    exact Or.inl ⟨s, .done s [], scan_nil s⟩
  · cases hstep : s.step left with
    | error fault s'' =>
      exact Or.inr ⟨s, left, fault, s'', .done s left, hne, hstep, scan_of_step_error hne hstep⟩
    | ok left₁ s₁ =>
      rw [scan_of_step_ok hstep]
      -- a step takes a lexeme off the text, and no lexeme is empty
      have hlt := length_lt_of_step hstep
      rcases scan_cases s₁ left₁ with ⟨s', hsteps, hscan⟩ | ⟨s', left', fault, s'', hsteps, hrest⟩
      · exact Or.inl ⟨s', .more hstep hsteps, hscan⟩
      · exact Or.inr ⟨s', left', fault, s'', .more hstep hsteps, hrest⟩
termination_by left.length

/-- A scan succeeds exactly if steps lead through the whole text. -/
theorem scan_eq_ok_iff : s.scan left = .ok () s' ↔ Steps s left s' [] := by
  constructor
  · intro h
    rcases scan_cases s left with ⟨s₁, hsteps, hscan⟩ | ⟨_, _, _, _, -, -, -, hscan⟩
    · cases h.symm.trans hscan
      exact hsteps
    · cases h.symm.trans hscan
  · intro h
    rw [h.scan_eq, scan_nil]

/-- A scan fails exactly if steps lead to one that fails. -/
theorem scan_eq_error_iff {fault : Fault} :
    s.scan left = .error fault s'' ↔
      ∃ s' left', Steps s left s' left' ∧ left' ≠ [] ∧ s'.step left' = .error fault s'' := by
  constructor
  · intro h
    -- a scan comes to its end or to a step that fails, and takes steps until then
    rcases scan_cases s left with ⟨_, -, hscan⟩ | ⟨s', left', _, _, hsteps, hne, hstep, hscan⟩
    · cases h.symm.trans hscan
    · cases h.symm.trans hscan
      exact ⟨s', left', hsteps, hne, hstep⟩
  · rintro ⟨s', left', hsteps, hne, hstep⟩
    rw [hsteps.scan_eq, scan_of_step_error hne hstep]

/-! ## Whole sources -/

/-- What a scan gives, without the scanner that comes back. -/
def value? {α : Type} : EStateM.Result Fault Scanner α → Option α
  | .ok a _ => some a
  | .error _ _ => none

/-- What a scan fails with, without the scanner that comes back. -/
def fault? {α : Type} : EStateM.Result Fault Scanner α → Option Fault
  | .ok _ _ => none
  | .error fault _ => some fault

/-- A value is there exactly if the outcome is a success. -/
theorem value?_eq_some_iff {α : Type} {a : α} {r : EStateM.Result Fault Scanner α} :
    value? r = some a ↔ ∃ s, r = .ok a s := by
  cases r <;> simp [value?]

/-- A fault is there exactly if the outcome is a failure. -/
theorem fault?_eq_some_iff {α : Type} {fault : Fault} {r : EStateM.Result Fault Scanner α} :
    fault? r = some fault ↔ ∃ s, r = .error fault s := by
  cases r <;> simp [fault?]

theorem toList_finish (s : Scanner) :
    s.finish.tokens.toList = s.tokens.toList ++ [Token.endOfInput s.position] :=
  Array.toList_push ..

/-- A source has tokens exactly if steps lead through it, and they are those that the steps push. -/
theorem tokenize_eq_ok_iff {text : String} {file? : Option String} {tokens : Array Token} :
    tokenize text file? = .ok tokens s' ↔
      ∃ s, Steps (ofText text file?) text.toList s [] ∧ s' = s.finish ∧ tokens = s.finish.tokens := by
  rw [tokenize]
  split
  · rename_i s hscan
    rw [scan_eq_ok_iff] at hscan
    constructor
    · intro h
      cases h
      exact ⟨s, hscan, rfl, rfl⟩
    · rintro ⟨s₁, hsteps, rfl, rfl⟩
      -- a text is scanned in one way only
      rw [← scan_eq_ok_iff] at hscan hsteps
      cases hscan.symm.trans hsteps
      rfl
  · rename_i fault s hscan
    constructor
    · intro h
      cases h
    · rintro ⟨s₁, hsteps, -, -⟩
      rw [← scan_eq_ok_iff] at hsteps
      cases hscan.symm.trans hsteps

end LoxExpr.Scanner
