import LoxExpr.Proofs.Lexing.Longest
import LoxExpr.Proofs.Lexing.Steps
import Mathlib.Data.List.MinMax

/-!
# Maximal munch

A scanner that takes the longest match at every place needs no order of patterns. `tokenizeLongest`
is such a scanner, over any list of patterns. Over the patterns of the table, in whatever order, it
is the scanner that takes the first match (`munch_eq_scan`).
-/

namespace LoxExpr

namespace Pattern

/-! ## The longest match -/

/-- The matches of the patterns at the start of a text, each with its pattern. -/
def allMatches (patterns : List Pattern) (cs : List Char) :
    List (Pattern × List Char × List Char) :=
  patterns.filterMap fun p => (p.split? cs).map fun parts => (p, parts)

/-- A match that no other one surpasses in length. -/
def longest? (patterns : List Pattern) (cs : List Char) :
    Option (Pattern × List Char × List Char) :=
  (allMatches patterns cs).argmax fun m => m.2.1.length

theorem mem_allMatches {patterns : List Pattern} {cs : List Char} {p : Pattern}
    {parts : List Char × List Char} :
    (p, parts) ∈ allMatches patterns cs ↔ p ∈ patterns ∧ p.split? cs = some parts := by
  simp only [allMatches, List.mem_filterMap, Option.map_eq_some_iff, Prod.mk.injEq]
  constructor
  · rintro ⟨q, hq, parts', hsplit, rfl, rfl⟩
    exact ⟨hq, hsplit⟩
  · rintro ⟨hp, hsplit⟩
    exact ⟨p, hp, parts, hsplit, rfl, rfl⟩

/-- The longest match is one of the matches. -/
theorem split?_of_longest? {patterns : List Pattern} {cs lexeme rest : List Char} {p : Pattern}
    (h : longest? patterns cs = some (p, lexeme, rest)) :
    p ∈ patterns ∧ p.split? cs = some (lexeme, rest) :=
  mem_allMatches.mp (List.argmax_mem h)

/-- No match is longer than the longest one. -/
theorem length_le_of_longest? {patterns : List Pattern} {cs : List Char}
    {m m' : Pattern × List Char × List Char} (h : longest? patterns cs = some m)
    (hm : m' ∈ allMatches patterns cs) : m'.2.1.length ≤ m.2.1.length := by
  unfold longest? at h
  exact List.le_of_mem_argmax (f := fun m => m.2.1.length) hm h

/-- Where no pattern is chosen, none applies. -/
theorem split?_of_first?_eq_none {cs : List Char} (h : first? cs = none) {p : Pattern}
    (hp : p ∈ table) : p.split? cs = none := by
  rw [first?, List.findSome?_eq_none_iff] at h
  simpa using h p hp

theorem mem_table_of_first? {p : Pattern} {cs : List Char} {parts : List Char × List Char}
    (h : first? cs = some (p, parts)) : p ∈ table :=
  mem_table_of_lexeme (split?_eq_some_iff.mp (split?_of_first? h)).2.1

/-- Every pattern of the table that applies beside the first one has a shorter match. -/
theorem length_lt_of_split? {p q : Pattern} {cs lexeme rest l r : List Char}
    (hfirst : first? cs = some (p, lexeme, rest)) (hne : q ≠ p)
    (hsplit : q.split? cs = some (l, r)) : l.length < lexeme.length := by
  obtain ⟨rfl, -⟩ := first?_eq_some_iff.mp hfirst
  obtain ⟨happ, hl, -⟩ := split?_eq_some_iff.mp hsplit
  exact length_lt_of_first?_of_ne hfirst hne hl ⟨r, happ.symm⟩

/-- The order of the patterns does not matter to the longest match. -/
theorem longest?_eq_first? {patterns : List Pattern} (hsame : ∀ p, p ∈ patterns ↔ p ∈ table)
    (cs : List Char) : longest? patterns cs = first? cs := by
  cases hfirst : first? cs with
  | none =>
    have hnone : allMatches patterns cs = [] := by
      rw [List.eq_nil_iff_forall_not_mem]
      rintro ⟨p, parts⟩ hmem
      obtain ⟨hp, hsplit⟩ := mem_allMatches.mp hmem
      rw [split?_of_first?_eq_none hfirst ((hsame p).mp hp)] at hsplit
      cases hsplit
    rw [longest?, hnone, List.argmax_nil]
  | some first =>
    obtain ⟨p, lexeme, rest⟩ := first
    -- what is chosen first is one of the matches, so the longest is no shorter
    have hmem : (p, lexeme, rest) ∈ allMatches patterns cs :=
      mem_allMatches.mpr ⟨(hsame p).mpr (mem_table_of_first? hfirst), split?_of_first? hfirst⟩
    cases hlongest : longest? patterns cs with
    | none =>
      rw [longest?, List.argmax_eq_none] at hlongest
      simp [hlongest] at hmem
    | some longest =>
      obtain ⟨q, l, r⟩ := longest
      obtain ⟨-, hsplit⟩ := split?_of_longest? hlongest
      have hle : lexeme.length ≤ l.length := length_le_of_longest? hlongest hmem
      -- another pattern would have a shorter match than the first one
      have heq : q = p := by
        by_contra hne
        have hlt := length_lt_of_split? hfirst hne hsplit
        omega
      subst heq
      rw [split?_of_first? hfirst] at hsplit
      cases hsplit
      rfl

end Pattern

/-! ## The scanner without an order of patterns -/

namespace Scanner

/-- The longest match takes at least one character. -/
theorem length_lt_of_longest? {patterns : List Pattern} {cs lexeme rest : List Char} {p : Pattern}
    (h : Pattern.longest? patterns cs = some (p, lexeme, rest)) : rest.length < cs.length := by
  obtain ⟨happ, hne⟩ := Pattern.eq_append_of_split? (Pattern.split?_of_longest? h).2
  have hpos := List.length_pos_iff.mpr hne
  rw [← happ, List.length_append]
  omega

/-- Scans the text that is left, and takes the longest match of the patterns at every place. -/
def munch (patterns : List Pattern) (s : Scanner) (left : List Char) :
    EStateM.Result Fault Scanner Unit :=
  if left = [] then .ok () s
  else
    match _ : Pattern.longest? patterns left with
    | some (p, lexeme, rest) =>
      match s.take p lexeme with
      | .ok () s' => munch patterns s' rest
      | .error fault s' => .error fault s'
    | none => .error ⟨.unrecognised (String.ofList (left.take 1)), s.position⟩ s
termination_by left.length
decreasing_by exact length_lt_of_longest? (by assumption)

/-- Scanning by longest matches is scanning by first ones, turn by turn. -/
theorem munch_eq_scan {patterns : List Pattern} (hsame : ∀ p, p ∈ patterns ↔ p ∈ Pattern.table)
    (s : Scanner) (left : List Char) : s.munch patterns left = s.scan left := by
  by_cases hne : left = []
  · subst hne
    rw [scan_nil, munch, if_pos rfl]
  · rw [munch, if_neg hne]
    split
    · rename_i p lexeme rest hlongest
      -- both take the same lexeme, and go on with what it leaves
      rw [Pattern.longest?_eq_first? hsame] at hlongest
      have hlt := Pattern.length_lt_of_first? hlongest
      cases htake : s.take p lexeme with
      | ok u s' =>
        have hstep : s.step left = .ok rest s' := by simp only [step, hlongest, htake]
        rw [scan_of_step_ok hstep, ← munch_eq_scan hsame s' rest]
      | error fault s' =>
        have hstep : s.step left = .error fault s' := by simp only [step, hlongest, htake]
        rw [scan_of_step_error hne hstep]
    · rename_i hlongest
      -- neither finds a pattern, and both blame the same character
      rw [Pattern.longest?_eq_first? hsame] at hlongest
      have hstep :
          s.step left = .error ⟨.unrecognised (String.ofList (left.take 1)), s.position⟩ s := by
        simp only [step, hlongest]
      rw [scan_of_step_error hne hstep]
termination_by left.length

end Scanner

/-- Scans a whole source, and takes the longest match of the patterns at every place. -/
def tokenizeLongest (patterns : List Pattern) (text : String) (file? : Option String) :
    EStateM.Result Fault Scanner (Array Token) :=
  match (Scanner.ofText text file?).munch patterns text.toList with
  | .ok () s => .ok s.finish.tokens s.finish
  | .error fault s => .error fault s

/-- Whatever order the patterns are in, the longest matches make the same tokens. -/
theorem tokenizeLongest_eq {patterns : List Pattern}
    (hsame : ∀ p, p ∈ patterns ↔ p ∈ Pattern.table) (text : String) (file? : Option String) :
    tokenizeLongest patterns text file? = tokenize text file? := by
  rw [tokenizeLongest, Scanner.munch_eq_scan hsame]
  rfl

end LoxExpr
