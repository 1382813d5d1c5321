import LoxExpr.Command.Arguments
import LoxExpr.Proofs.Number.Display

/-!
# Settings spelled out

All settings can be asked for. `Settings.arguments` spells them out as arguments, and they are read
back from there (`readArguments_arguments`): argument by argument, each is read as the option that
it was written for.
-/

namespace LoxExpr.Command

/-- Arguments that ask for the settings. -/
def Settings.arguments (s : Settings) : List String :=
  (ValueOption.maxDepth.name ++ "=" ++ toString s.limit) ::
    (List.replicate s.verbosity "-v" ++ ((if s.quiet then ["-q"] else []) ++
      match s.source with
      | .inline text => [ValueOption.expr.name ++ "=" ++ text]
      | .file path => ["--", path]))

/-! ## Single arguments -/

/-- A natural number that fits in 64 bits is read back from its digits. -/
theorem limit?_toString {n : Nat} (h : n < UInt64.size) : limit? (toString n) = some n := by
  have hlist : (toString n).toList = Nat.toDigits 10 n := by
    rw [Nat.toString_eq_repr, Nat.toList_repr]
  obtain ⟨hne, hall⟩ := Number.isDigits_toDigits n
  unfold limit?
  rw [hlist]
  dsimp only
  split
  -- a sign in front would be no digit
  · rename_i heq
    rw [heq] at hall
    exact absurd (hall '+' (List.mem_cons_self ..)) (by decide)
  · rw [Number.digitsValue_toDigits, if_pos ⟨hne, List.all_eq_true.mpr hall, h⟩]

namespace Reading

variable (o : Options)

/-- An option that is spelt with its value is read as that. -/
theorem step_valued (option : ValueOption) (value : String) :
    step ⟨o, none, false⟩ (option.name ++ "=" ++ value) =
      (⟨o, none, false⟩ : Reading).withOptions <$> o.setValue option value := by
  unfold step
  cases option with
  | expr =>
    -- the name of the option is cut off character by character
    have hlist : (ValueOption.expr.name ++ "=" ++ value).toList =
        '-' :: '-' :: 'e' :: 'x' :: 'p' :: 'r' :: '=' :: value.toList := by
      simp [ValueOption.name]
    rw [hlist]
    show long ⟨o, none, false⟩ "expr" (some (String.ofList value.toList)) = _
    rw [String.ofList_toList]
    rfl
  | maxDepth =>
    have hlist : (ValueOption.maxDepth.name ++ "=" ++ value).toList =
        '-' :: '-' :: 'm' :: 'a' :: 'x' :: '-' :: 'd' :: 'e' :: 'p' :: 't' :: 'h' :: '=' ::
          value.toList := by
      simp [ValueOption.name]
    rw [hlist]
    show long ⟨o, none, false⟩ "max-depth" (some (String.ofList value.toList)) = _
    rw [String.ofList_toList]
    rfl

theorem step_verbose : step ⟨o, none, false⟩ "-v" = .ok ⟨o.addVerbosity, none, false⟩ := rfl

/-- The program can be told once to be quiet. -/
theorem step_quiet (h : o.quiet = false) :
    step ⟨o, none, false⟩ "-q" = .ok ⟨{ o with quiet := true }, none, false⟩ := by
  show (do short (withOptions ⟨o, none, false⟩ (← o.setQuiet)) []) = _
  unfold Options.setQuiet
  rw [h]
  rfl

/-- Behind the separator, an argument is the path of the file. -/
theorem step_file {path : String} (hfree : o.file = none) (hpath : path.isEmpty = false) :
    step ⟨o, none, true⟩ path = .ok ⟨{ o with file := some path }, none, true⟩ := by
  show (⟨o, none, true⟩ : Reading).withOptions <$> o.setFile path = _
  unfold Options.setFile
  rw [hfree, hpath]
  rfl

/-- Each repetition shows one more level of the log. -/
theorem foldlM_verbose (count : Nat) (rest : List String) :
    (List.replicate count "-v" ++ rest).foldlM step ⟨o, none, false⟩ =
      rest.foldlM step ⟨{ o with verbosity := o.verbosity + count }, none, false⟩ := by
  induction count generalizing o with
  | zero => rfl
  | succ count ih =>
    -- the flag that is read now is counted with those before it, the others with those to come
    have hverbosity : o.verbosity + 1 + count = o.verbosity + (count + 1) := by omega
    show (step ⟨o, none, false⟩ "-v" >>=
      fun r => (List.replicate count "-v" ++ rest).foldlM step r) = _
    rw [step_verbose, ← hverbosity]
    exact ih o.addVerbosity

/-- The argument for a quiet program is read as that, and the rest is read on. -/
theorem foldlM_quiet (quiet : Bool) (hfree : o.quiet = false) (rest : List String) :
    ((if quiet then ["-q"] else []) ++ rest).foldlM step ⟨o, none, false⟩ =
      rest.foldlM step ⟨{ o with quiet := quiet }, none, false⟩ := by
  cases quiet with
  | true =>
    show (step ⟨o, none, false⟩ "-q" >>= fun r => rest.foldlM step r) = _
    rw [step_quiet o hfree]
    rfl
  | false =>
    have hsame : { o with quiet := false } = o := by rw [← hfree]
    rw [hsame]
    rfl

end Reading

/-! ## All arguments -/

/-- Settings are read back from the arguments that spell them out. -/
theorem readArguments_arguments {s : Settings} (hlimit : s.limit < UInt64.size)
    (hpath : ∀ path, s.source = .file path → path.isEmpty = false) :
    readArguments s.arguments = .ok s := by
  obtain ⟨source, limit, verbosity, quiet⟩ := s
  have hdepth : Reading.step .start (ValueOption.maxDepth.name ++ "=" ++ toString limit) =
      .ok ⟨{ Options.none with limit := some limit }, none, false⟩ := by
    rw [Reading.start, Reading.step_valued, Options.setValue, limit?_toString hlimit]
    rfl
  unfold readArguments Settings.arguments
  rw [List.foldlM_cons, hdepth]
  show (List.foldlM Reading.step _ _ >>= Reading.finish) = _
  -- the options come in the order in which they are spelt out, and the source comes last
  rw [Reading.foldlM_verbose, Reading.foldlM_quiet _ quiet rfl]
  cases source with
  | inline text =>
    show (List.foldlM Reading.step _ [ValueOption.expr.name ++ "=" ++ text] >>= Reading.finish) = _
    rw [List.foldlM_cons, Reading.step_valued]
    show Except.ok (Settings.mk (.inline text) limit (0 + verbosity) quiet) = _
    rw [Nat.zero_add]
  | file path =>
    show (List.foldlM Reading.step _ [path] >>= Reading.finish) = _
    rw [List.foldlM_cons, Reading.step_file _ rfl (hpath path rfl)]
    show Except.ok (Settings.mk (.file path) limit (0 + verbosity) quiet) = _
    rw [Nat.zero_add]

end LoxExpr.Command
