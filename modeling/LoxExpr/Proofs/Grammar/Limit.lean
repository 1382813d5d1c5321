import LoxExpr.Proofs.Grammar.Acceptance
import LoxExpr.Proofs.Grammar.Continuation
import LoxExpr.Proofs.Grammar.Operation

/-!
# What the limit decides

The limit bounds the depth of the trees that are handed out, and it decides nothing else. A run that
it does not stop is the same under every higher limit (`Run.withLimit`). One that it stops has read
enough to be sure that no tree within it can come out, whatever tokens follow
(`parse_ne_ok_of_tooDeep`). What any procedure hands out is within it (`Procedure.depth_le`), except
that a limit of zero lets single literals through, which are one deep.
-/

namespace LoxExpr

open LoxExpr.Parser

namespace Grammar

/-! ## The limit that is blamed -/

/-- A literal without a value is no fault of depth. -/
theorem isTooDeep_of_value {token : Token} {fault : Fault} (hkind : token.kind.IsLiteral)
    (hv : token.value = .error fault) : fault.isTooDeep = false := by
  obtain ⟨-, -, -, rfl⟩ := Token.value_eq_error hkind hv
  rfl

/-- A fault of depth names the limit of the parser. -/
theorem Run.cause_eq {t : Task} {p : Parser} {r : Outcome} {limit : Nat} (h : Run t p r)
    (hlimit : p.limit = limit) :
    Outcome.Meets r (fun _ _ => True)
      (fun fault _ => fault.isTooDeep = true → fault.cause = .tooDeep limit) := by
  -- the check of a tree names the limit of the parser it is made with
  have hbuilt {e : Expr} {pos : Position} {q : Parser} {r : Outcome}
      (hr : bounded e pos q = r) (hq : q.limit = limit) :
      Outcome.Meets r (fun _ _ => True)
        (fun fault _ => fault.isTooDeep = true → fault.cause = .tooDeep limit) := by
    refine (meets_bounded hr).imp (fun _ _ _ => trivial) (fun fault q' herror _ => ?_)
    rw [herror.1, tooDeep, hq]
  -- the limit of the parser is carried along the run, since no step changes it
  induction h with
  | expression _ ih => exact ih hlimit
  | levelFails _ ih => exact ih hlimit
  | level first _ _ ihRest => exact ihRest (first.onward.limit_eq.trans hlimit)
  | loopEnds _ => trivial
  | loopFails _ _ ih => exact ih ((limit_advance _).trans hlimit)
  | loopTooDeep _ h _ _ =>
    have hq := h.onward.limit_eq.trans ((limit_advance _).trans hlimit)
    exact fun _ => congrArg Cause.tooDeep hq
  | loopTurns _ h _ _ _ ihRest =>
    exact ihRest (h.onward.limit_eq.trans ((limit_advance _).trans hlimit))
  | tooNested _ => exact fun _ => congrArg Cause.tooDeep hlimit
  | nestedFails _ _ ih => exact ih hlimit
  | nested _ _ _ => trivial
  | prefixFails _ _ ih => exact ih ((limit_advance _).trans hlimit)
  | prefixed _ h hr _ => exact hbuilt hr (h.onward.limit_eq.trans ((limit_advance _).trans hlimit))
  | unprefixed _ _ ih => exact ih hlimit
  | literal _ _ => trivial
  | badLiteral hoff hv =>
    -- a literal without a value is a fault of its own
    have hkind := Kind.mem_primary_kinds_iff.mp (offers_eq_true_iff.mp hoff).2
    intro hdeep
    rw [isTooDeep_of_value hkind hv] at hdeep
    cases hdeep
  | opened _ _ _ ih => exact ih ((limit_advance _).trans hlimit)
  | missing _ _ =>
    intro hdeep
    cases hdeep
  | groupingFails _ ih => exact ih hlimit
  | unclosed _ _ _ =>
    intro hdeep
    cases hdeep
  | closed h _ hr _ => exact hbuilt hr ((limit_advance _).trans (h.onward.limit_eq.trans hlimit))

/-- A fault of depth is made of the limit and a place, and of nothing else. -/
theorem Run.fault_eq {t : Task} {p q : Parser} {fault : Fault} (h : Run t p (.error fault q))
    (hdeep : fault.isTooDeep = true) : fault = ⟨.tooDeep p.limit, fault.position⟩ := by
  have hcause := h.cause_eq rfl hdeep
  cases fault
  cases hcause
  rfl

end Grammar

/-! ## The same parser with another limit -/

namespace Parser

def withLimit (p : Parser) (limit : Nat) : Parser :=
  { p with limit }

/-- A parse with another limit begins with the same parser, but for the limit. -/
theorem withLimit_ofTokens (tokens : Array Token) (low high : Nat) :
    (ofTokens tokens low).withLimit high = ofTokens tokens high := by
  unfold ofTokens withLimit
  split <;> rfl

/-- Under a higher limit all tokens are the same, however far one looks. -/
theorem sight_withLimit (n : Nat) {p : Parser} {limit : Nat} (hle : p.limit ≤ limit) :
    Sight n p (p.withLimit limit) :=
  ⟨hle, fun _ _ _ => rfl⟩

/-- A parser is abreast of itself with another limit. -/
theorem abreast_withLimit (p : Parser) (limit : Nat) :
    Abreast p (p.withLimit limit) p (p.withLimit limit) :=
  Abreast.refl rfl rfl

/-- Side by side on the same tokens, two parsers differ in nothing but the limit. -/
theorem Abreast.eq_withLimit {p q q' : Parser} {limit : Nat}
    (h : Abreast p (p.withLimit limit) q q') : q' = q.withLimit limit := by
  -- tokens and limit are those from the start, and what has changed since has changed alike
  have htokens : q'.tokens = q.tokens := h.onward'.tokens_eq.trans h.onward.tokens_eq.symm
  have hlimit : q'.limit = limit := h.onward'.limit_eq
  have hlog : q'.log = q.log := by
    obtain ⟨events, hlog, hlog'⟩ := h.log_eq
    exact hlog'.trans hlog.symm
  have hcursor := h.cursor_eq
  have hnesting := h.nesting_eq
  cases q
  cases q'
  cases htokens
  cases hlimit
  cases hlog
  cases hcursor
  cases hnesting
  rfl

end Parser

namespace Grammar

def Outcome.withLimit (limit : Nat) : Outcome → Outcome
  | .ok e q => .ok e (q.withLimit limit)
  | .error fault q => .error fault (q.withLimit limit)

/-- A run that the limit does not stop is the same under a higher one. -/
theorem Run.withLimit {t : Task} {p : Parser} {r : Outcome} {limit : Nat} (h : Run t p r)
    (hle : p.limit ≤ limit) (hdeep : Outcome.isTooDeep r = false) :
    Run t (p.withLimit limit) (Outcome.withLimit limit r) := by
  -- a run that the limit does not stop asks nothing of it but that it is no lower
  have hfollows : Follows p (p.withLimit limit) t (p.withLimit limit) r := by
    refine h.abreast (sight_withLimit _ hle) (abreast_withLimit p limit) (Nat.lt_succ_self _) ?_
    intro htrue
    rw [hdeep] at htrue
    cases htrue
  cases r with
  | ok e q =>
    obtain ⟨q', hrun, habreast⟩ := hfollows
    rw [habreast.eq_withLimit] at hrun
    exact hrun
  | error fault q =>
    obtain ⟨q', hrun, habreast⟩ := hfollows
    rw [habreast.eq_withLimit] at hrun
    exact hrun

/-- Under a higher limit, a run gets at least as far. -/
theorem Run.cursor_le_withLimit {t : Task} {p : Parser} {r r' : Outcome} {limit : Nat}
    (h : Run t p r) (hle : p.limit ≤ limit) (h' : Run t (p.withLimit limit) r') :
    (Outcome.parser r).cursor ≤ (Outcome.parser r').cursor :=
  (h.passed (sight_withLimit _ hle) (abreast_withLimit p limit) (Nat.le_refl _) h').cursor_le

/-- What an outcome shows: the tree or the fault, the cursor, the nesting and the log. -/
def Outcome.report : Outcome → Except Fault Expr × Nat × Nat × Array Event
  | .ok e q => (.ok e, q.cursor, q.nesting, q.log)
  | .error fault q => (.error fault, q.cursor, q.nesting, q.log)

namespace Outcome

theorem report_withLimit (limit : Nat) (r : Outcome) :
    report (withLimit limit r) = report r := by
  cases r <;> rfl

theorem isTooDeep_withLimit (limit : Nat) (r : Outcome) :
    isTooDeep (withLimit limit r) = isTooDeep r := by
  cases r <;> rfl

/-- Whether the limit stops a parse is settled when its expression is read. -/
theorem isTooDeep_conclude (r : Outcome) : isTooDeep (conclude r) = isTooDeep r := by
  cases r with
  | error fault q => rfl
  | ok e q =>
    rw [conclude]
    split <;> rfl

/-- The check for the end of input consumes nothing. -/
theorem cursor_conclude (r : Outcome) : (parser (conclude r)).cursor = (parser r).cursor := by
  cases r with
  | error fault q => rfl
  | ok e q =>
    rw [conclude]
    split <;> rfl

/-- The check for the end of input does not look at the limit. -/
theorem conclude_withLimit (limit : Nat) (r : Outcome) :
    conclude (withLimit limit r) = withLimit limit (conclude r) := by
  cases r with
  | error fault q => rfl
  | ok e q =>
    have hend : (q.withLimit limit).atEnd = q.atEnd := rfl
    rw [withLimit, conclude, conclude, hend]
    split <;> rfl

end Outcome

end Grammar

/-! ## Parses under different limits -/

open Grammar

/-- A parse is how the run of its expression ends. -/
theorem exists_parse_eq (tokens : Array Token) (limit : Nat) :
    ∃ r, Run .expression (ofTokens tokens limit) r ∧ parse tokens limit = Outcome.conclude r :=
  ⟨_, run_perform .expression _, parse_of_run (run_perform .expression _)⟩

/-- A parse that the lower limit does not stop is the same under the higher one. -/
theorem parse_eq_withLimit {tokens : Array Token} {low high : Nat} (hle : low ≤ high)
    (hdeep : Outcome.isTooDeep (parse tokens low) = false) :
    parse tokens high = Outcome.withLimit high (parse tokens low) := by
  obtain ⟨r, hrun, hparse⟩ := exists_parse_eq tokens low
  have hlimit : (ofTokens tokens low).limit ≤ high := by rwa [limit_ofTokens]
  rw [hparse, Outcome.isTooDeep_conclude] at hdeep
  have hrun' := hrun.withLimit hlimit hdeep
  rw [withLimit_ofTokens] at hrun'
  rw [hparse, parse_of_run hrun', Outcome.conclude_withLimit]

/-- Under a higher limit, a parse gets at least as far. -/
theorem cursor_parse_le {tokens : Array Token} {low high : Nat} (hle : low ≤ high) :
    (Outcome.parser (parse tokens low)).cursor ≤ (Outcome.parser (parse tokens high)).cursor := by
  obtain ⟨r, hrun, hparse⟩ := exists_parse_eq tokens low
  obtain ⟨r', hrun', hparse'⟩ := exists_parse_eq tokens high
  have hlimit : (ofTokens tokens low).limit ≤ high := by rwa [limit_ofTokens]
  rw [← withLimit_ofTokens tokens low high] at hrun'
  rw [hparse, hparse', Outcome.cursor_conclude, Outcome.cursor_conclude]
  exact hrun.cursor_le_withLimit hlimit hrun'

/-- Two limits that do not stop a parse have the same report of it. -/
theorem report_eq_of_not_tooDeep {tokens : Array Token} {low limit : Nat}
    (hlow : Outcome.isTooDeep (parse tokens low) = false)
    (hlimit : Outcome.isTooDeep (parse tokens limit) = false) :
    Outcome.report (parse tokens limit) = Outcome.report (parse tokens low) := by
  -- whichever limit is the lower one, its outcome carries over to the other
  rcases Nat.le_total low limit with hle | hle
  · rw [parse_eq_withLimit hle hlow, Outcome.report_withLimit]
  · rw [parse_eq_withLimit hle hlimit, Outcome.report_withLimit]

/-- A parse that a limit stops is stopped by every lower one. -/
theorem isTooDeep_of_le {tokens : Array Token} {low high : Nat} (hle : low ≤ high)
    (hhigh : Outcome.isTooDeep (parse tokens high) = true) :
    Outcome.isTooDeep (parse tokens low) = true := by
  cases hlow : Outcome.isTooDeep (parse tokens low) with
  | true => rfl
  | false =>
    rw [parse_eq_withLimit hle hlow, Outcome.isTooDeep_withLimit, hlow] at hhigh
    cases hhigh

/--
**The limit turns outcomes into failures of depth, and does nothing else.** A parse that a limit
does not stop shows the same under every higher limit: the tree or the fault, the cursor, the
nesting and the log. One that it stops gets no further than those under higher limits. So the limits
that stop the parse of given tokens are closed downwards, and all others agree.
-/
theorem report_parse_eq (tokens : Array Token) {low high : Nat} (hle : low ≤ high) :
    (Outcome.isTooDeep (parse tokens low) = false →
      Outcome.report (parse tokens high) = Outcome.report (parse tokens low)) ∧
    (Outcome.isTooDeep (parse tokens low) = true →
      (Outcome.parser (parse tokens low)).cursor ≤ (Outcome.parser (parse tokens high)).cursor) ∧
    (Outcome.isTooDeep (parse tokens high) = true →
      Outcome.isTooDeep (parse tokens low) = true) ∧
    ∀ limit, Outcome.isTooDeep (parse tokens low) = false →
      Outcome.isTooDeep (parse tokens limit) = false →
      Outcome.report (parse tokens limit) = Outcome.report (parse tokens low) := by
  refine ⟨fun hlow => ?_, fun _ => cursor_parse_le hle, isTooDeep_of_le hle,
    fun limit hlow hlimit => report_eq_of_not_tooDeep hlow hlimit⟩
  -- the outcomes differ only in the limit that the parser carries, and a report does not show it
  rw [parse_eq_withLimit hle hlow, Outcome.report_withLimit]

/-- A limit of two stops `!!true` at the second operator, and a limit of three does not. -/
theorem report_parse_doubleNot :
    Outcome.isTooDeep (parse doubleNot 2) = true ∧
      (Outcome.parser (parse doubleNot 2)).cursor ≤ (Outcome.parser (parse doubleNot 3)).cursor ∧
      Outcome.isTooDeep (parse doubleNot 3) = false ∧
      Outcome.report (parse doubleNot 9) = Outcome.report (parse doubleNot 3) := by
  have hstopped : Outcome.isTooDeep (parse doubleNot 2) = true := by decide +kernel
  have hread : Outcome.isTooDeep (parse doubleNot 3) = false := by decide +kernel
  exact ⟨hstopped, (report_parse_eq doubleNot (by decide)).2.1 hstopped, hread,
    (report_parse_eq doubleNot (by decide)).1 hread⟩

/-! ## What the tokens that were read force -/

namespace Parser

/-- An end of input that is added leaves every token at its index. -/
theorem getElem?_tokens_ofTokens {tokens : Array Token} {limit i : Nat} (hi : i < tokens.size) :
    (ofTokens tokens limit).tokens[i]? = tokens[i]? := by
  rw [tokens_ofTokens]
  split
  · rfl
  · rw [Array.getElem?_push, if_neg (Nat.ne_of_lt hi)]

/-- The cursor never leaves the tokens that were handed in, but for an end of input behind them. -/
theorem Onward.cursor_le_size {tokens : Array Token} {limit : Nat} {p : Parser}
    (h : (ofTokens tokens limit).Onward p) : p.cursor ≤ tokens.size := by
  have hend := h.end_eq
  have hlength : (beforeEnd tokens.toList).length ≤ tokens.size := by
    rw [← Array.length_toList]
    exact (List.takeWhile_prefix _).length_le
  rw [ahead_ofTokens, cursor_ofTokens] at hend
  omega

/-- Parses of sequences that begin alike see the same tokens up to where these differ. -/
theorem sight_ofTokens {tokens tokens' : Array Token} (limit : Nat) {n : Nat}
    (hn : n ≤ tokens.size) (hsame : ∀ i, i < n → tokens'[i]? = tokens[i]?) :
    Sight n (ofTokens tokens limit) (ofTokens tokens' limit) := by
  refine ⟨?_, fun i _ hi => ?_⟩
  · have hlimit := (limit_ofTokens tokens limit).trans (limit_ofTokens tokens' limit).symm
    exact Nat.le_of_eq hlimit
  · -- an end of input that is added lies behind both, so it is not among the tokens compared
    have hi' : i < tokens.size := Nat.lt_of_lt_of_le hi hn
    have hget : tokens'[i]? = some tokens[i] := (hsame i hi).trans (Array.getElem?_eq_getElem hi')
    have hlt : i < tokens'.size := (Array.getElem?_eq_some_iff.mp hget).1
    rw [getElem?_tokens_ofTokens hlt, getElem?_tokens_ofTokens hi', hsame i hi]

/-- Parses begin abreast, whatever their tokens are. -/
theorem abreast_ofTokens (tokens tokens' : Array Token) (limit : Nat) :
    Abreast (ofTokens tokens limit) (ofTokens tokens' limit) (ofTokens tokens limit)
      (ofTokens tokens' limit) := by
  apply Abreast.refl
  · rw [cursor_ofTokens, cursor_ofTokens]
  · rw [nesting_ofTokens, nesting_ofTokens]

end Parser

/-- Tokens that begin with those that a stopped parse has read are not read as a tree either. -/
theorem parse_ne_ok_of_tooDeep {tokens tokens' : Array Token} {limit : Nat}
    (hdeep : Outcome.isTooDeep (parse tokens limit) = true)
    (hsame : ∀ i, i < (Outcome.parser (parse tokens limit)).cursor → tokens'[i]? = tokens[i]?)
    (e : Expr) (q : Parser) : parse tokens' limit ≠ .ok e q := by
  obtain ⟨r, hrun, hparse⟩ := exists_parse_eq tokens limit
  obtain ⟨r', hrun', hparse'⟩ := exists_parse_eq tokens' limit
  rw [hparse, Outcome.isTooDeep_conclude] at hdeep
  rw [hparse, Outcome.cursor_conclude] at hsame
  have hsight := sight_ofTokens limit hrun.onward.cursor_le_size hsame
  -- the other parse gets past this one, which the limit stopped
  have hpassed := hrun.passed hsight (abreast_ofTokens tokens tokens' limit) (Nat.le_refl _) hrun'
  have hne := hpassed.ne_ok hdeep (by rw [limit_ofTokens, limit_ofTokens])
  intro hok
  rw [hparse'] at hok
  cases r' with
  | ok e' q' => exact hne e' q' rfl
  | error fault' q' => cases hok

/--
**A parse is never stopped too early.** Where the limit stops a parse, the tokens before the cursor
begin no tokens that could be read within the limit: whatever follows them, no tree comes out, and
if they have a tree at all it is too deep.
-/
theorem depth_of_tooDeep {tokens tokens' : Array Token} {limit : Nat}
    (hdeep : Outcome.isTooDeep (parse tokens limit) = true)
    (hsame : ∀ i, i < (Outcome.parser (parse tokens limit)).cursor → tokens'[i]? = tokens[i]?) :
    (∀ e q, parse tokens' limit ≠ .ok e q) ∧
      ∀ e : Expr, e.IsTreeOf (beforeEnd tokens'.toList) → max limit 1 < e.depth := by
  have hnot := parse_ne_ok_of_tooDeep hdeep hsame
  refine ⟨hnot, fun e htree => ?_⟩
  rcases parse_of_tree htree limit with ⟨q, hok⟩ | ⟨-, hlt⟩
  · exact absurd hok (hnot e q)
  · exact hlt

/-- The tokens of `nil == nil`, without an end of input. -/
def equation : Array Token := #[
  ⟨.kwNil, "nil", none, ⟨⟨0, "t"⟩, ⟨3, "t"⟩⟩⟩, ⟨.equals, "==", none, ⟨⟨4, "t"⟩, ⟨6, "t"⟩⟩⟩,
  ⟨.kwNil, "nil", none, ⟨⟨7, "t"⟩, ⟨10, "t"⟩⟩⟩]

/-- The tokens of `nil == nil < nil`, which extend the right operand. -/
def longEquation : Array Token := equation ++ #[
  ⟨.less, "<", none, ⟨⟨11, "t"⟩, ⟨12, "t"⟩⟩⟩, ⟨.kwNil, "nil", none, ⟨⟨13, "t"⟩, ⟨16, "t"⟩⟩⟩]

/-- With a limit of one, the first three tokens are too many already. -/
theorem parse_longEquation :
    Outcome.isTooDeep (parse equation 1) = true ∧
      (∀ i, i < (Outcome.parser (parse equation 1)).cursor → longEquation[i]? = equation[i]?) ∧
      ∀ e q, parse longEquation 1 ≠ .ok e q := by
  have hdeep : Outcome.isTooDeep (parse equation 1) = true := by decide +kernel
  have hcursor : (Outcome.parser (parse equation 1)).cursor = 3 := by decide +kernel
  have hsame : ∀ i, i < (Outcome.parser (parse equation 1)).cursor →
      longEquation[i]? = equation[i]? := by
    rw [hcursor]
    decide
  exact ⟨hdeep, hsame, (depth_of_tooDeep hdeep hsame).1⟩

/-! ## The depth of what is handed out -/

namespace Grammar

/-- A procedure hands out no tree beyond the limit. A literal is one deep whatever the limit is. -/
theorem Procedure.depth_le {f : Procedure} {p q : Parser} {e : Expr} (h : f.parse p = .ok e q) :
    e.depth ≤ max p.limit 1 := by
  have hrun := f.run_parse p
  rw [h] at hrun
  exact hrun.depth_le (by cases f <;> trivial)

/-- A run that the limit stops names the limit that it began with. -/
theorem Run.eq_tooDeep {t : Task} {p : Parser} {r : Outcome} (h : Run t p r)
    (hdeep : Outcome.isTooDeep r = true) : ∃ pos q, r = .error ⟨.tooDeep p.limit, pos⟩ q := by
  cases r with
  | ok e q => cases hdeep
  | error fault q => exact ⟨fault.position, q, by rw [← h.fault_eq hdeep]⟩

/-- Where another limit would let a deeper tree out, the limit stops the procedure. -/
theorem Procedure.eq_tooDeep {f : Procedure} {p q : Parser} {other : Nat} {e : Expr}
    (h : f.parse (p.withLimit other) = .ok e q) (hdeep : max p.limit 1 < e.depth) :
    ∃ pos q', f.parse p = .error ⟨.tooDeep p.limit, pos⟩ q' := by
  have hrun := f.run_parse p
  cases hstopped : Outcome.isTooDeep (f.parse p) with
  | true => exact hrun.eq_tooDeep hstopped
  | false =>
    -- not stopped, the procedure hands out the same tree, but its limit does not let it do that
    have hother : e.depth ≤ max other 1 := depth_le h
    have hsame := (f.run_parse (p.withLimit other)).det (hrun.withLimit (by omega) hstopped)
    rw [h] at hsame
    cases hres : f.parse p with
    | ok e' q' =>
      rw [hres] at hsame
      cases hsame
      have hle := depth_le hres
      omega
    | error fault q' =>
      rw [hres] at hsame
      cases hsame

/--
An outcome is limited if it is no tree deeper than the limit, and a failure of depth wherever such a
tree comes out under another limit. Literals, one deep, are within every limit.
-/
structure Limited (limit : Nat) (outcome : Outcome) (under : Nat → Outcome) : Prop where
  depth_le : ∀ e q, outcome = .ok e q → e.depth ≤ max limit 1
  eq_tooDeep : ∀ other e q, under other = .ok e q → max limit 1 < e.depth →
    ∃ pos q', outcome = .error ⟨.tooDeep limit, pos⟩ q'

/-- The limit bounds what a parse hands out, and stops what is deeper. -/
theorem limited_parse (tokens : Array Token) (limit : Nat) :
    Limited limit (parse tokens limit) (parse tokens) where
  depth_le _ _ h := (tree_of_parse_eq_ok h).2
  eq_tooDeep other e q h hdeep := by
    rcases parse_of_tree (tree_of_parse_eq_ok h).1 limit with ⟨q', hok⟩ | ⟨herror, -⟩
    · have hle := (tree_of_parse_eq_ok hok).2
      omega
    · exact herror

/-- The limit bounds what each procedure hands out, and stops what is deeper. -/
theorem Procedure.limited (f : Procedure) (p : Parser) :
    Limited p.limit (f.parse p) (fun other => f.parse (p.withLimit other)) where
  depth_le _ _ h := depth_le h
  eq_tooDeep _ _ _ h hdeep := eq_tooDeep h hdeep

end Grammar

/--
**The limit bounds what is handed out.** A parse hands out no tree deeper than the limit, and
neither does any procedure, whatever was asked of its parser before; where a deeper tree would come
out under another limit, the failure names this one. The bound is the limit itself unless that is
zero: single literals are handed out even then.
-/
theorem limited_use (tokens : Array Token) (limit : Nat) (ops : List Operation) (f : Procedure) :
    Limited limit (parse tokens limit) (parse tokens) ∧
      Limited limit (f.parse ((ofTokens tokens limit).use ops))
        (fun other => f.parse (((ofTokens tokens limit).use ops).withLimit other)) := by
  have hlimit : ((ofTokens tokens limit).use ops).limit = limit :=
    (onward_use ops _).limit_eq.trans (limit_ofTokens tokens limit)
  have huse := f.limited ((ofTokens tokens limit).use ops)
  rw [hlimit] at huse
  exact ⟨limited_parse tokens limit, huse⟩

/-- A limit of zero does not keep a literal back, which is one deep. -/
theorem parse_lone_literal :
    ∃ e q, parse #[⟨.kwTrue, "true", none, ⟨⟨0, "t"⟩, ⟨4, "t"⟩⟩⟩] 0 = .ok e q ∧ 0 < e.depth := by
  have htree : (Expr.literal (.boolean true)).IsTreeOf
      (beforeEnd [⟨.kwTrue, "true", none, ⟨⟨0, "t"⟩, ⟨4, "t"⟩⟩⟩]) :=
    ⟨trivial, .literal (by decide) (.kwTrue rfl rfl)⟩
  rcases parse_of_tree htree 0 with ⟨q, hok⟩ | ⟨-, hlt⟩
  · exact ⟨_, q, hok, by decide⟩
  · exact absurd hlt (by decide)

end LoxExpr
