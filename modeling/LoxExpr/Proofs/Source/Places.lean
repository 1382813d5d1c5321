import LoxExpr.Proofs.Grammar.Mirror
import LoxExpr.Proofs.Lexing.Rename
import LoxExpr.Proofs.Lexing.Spacing

/-!
# Sources whose tokens stand elsewhere

The parser sees nothing of the places of tokens (`mirrors_of_bare`), so neither the name of a source
nor what lies between its tokens has a part in its tree:

* `parseSource_inFile`: under another file name a source gives the same tree, or its fault at the
  same place of that file;
* `parseSource_spread`: written anew, with any gaps between them, the tokens scan to themselves and
  give the same tree, or fail for the same cause.
-/

namespace LoxExpr

open Grammar

/-! ## Outcomes without places -/

/-- What a parse says of a source, without the places. -/
def unplaced (r : Except Fault Expr) : Except Cause Expr :=
  (r.map Expr.bare).mapError Fault.cause

/-- A tree or a fault, without the parser that comes with it. -/
def Grammar.Outcome.result : Outcome → Except Fault Expr
  | .ok e _ => .ok e
  | .error fault _ => .error fault

/-- Mirror images of the same tokens say the same, but for places. -/
theorem Grammar.Outcome.Mirrors.unplaced_eq {tokens tokens' : Array Token} {r r' : Outcome}
    (h : Outcome.Mirrors tokens tokens' r r')
    (hbare : tokens'.map Token.bare = tokens.map Token.bare) :
    unplaced (Outcome.result r') = unplaced (Outcome.result r) := by
  cases h with
  | ok he hq =>
    have heq := he.bare_eq fun t u => bare_eq_of_mirrors hbare
    exact congrArg Except.ok heq
  | error hfault hq => exact congrArg Except.error hfault.cause_eq

/-- A parse of a source that scans is a parse of its tokens. -/
theorem parseSource_eq_of_tokenize {text : String} {file? : Option String} {tokens : Array Token}
    {s : Scanner} (h : tokenize text file? = .ok tokens s) (limit : Nat) :
    parseSource text file? limit = Outcome.result (parse tokens limit) := by
  unfold parseSource
  rw [h]
  rfl

/-! ## Another file name -/

/-- Tokens in another file are the same but for their places. -/
theorem map_bare_inFile (path : String) (tokens : Array Token) :
    (tokens.map (Token.inFile path)).map Token.bare = tokens.map Token.bare := by
  rw [Array.map_map]
  -- the file is part of the place, which the bare token has not got
  rfl

/-- Where the mirror image stands in another file, so does the fault. -/
theorem Fault.Mirrors.eq_inFile {path : String} {tokens : Array Token} {fault fault' : Fault}
    (h : fault.Mirrors tokens (tokens.map (Token.inFile path)) fault') :
    fault' = fault.inFile path := by
  obtain ⟨hcause, t, u, htu, hposition, hposition'⟩ := h
  obtain ⟨-, rfl⟩ := htu.of_map
  have hplace : fault'.position = fault.position.inFile path := by
    rw [hposition, hposition']
    rfl
  cases fault'
  cases hcause
  cases hplace
  rfl

/-- What comes of tokens in another file is the same, and a fault is located there. -/
theorem Grammar.Outcome.Mirrors.result_inFile {path : String} {tokens : Array Token}
    {r r' : Outcome} (h : Outcome.Mirrors tokens (tokens.map (Token.inFile path)) r r') :
    (Outcome.result r').map Expr.bare =
      ((Outcome.result r).map Expr.bare).mapError (Fault.inFile path) := by
  cases h with
  | ok he hq =>
    have heq := he.bare_eq fun t u => bare_eq_of_mirrors (map_bare_inFile path tokens)
    exact congrArg Except.ok heq
  | error hfault hq => exact congrArg Except.error hfault.eq_inFile

/-- The name of the file shows in the place of a fault, and in nothing else but places. -/
theorem parseSource_inFile (text : String) (file? : Option String) (path : String) (limit : Nat) :
    (parseSource text (some path) limit).map Expr.bare =
      ((parseSource text file? limit).map Expr.bare).mapError (Fault.inFile path) := by
  cases h : tokenize text file? with
  | error fault s =>
    have h' := tokenize_inFile_eq_error path h
    unfold parseSource
    rw [h, h']
    rfl
  | ok tokens s =>
    rw [parseSource_eq_of_tokenize h, parseSource_eq_of_tokenize (tokenize_inFile_eq_ok path h)]
    exact (mirrors_of_bare (map_bare_inFile path tokens) (ended_of_tokenize h) limit).result_inFile

/-! ## Tokens written anew -/

/--
**Layout does not matter.** The tokens of a source, written with other gaps between them, are
scanned to the same tokens at other places. Parsed under any limit, both sources give the same tree,
but for the places of its operators, or fail for the same cause.
-/
theorem parseSource_spread {text text' : String} {file? file?' : Option String}
    {tokens : Array Token} {found : List Token} {position : Position} {s : Scanner}
    (h : tokenize text file? = .ok tokens s)
    (hfound : tokens.toList = found ++ [Token.endOfInput position])
    (hspread : Spread found text'.toList) :
    (∃ tokens' s' found' position', tokenize text' file?' = .ok tokens' s' ∧
      tokens'.toList = found' ++ [Token.endOfInput position'] ∧
      found'.map Token.bare = found.map Token.bare) ∧
    ∀ limit, unplaced (parseSource text' file?' limit) = unplaced (parseSource text file? limit) := by
  obtain ⟨proper, hproper, hagree⟩ := (laid_of_tokenize h).ends
  obtain ⟨rfl, -⟩ := List.append_inj' (hproper.symm.trans hfound) rfl
  obtain ⟨tokens', s', found', position', h', hfound', hsame⟩ :=
    tokenize_spread hspread hagree file?'
  refine ⟨⟨tokens', s', found', position', h', hfound', hsame⟩, fun limit => ?_⟩
  -- the end of input is the same on both sides, but for its place
  have hbare : tokens'.map Token.bare = tokens.map Token.bare := by
    apply Array.toList_inj.mp
    rw [Array.toList_map, Array.toList_map, hfound, hfound', List.map_append, List.map_append,
      hsame]
    rfl
  rw [parseSource_eq_of_tokenize h, parseSource_eq_of_tokenize h']
  exact (mirrors_of_bare hbare (ended_of_tokenize h) limit).unplaced_eq hbare

/-- A string that looks like a comment, divided. -/
def crowded : String := "\"//\"/2.5"

def crowdedTokens : List Token := [
  ⟨.string, "\"//\"", some (.string "//"), ⟨.at "shell" 0, .at "shell" 4⟩⟩,
  ⟨.slash, "/", none, ⟨.at "shell" 4, .at "shell" 5⟩⟩,
  ⟨.number, "2.5", some (.number (.ofDecimal ⟨25, -1⟩)), ⟨.at "shell" 5, .at "shell" 8⟩⟩]

theorem tokenize_crowded : ∃ s, tokenize crowded none =
    .ok (crowdedTokens ++ [Token.endOfInput (.at "shell" 8)]).toArray s :=
  Scanner.value?_eq_some_iff.mp (by decide +kernel)

/--
The same tokens between comments, one with a quote, one behind the slash and one that nothing ends,
and a space of three bytes.
-/
def scattered : String := "//\"\n\"//\"\u3000/ //\n2.5//é"

/-- The same tokens are spread in the other source. -/
theorem spread_scattered : Spread crowdedTokens scattered.toList := by
  have htext : scattered.toList = ['/', '/', '"', '\n'] ++ ("\"//\"".toList ++
      (['\u3000'] ++ ("/".toList ++ ([' ', '/', '/', '\n'] ++ ("2.5".toList ++
        ['/', '/', 'é']))))) := by decide +kernel
  have hspace : Text.isBlank ' ' = true := by decide
  have hwide : Text.isBlank '\u3000' = true := by decide
  have hquoted (after : List Char) : Gap after ['/', '/', '"', '\n'] :=
    @Gap.line after ['"'] [] (by decide) .nil
  have hempty (after : List Char) : Gap after [' ', '/', '/', '\n'] :=
    .blank hspace (@Gap.line after [] [] (by decide) .nil)
  have hlast : Gap [] ['/', '/', 'é'] := .unended (by decide)
  -- the gaps are a line comment, a wide space, an empty comment, and one that the text ends in
  rw [htext]
  refine .cons (hquoted _) ?_ (.cons (.blank hwide .nil) ?_ (.cons (hempty _) ?_ (.nil hlast)))
  · intro c hc
    obtain rfl := Option.some.inj hc
    exact Or.inl hwide
  · intro c hc
    obtain rfl := Option.some.inj hc
    exact Or.inl hspace
  · intro c hc
    obtain rfl := Option.some.inj hc
    exact Or.inr ⟨rfl, by decide⟩

/-- The tree of both sources. -/
def quotient : Expr :=
  .binary (.literal (.string "//")) (Token.bare ⟨.slash, "/", none, ⟨.at "shell" 4, .at "shell" 5⟩⟩)
    (.literal (.number (.ofDecimal ⟨25, -1⟩)))

/-- Both sources are the same quotient. -/
theorem parseSource_scattered :
    (∃ s, tokenize crowded none =
      .ok (crowdedTokens ++ [Token.endOfInput (.at "shell" 8)]).toArray s) ∧
    Spread crowdedTokens scattered.toList ∧
    (∃ tokens s found position, tokenize scattered none = .ok tokens s ∧
      tokens.toList = found ++ [Token.endOfInput position] ∧
      found.map Token.bare = crowdedTokens.map Token.bare) ∧
    (unplaced (parseSource scattered none 2)).toOption = some quotient := by
  obtain ⟨s, hscan⟩ := tokenize_crowded
  have hquotient : (unplaced (parseSource crowded none 2)).toOption = some quotient := by
    decide +kernel
  -- the crowded text is evaluated, the scattered one only through its separators
  obtain ⟨htokens, hsame⟩ := parseSource_spread hscan rfl spread_scattered
  refine ⟨⟨s, hscan⟩, spread_scattered, htokens, ?_⟩
  rw [hsame 2]
  exact hquotient

end LoxExpr
