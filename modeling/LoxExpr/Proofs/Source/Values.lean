import Mathlib.Data.List.Basic
import LoxExpr.Proofs.Grammar.Unseen
import LoxExpr.Proofs.Grammar.Mirror
import LoxExpr.Proofs.Lexing.Layout

/-!
# Attached values

The scanner attaches a value to every literal, and the parser reads the value of a token without one
off its kind and its text. For the tokens of a source both are the same (`Token.Plain`), and no
other token of a source has a value attached. So the tokens without their values are mirror images
of those with them, at the same places, and are parsed to the same end (`visible_parse_unvalued`).
-/

namespace LoxExpr

open LoxExpr.Parser

/-! ## The text of a string -/

namespace Literal

/-- One quote is taken off either end, whatever stands between them. -/
theorem unquote_quoted (body : String) : unquote ("\"" ++ body ++ "\"") = body := by
  have hlist : ("\"" ++ body ++ "\"").toList = '"' :: (body.toList ++ ['"']) := by simp
  unfold unquote
  rw [hlist]
  simp

/-- A text with no quote to take off at one of its ends is kept. -/
theorem unquote_of_ne {lexeme : String} (h : ∀ body, lexeme ≠ "\"" ++ body ++ "\"") :
    unquote lexeme = lexeme := by
  unfold unquote
  split
  · rename_i rest hrest
    split
    · rename_i hlast
      -- a lexeme with a quote at both ends is quoted, unless the two are one and the same quote
      have hsplit : rest = rest.dropLast ++ ['"'] := (List.dropLast_append_getLast? _ hlast).symm
      have hquoted : lexeme = "\"" ++ String.ofList rest.dropLast ++ "\"" := by
        apply String.toList_inj.mp
        rw [hrest, hsplit]
        simp
      exact absurd hquoted (h _)
    · rfl
  · rfl

end Literal

/-! ## The values that are attached -/

section Agree

variable {kind : Kind} {lexeme : String} {literal : Option Literal}

/-- Every literal of a source has its value attached. -/
theorem Agree.valued (h : Agree kind lexeme literal) (hkind : kind.IsLiteral) :
    ∃ v, literal = some v := by
  cases h with
  | number _ _ => exact ⟨_, rfl⟩
  | string _ => exact ⟨_, rfl⟩
  | reserved _ hreserved =>
    obtain ⟨-, hnumber, hstring, -, -⟩ := Kind.of_mem_reserved (Kind.mem_reserved hreserved)
    -- of the reserved words three are constants, and none is a number or a string
    rcases hkind with rfl | rfl | rfl | rfl | rfl
    · exact ⟨_, rfl⟩
    · exact ⟨_, rfl⟩
    · exact ⟨_, rfl⟩
    · exact absurd rfl hnumber
    · exact absurd rfl hstring
  | identifier _ _ => exact absurd hkind (by decide)
  | fixed hspelling => rcases hkind with rfl | rfl | rfl | rfl | rfl <;> cases hspelling

/-- No other token of a source has one. -/
theorem Agree.literal_eq_none (h : Agree kind lexeme literal) (hkind : ¬ kind.IsLiteral) :
    literal = none := by
  cases h with
  | number _ _ => exact (hkind (by decide)).elim
  | string _ => exact (hkind (by decide)).elim
  | reserved _ _ =>
    unfold Kind.constant?
    split
    · exact (hkind (by decide)).elim
    · exact (hkind (by decide)).elim
    · exact (hkind (by decide)).elim
    · rfl
  | identifier _ _ => rfl
  | fixed _ => rfl

end Agree

/-! ## Tokens without their values -/

/-- A token without the value attached to it. -/
def Token.unvalued (t : Token) : Token :=
  { t with literal := none }

/-- A token of a source has its value also without the one that is attached. -/
theorem Agree.value_unvalued {t : Token} (h : Agree t.kind t.lexeme t.literal) :
    t.unvalued.value = t.value := by
  obtain ⟨kind, lexeme, literal, span⟩ := t
  change Agree kind lexeme literal at h
  cases h with
  | number _ hvalue => simp [Token.value, Token.unvalued, hvalue]
  | @string body _ =>
    -- the scanner cuts the text out between the quotes, the parser takes the quotes off
    have hquoted : String.ofList ('"' :: body ++ ['"']) = "\"" ++ String.ofList body ++ "\"" := by
      apply String.toList_inj.mp
      simp
    have hbody : Literal.unquote (String.ofList ('"' :: body ++ ['"'])) = String.ofList body := by
      rw [hquoted, Literal.unquote_quoted]
    exact congrArg (fun text => Except.ok (Literal.string text)) hbody
  | reserved _ _ =>
    unfold Kind.constant?
    split <;> rfl
  | identifier _ _ => rfl
  | fixed _ => rfl

/-- What is attached to the token is what its kind and its text say. -/
structure Token.Plain (t : Token) : Prop where
  value_eq : t.unvalued.value = t.value
  valued : t.kind.IsLiteral → ∃ v, t.literal = some v
  unvalued_eq : ¬ t.kind.IsLiteral → t.unvalued = t

/-- A token of a source has a value that its text gives back. -/
theorem Agree.plain {t : Token} (h : Agree t.kind t.lexeme t.literal) : t.Plain where
  value_eq := h.value_unvalued
  valued := h.valued
  unvalued_eq hkind := by rw [Token.unvalued, ← h.literal_eq_none hkind]

theorem Token.plain_endOfInput (position : Position) : (endOfInput position).Plain where
  value_eq := rfl
  valued hkind := absurd hkind (by decide : ¬ Kind.eof.IsLiteral)
  unvalued_eq _ := rfl

/-- All tokens of a source have values that their texts give back. -/
theorem plain_of_tokenize {text : String} {file? : Option String} {tokens : Array Token}
    {s : Scanner} (h : tokenize text file? = .ok tokens s) : ∀ t ∈ tokens, t.Plain := by
  intro t ht
  obtain ⟨proper, heq, hagree⟩ := (laid_of_tokenize h).ends
  rw [Array.mem_def, heq] at ht
  rcases List.mem_append.mp ht with hproper | hlast
  · exact (hagree t hproper).plain
  · rw [List.mem_singleton.mp hlast]
    exact Token.plain_endOfInput _

theorem Token.Plain.akin {t : Token} (h : t.Plain) : t.Akin t.unvalued :=
  ⟨rfl, rfl, congrArg (Except.mapError Fault.cause) h.value_eq⟩

/-- The attached value of a literal is the value with or without it. -/
theorem Token.Plain.exists_value {t : Token} (h : t.Plain) (hkind : t.kind.IsLiteral) :
    ∃ v, t.literal = some v ∧ t.value = .ok v ∧ t.unvalued.value = .ok v := by
  obtain ⟨v, hv⟩ := h.valued hkind
  have hvalue : t.value = .ok v := Token.value_eq_ok_iff.mpr (.attached hv)
  exact ⟨v, hv, hvalue, h.value_eq.trans hvalue⟩

/-! ## Parses without attached values -/

/-- Operators are no literals. -/
theorem Kind.IsLiteral.tier?_eq_none {k : Kind} (h : k.IsLiteral) : k.tier? = none := by
  rcases h with rfl | rfl | rfl | rfl | rfl <;> rfl

/-- If only literals differ from their mirror images, trees do not. -/
theorem Expr.Mirrors.eq_of_normal {ts us : Array Token} {e e' : Expr} (h : e.Mirrors ts us e')
    (hnormal : e.Normal)
    (hsame : ∀ t u, Token.Mirrors ts us t u → ¬ t.kind.IsLiteral → u = t) : e' = e := by
  -- the tree keeps only its operators as tokens, and in a normal tree no operator is a literal
  induction h with
  | literal v => rfl
  | unary hop _ ih =>
    obtain ⟨hbefore, -, hoperand⟩ := hnormal
    rw [ih hoperand, hsame _ _ hop fun hkind => hkind.not_isPrefixOp hbefore]
  | @binary t _ _ _ _ _ _ hop _ ihLeft ihRight =>
    obtain ⟨tier, htier, -, -, hleft, hright⟩ := hnormal
    have hoperator : ¬ t.kind.IsLiteral := by
      intro hkind
      rw [hkind.tier?_eq_none] at htier
      cases htier
    rw [ihLeft hleft, ihRight hright, hsame _ _ hop hoperator]
  | grouping _ ih => rw [ih hnormal]

section Unvalued

variable {tokens : Array Token}

/-- An end of input has no value to lose. -/
theorem ended_unvalued (hended : tokens.back?.map Token.kind = some .eof) :
    (tokens.map Token.unvalued).back?.map Token.kind = some .eof := by
  rw [Array.back?_map, Option.map_map]
  exact hended

open Grammar

/-- What shows of two outcomes that differ in attached values is the same. -/
theorem Grammar.Outcome.Mirrors.visible_unvalued {r r' : Outcome}
    (h : Outcome.Mirrors tokens (tokens.map Token.unvalued) r r') (hplain : ∀ t ∈ tokens, t.Plain)
    (hnormal : ∀ e q, r = .ok e q → e.Normal) : Outcome.visible r' = Outcome.visible r := by
  cases h with
  | @ok e e' q q' he hq =>
    have hsame : e' = e := by
      refine he.eq_of_normal (hnormal e q rfl) fun t u htu hkind => ?_
      obtain ⟨ht, rfl⟩ := htu.of_map
      exact (hplain t ht).unvalued_eq hkind
    show ((.ok e' : Except Fault Expr), q'.cursor, q'.nesting) = (.ok e, q.cursor, q.nesting)
    rw [hsame, hq.cursor_eq, hq.nesting_eq]
  | @error fault fault' q q' hfault hq =>
    -- a token stands where it stands without its value
    obtain ⟨hcause, t, u, htu, hposition, hposition'⟩ := hfault
    obtain ⟨-, rfl⟩ := htu.of_map
    have hplace : fault'.position = fault.position := hposition'.trans hposition.symm
    have hsame : fault' = fault := by
      cases fault'
      cases hcause
      cases hplace
      rfl
    show ((.error fault' : Except Fault Expr), q'.cursor, q'.nesting) =
      (.error fault, q.cursor, q.nesting)
    rw [hsame, hq.cursor_eq, hq.nesting_eq]

/-- Tokens of sources are parsed alike without their attached values. -/
theorem visible_parse_unvalued (hplain : ∀ t ∈ tokens, t.Plain)
    (hended : tokens.back?.map Token.kind = some .eof) (limit : Nat) :
    Outcome.visible (parse (tokens.map Token.unvalued) limit) =
      Outcome.visible (parse tokens limit) := by
  have h := @parse_mirrors_of_akin tokens (tokens.map Token.unvalued) limit
  rw [tokens_ofTokens, tokens_ofTokens, if_pos hended, if_pos (ended_unvalued hended)] at h
  have hakin : ∀ t u, Token.Mirrors tokens (tokens.map Token.unvalued) t u → t.Akin u := by
    intro t u htu
    obtain ⟨ht, rfl⟩ := htu.of_map
    exact (hplain t ht).akin
  exact (h hakin).visible_unvalued hplain fun e q hok => (tree_of_parse_eq_ok hok).1.normal

end Unvalued

open Grammar

/--
**An attached value is the value of the text.** The tokens of a source without the values attached
to them are parsed, under any limit, to the same tree or the same fault, with the same cursor and
nesting. Each literal among them has its value with or without the attachment. Any string token
without one stands for the text between a quote at either end, or for all of its text if there are
no two.
-/
theorem parse_unvalued :
    (∀ (text : String) (file? : Option String) (tokens : Array Token) (s : Scanner),
      tokenize text file? = .ok tokens s →
        (∀ limit, Outcome.visible (parse (tokens.map Token.unvalued) limit) =
          Outcome.visible (parse tokens limit)) ∧
        ∀ t ∈ tokens, t.kind.IsLiteral →
          ∃ v, t.literal = some v ∧ t.value = .ok v ∧ t.unvalued.value = .ok v) ∧
    ∀ t : Token, t.kind = .string → t.literal = none →
      (∀ body, t.lexeme = "\"" ++ body ++ "\"" → t.value = .ok (.string body)) ∧
      ((∀ body, t.lexeme ≠ "\"" ++ body ++ "\"") → t.value = .ok (.string t.lexeme)) := by
  refine ⟨fun text file? tokens s h => ?_, fun t hkind hliteral => ?_⟩
  · -- every token of a scan has the value its kind asks for, so what is erased is read again
    have hplain := plain_of_tokenize h
    exact ⟨visible_parse_unvalued hplain (ended_of_tokenize h),
      fun t ht => (hplain t ht).exists_value⟩
  · have hvalue : t.value = .ok (.string (Literal.unquote t.lexeme)) :=
      Token.value_eq_ok_iff.mpr (.string hliteral hkind)
    refine ⟨fun body hbody => ?_, fun hbody => ?_⟩
    · rw [hvalue, hbody, Literal.unquote_quoted]
    · rw [hvalue, Literal.unquote_of_ne hbody]

/-- A negative number with a zero too many, and a string of two lines that begins with an accent. -/
def valued : String := "-0.10==\"é\n\""

def valuedTokens : Array Token := #[
  ⟨.dash, "-", none, ⟨.at "shell" 0, .at "shell" 1⟩⟩,
  ⟨.number, "0.10", some (.number (.ofDecimal ⟨10, -2⟩)), ⟨.at "shell" 1, .at "shell" 5⟩⟩,
  ⟨.equals, "==", none, ⟨.at "shell" 5, .at "shell" 7⟩⟩,
  ⟨.string, "\"é\n\"", some (.string "é\n"), ⟨.at "shell" 7, .at "shell" 12⟩⟩,
  Token.endOfInput (.at "shell" 12)]

theorem tokenize_valued : ∃ s, tokenize valued none = .ok valuedTokens s :=
  Scanner.value?_eq_some_iff.mp (by decide +kernel)

/-- A string token made by hand. -/
def handmade (lexeme : String) : Token := ⟨.string, lexeme, none, ⟨.at "t" 0, .at "t" 0⟩⟩

/-- Three quotes are one in quotes, and a lone quote is itself. -/
theorem parse_unvalued_valued :
    (∃ s, tokenize valued none = .ok valuedTokens s) ∧
    Outcome.visible (parse (valuedTokens.map Token.unvalued) 3) =
      Outcome.visible (parse valuedTokens 3) ∧
    ((Outcome.visible (parse valuedTokens 3)).1.toOption.map Expr.depth = some 3) ∧
    (handmade "\"\"\"").value = .ok (.string "\"") ∧
    (handmade "\"").value = .ok (.string "\"") := by
  obtain ⟨s, hscan⟩ := tokenize_valued
  obtain ⟨hsource, hstring⟩ := parse_unvalued
  obtain ⟨hparse, -⟩ := hsource valued none valuedTokens s hscan
  -- a lone quote is not a quoted text: two quotes are longer than one
  have hlone : ∀ body, "\"" ≠ "\"" ++ body ++ "\"" := by
    intro body hbody
    have hlength := congrArg String.length hbody
    simp at hlength
  refine ⟨⟨s, hscan⟩, hparse 3, by decide +kernel, ?_, ?_⟩
  · exact (hstring (handmade "\"\"\"") rfl rfl).1 "\"" rfl
  · exact (hstring (handmade "\"") rfl rfl).2 hlone

end LoxExpr
