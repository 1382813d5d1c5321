import LoxExpr.Proofs.Expr.Printed
import LoxExpr.Proofs.Grammar.Acceptance
import LoxExpr.Proofs.Lexing.Layout
import LoxExpr.Proofs.Number.Display
import LoxExpr.Proofs.Source.Result
import LoxExpr.Proofs.Source.Values

/-!
# Printed trees of sources

Operators have fixed texts, and numbers and constants are shown as words. So the tree of a source
without strings is legible (`legible_of_parseSource`), and its printed form tells how the source was
grouped: `print_readable`.
-/

namespace LoxExpr

/-! ## What literals are shown as -/

/-- Digits are characters of words. -/
theorem isWordChar_of_isDigit {c : Char} (h : c.isDigit = true) : isWordChar c = true := by
  have hne {d : Char} (hd : d.isDigit = false) : c ≠ d := by
    rintro rfl
    exact absurd (h.symm.trans hd) (by decide)
  simp only [isWordChar, Bool.and_eq_true, decide_eq_true_eq]
  exact ⟨⟨hne (by decide), hne (by decide)⟩, hne (by decide)⟩

theorem isWord_ofList {cs : List Char} (hne : cs ≠ []) (hall : ∀ c ∈ cs, isWordChar c = true) :
    IsWord (String.ofList cs) := by
  refine ⟨fun hempty => hne ?_, by rwa [String.toList_ofList]⟩
  have hlist := congrArg String.toList hempty
  rwa [String.toList_ofList] at hlist

/-- Numerals are made of digits and the point, all of them characters of words. -/
theorem isWordChar_of_mem_numeral {cs : List Char} (h : Pattern.Lexeme .numeral cs) :
    ∀ c ∈ cs, isWordChar c = true := by
  have hdigits {ds : List Char} (hds : Pattern.IsDigits ds) : ∀ c ∈ ds, isWordChar c = true :=
    fun c hc => isWordChar_of_isDigit (hds.2 c hc)
  cases h with
  | whole hds => exact hdigits hds
  | fraction hds hfs =>
    intro c hc
    rcases List.mem_append.mp hc with hwhole | hrest
    · exact hdigits hds c hwhole
    · rcases List.mem_cons.mp hrest with rfl | hplace
      · decide
      · exact hdigits hfs c hplace

/-- Every magnitude is shown in characters of words, also if it is infinite or no number. -/
theorem Number.isWordChar_of_mem_displayMagnitude (x : Number) :
    ∀ c ∈ x.displayMagnitude, isWordChar c = true := by
  unfold displayMagnitude
  split
  · exact List.all_eq_true.mp (by decide)
  · split
    · exact List.all_eq_true.mp (by decide)
    · exact isWordChar_of_mem_numeral (isNumeral_positional _)

theorem Number.displayMagnitude_ne_nil (x : Number) : x.displayMagnitude ≠ [] := by
  unfold displayMagnitude
  split
  · decide
  · split
    · decide
    · obtain ⟨d, tail, hcons, -⟩ := (isNumeral_positional (shortest x)).numeral_head
      rw [hcons]
      exact List.cons_ne_nil d tail

/-- A number is shown as one word, infinite or not, and also if it is no number. -/
theorem Number.isWord_display (x : Number) : IsWord x.display := by
  unfold display
  split
  · decide
  · split
    · refine isWord_ofList (List.cons_ne_nil _ _) ?_
      rw [List.forall_mem_cons]
      exact ⟨by decide, isWordChar_of_mem_displayMagnitude _⟩
    · exact isWord_ofList x.displayMagnitude_ne_nil x.isWordChar_of_mem_displayMagnitude

/-- The constants are shown by their names. -/
theorem Kind.isWord_constant {kind : Kind} {v : Literal} (h : kind.constant? = some v) :
    IsWord v.display := by
  unfold constant? at h
  split at h
  · cases h
    decide
  · cases h
    decide
  · cases h
    decide
  · cases h

/-! ## The trees of a source -/

/-- The value that a literal of a source carries is attached to it. -/
theorem Agree.literal_eq_some {t : Token} {v : Literal} (h : Agree t.kind t.lexeme t.literal)
    (hkind : t.kind.IsLiteral) (hv : t.Carries v) : t.literal = some v := by
  obtain ⟨w, hw⟩ := h.valued hkind
  have hvalue : Except.ok v = (Except.ok w : Except Fault Literal) :=
    (Token.value_eq_ok_iff.mpr hv).symm.trans (Token.value_eq_ok_iff.mpr (.attached hw))
  cases hvalue
  exact hw

/-- Every literal of a source that is no string is shown as one word. -/
theorem Agree.isWord_display {t : Token} {v : Literal} (h : Agree t.kind t.lexeme t.literal)
    (hkind : t.kind.IsLiteral) (hstring : t.kind ≠ .string) (hv : t.Carries v) :
    IsWord v.display := by
  have hw := h.literal_eq_some hkind hv
  obtain ⟨kind, lexeme, literal, span⟩ := t
  change Agree kind lexeme literal at h
  -- a number and a constant print as one word; strings are what `hstring` leaves out
  cases h with
  | number _ _ =>
    cases hw
    exact Number.isWord_display _
  | string _ => exact absurd rfl hstring
  | reserved _ _ => exact Kind.isWord_constant hw
  | identifier _ _ => cases hw
  | fixed _ => cases hw

/-- The operators have texts of their own, which are words. -/
theorem Kind.exists_spelling {k : Kind} (h : k.IsPrefixOp ∨ ∃ tier, k.tier? = some tier) :
    ∃ spelling, k.spelling? = some spelling ∧ IsWord spelling ∧ spelling ≠ "group" := by
  have hall : ∀ k ∈ Kind.all, k.IsPrefixOp ∨ k.tier?.isSome = true →
      ∃ spelling ∈ k.spelling?, IsWord spelling ∧ spelling ≠ "group" := by
    decide
  refine hall k k.mem_all (h.imp_right ?_)
  rintro ⟨tier, htier⟩
  rw [htier]
  rfl

/-- Operators are printed as words, and not as groupings are. -/
theorem Agree.isWord_operator {t : Token} (h : Agree t.kind t.lexeme t.literal)
    (hkind : t.kind.IsPrefixOp ∨ ∃ tier, t.kind.tier? = some tier) :
    IsWord t.lexeme ∧ t.lexeme ≠ "group" := by
  obtain ⟨spelling, hspelling, hword⟩ := Kind.exists_spelling hkind
  rw [h.lexeme_eq hspelling]
  exact hword

/-- A tree of tokens that agree with themselves, with no string among them, is legible. -/
theorem Expr.legible_of_yields {e : Expr} {ts : List Token} (h : e.Yields ts) (hnormal : e.Normal)
    (hagree : ∀ t ∈ ts, Agree t.kind t.lexeme t.literal) (hstring : ∀ t ∈ ts, t.kind ≠ .string) :
    e.Legible := by
  -- the tokens of a node are split as its tree is, and each operator among them prints as a word
  induction h with
  | @literal t v hkind hv =>
    have ht : t ∈ [t] := List.mem_singleton_self t
    exact (hagree t ht).isWord_display hkind (hstring t ht) hv
  | unary _ ih =>
    rw [List.forall_mem_cons] at hagree hstring
    obtain ⟨hword, hgroup⟩ := hagree.1.isWord_operator (Or.inl hnormal.1)
    exact ⟨hword, hgroup, ih hnormal.2.2 hagree.2 hstring.2⟩
  | binary _ _ ihLeft ihRight =>
    obtain ⟨tier, htier, -, -, hleft, hright⟩ := hnormal
    rw [List.forall_mem_append, List.forall_mem_cons] at hagree hstring
    obtain ⟨hword, hgroup⟩ := hagree.2.1.isWord_operator (Or.inr ⟨tier, htier⟩)
    exact ⟨hword, hgroup, ihLeft hleft hagree.1 hstring.1,
      ihRight hright hagree.2.2 hstring.2.2⟩
  | grouping _ _ _ ih =>
    rw [List.forall_mem_cons, List.forall_mem_append] at hagree hstring
    exact ih hnormal hagree.2.1 hstring.2.1

/-- A source with a tree has tokens. -/
theorem exists_tokenize_of_parseSource {text : String} {file? : Option String} {limit : Nat}
    {e : Expr} (h : parseSource text file? limit = .ok e) :
    ∃ tokens s, tokenize text file? = .ok tokens s := by
  obtain ⟨tokens, s, -, hscan, -⟩ := parseSource_eq_ok_iff.mp h
  exact ⟨tokens, s, hscan⟩

/-- The tree of a source is that of its tokens, of which each agrees with itself. -/
theorem exists_isTreeOf_of_parseSource {text : String} {file? : Option String} {limit : Nat}
    {tokens : Array Token} {s : Scanner} {e : Expr} (hscan : tokenize text file? = .ok tokens s)
    (h : parseSource text file? limit = .ok e) :
    ∃ ts, e.IsTreeOf ts ∧ ∀ t ∈ ts, t ∈ tokens ∧ Agree t.kind t.lexeme t.literal := by
  obtain ⟨proper, heq, hagree⟩ := (laid_of_tokenize hscan).ends
  obtain ⟨tokens', s', q, hscan', hparse⟩ := parseSource_eq_ok_iff.mp h
  cases hscan.symm.trans hscan'
  have htree := (tree_of_parse_eq_ok hparse).1
  rw [heq, beforeEnd_append fun t ht => (hagree t ht).ne_eof] at htree
  refine ⟨proper, htree, fun t ht => ⟨Array.mem_def.mpr ?_, hagree t ht⟩⟩
  rw [heq]
  exact List.mem_append_left _ ht

/-- The tree of a source without strings is legible. -/
theorem legible_of_parseSource {text : String} {file? : Option String} {limit : Nat}
    {tokens : Array Token} {s : Scanner} {e : Expr} (hscan : tokenize text file? = .ok tokens s)
    (hstring : ∀ t ∈ tokens, t.kind ≠ .string) (h : parseSource text file? limit = .ok e) :
    e.Legible := by
  obtain ⟨ts, htree, hts⟩ := exists_isTreeOf_of_parseSource hscan h
  exact Expr.legible_of_yields htree.yields htree.normal (fun t ht => (hts t ht).2)
    fun t ht => hstring t (hts t ht).1

/--
**A printed tree shows how its source was grouped.** Two trees whose operators and literals are
words are printed alike only if they have one outline, and then they are. The trees of sources
without strings are of that kind, whatever the limit.
-/
theorem print_readable :
    (∀ a b : Expr, a.Legible → b.Legible → (a.print = b.print ↔ a.SameOutline b)) ∧
    ∀ (text : String) (file? : Option String) (limit : Nat) (tokens : Array Token) (s : Scanner)
      (e : Expr), tokenize text file? = .ok tokens s → (∀ t ∈ tokens, t.kind ≠ .string) →
      parseSource text file? limit = .ok e → e.Legible :=
  ⟨fun _ _ ha hb => Expr.print_eq_iff_sameOutline ha hb,
    fun _ _ _ _ _ _ hscan hstring h => legible_of_parseSource hscan hstring h⟩

/-- A difference with both kinds of minus and a grouping. -/
def difference : String := "-1-(2)"

/-- The same with other numerals and blanks. -/
def wideDifference : String := "- 1.0 - ( 02 )"

/-- Where a printed tree comes out, there is a tree that is printed so. -/
theorem exists_parseSource_of_print {text printed : String} {limit : Nat}
    (h : (parseSource text none limit).toOption.map Expr.print = some printed) :
    ∃ e, parseSource text none limit = .ok e ∧ e.print = printed := by
  cases hres : parseSource text none limit with
  | error fault => rw [hres] at h; cases h
  | ok e => rw [hres] at h; exact ⟨e, rfl, Option.some.inj h⟩

theorem exists_tokenize_of_kinds {text : String}
    (h : (Scanner.value? (tokenize text none)).any (·.all (·.kind ≠ .string)) = true) :
    ∃ tokens s, tokenize text none = .ok tokens s ∧ ∀ t ∈ tokens, t.kind ≠ .string := by
  cases hres : tokenize text none with
  | error fault s => rw [hres] at h; cases h
  | ok tokens s =>
    rw [hres] at h
    exact ⟨tokens, s, rfl, fun t ht => by simpa using Array.all_eq_true_iff_forall_mem.mp h t ht⟩

/-- The two sources are not written alike, but both are a negated one less a grouped two. -/
theorem print_readable_differences : ∃ a b, parseSource difference none 128 = .ok a ∧
    parseSource wideDifference none 3 = .ok b ∧ a.Legible ∧ b.Legible ∧ a.print = b.print ∧
    a.SameOutline b := by
  -- both texts are parsed by evaluation, which also gives what their trees print as
  obtain ⟨a, ha, hprint⟩ :=
    @exists_parseSource_of_print difference "(- (- 1) (group 2))" 128 (by decide +kernel)
  obtain ⟨b, hb, hprint'⟩ :=
    @exists_parseSource_of_print wideDifference "(- (- 1) (group 2))" 3 (by decide +kernel)
  obtain ⟨tokens, s, hscan, hstring⟩ := @exists_tokenize_of_kinds difference (by decide +kernel)
  obtain ⟨tokens', s', hscan', hstring'⟩ :=
    @exists_tokenize_of_kinds wideDifference (by decide +kernel)
  obtain ⟨hreadable, hsource⟩ := print_readable
  have hlegible := hsource difference none 128 tokens s a hscan hstring ha
  have hlegible' := hsource wideDifference none 3 tokens' s' b hscan' hstring' hb
  have hsame : a.print = b.print := hprint.trans hprint'.symm
  exact ⟨a, b, ha, hb, hlegible, hlegible', hsame, (hreadable a b hlegible hlegible').mp hsame⟩

end LoxExpr
