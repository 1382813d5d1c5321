import LoxExpr.Proofs.Source.Caret

/-!
# The layout of a diagnostic

A diagnostic is made of five pieces, each with a line feed behind it. The pieces below the header
have no line feed of their own, so they are its last four lines, with their bars in one column. The
header quotes the text of a token as it is. A token that is found where an expression is missed is
no string (`parse_findsNoLiteral`), and has no line feed; but a string may follow a complete
expression, and may go over several lines. So a diagnostic has five lines, unless it quotes such a
string: `render_layout`.
-/

namespace LoxExpr

open Text (byteLength)

/-! ## Lines that are put together -/

namespace Text

/-- A line feed at the start is a line of its own. -/
theorem lines_cons_lineFeed (cs : List Char) : lines ('\n' :: cs) = ['\n'] :: lines cs :=
  if_pos rfl

/-- Behind a line feed, the lines are cut as if nothing were in front. -/
theorem lines_append_lineFeed (a b : List Char) :
    lines (a ++ '\n' :: b) = lines (a ++ ['\n']) ++ lines b := by
  induction a with
  | nil => exact lines_cons_lineFeed b
  | cons c a ih =>
    rw [List.cons_append, List.cons_append, lines, lines, ih]
    by_cases hc : c = '\n'
    · rw [if_pos hc, if_pos hc]
      rfl
    · rw [if_neg hc, if_neg hc]
      -- the rest holds a line feed, so it has a first line for `lines` to lengthen
      cases hlines : lines (a ++ ['\n']) with
      | nil =>
        have hflatten := flatten_lines (a ++ ['\n'])
        rw [hlines] at hflatten
        simp at hflatten
      | cons line rest => rfl

/-- A text that ends at its first line feed is one line. -/
theorem lines_of_not_mem {a : List Char} (h : '\n' ∉ a) : lines (a ++ ['\n']) = [a ++ ['\n']] := by
  induction a with
  | nil => rfl
  | cons c a ih =>
    rw [List.mem_cons, not_or] at h
    rw [List.cons_append, lines, if_neg (Ne.symm h.1), ih h.2]

/-- Texts without line feeds are the lines of what they make when each is ended. -/
theorem lines_flatMap {pieces : List (List Char)} (h : ∀ piece ∈ pieces, '\n' ∉ piece) :
    lines (pieces.flatMap (· ++ ['\n'])) = pieces.map (· ++ ['\n']) := by
  induction pieces with
  | nil => rfl
  | cons piece pieces ih =>
    rw [List.forall_mem_cons] at h
    rw [List.flatMap_cons, List.append_assoc, List.singleton_append, lines_append_lineFeed,
      lines_of_not_mem h.1, ih h.2]
    rfl

/-- A text that is ended has a line for each line feed. -/
theorem length_lines (a : List Char) : (lines (a ++ ['\n'])).length = a.count '\n' + 1 := by
  induction a with
  | nil => rfl
  | cons c a ih =>
    rw [List.cons_append, lines, List.count_cons]
    by_cases hc : c = '\n'
    · rw [if_pos hc, if_pos (by simpa using hc), List.length_cons, ih]
    · rw [if_neg hc, if_neg (by simpa using hc), Nat.add_zero, ← ih]
      cases hlines : lines (a ++ ['\n']) with
      | nil =>
        rw [hlines] at ih
        cases ih
      | cons line rest => rfl

/-- What is left of a line when its ends are cut off has no line feed. -/
theorem lineFeed_not_mem_trimEnd {line below : List Char} (h : IsLine line below) :
    '\n' ∉ trimEnd (line.dropWhile (· = ' ')) := by
  -- cutting off either end adds no line feed
  have htrim {cs : List Char} (hcs : '\n' ∉ cs) : '\n' ∉ trimEnd cs := by
    obtain ⟨blanks, happ, -⟩ := trimEnd_append_blanks cs
    intro hmem
    rw [← happ] at hcs
    exact hcs (List.mem_append_left _ hmem)
  have hdrop {cs : List Char} (hcs : '\n' ∉ cs) : '\n' ∉ cs.dropWhile (· = ' ') :=
    fun hmem => hcs ((List.dropWhile_suffix _).subset hmem)
  cases h with
  | last hbody => exact htrim (hdrop hbody)
  | @ended body _ hbody =>
    -- the line feed is not among the spaces in front, and is white space at the end
    have hline : (body ++ ['\n']).dropWhile (· = ' ') = body.dropWhile (· = ' ') ++ ['\n'] := by
      rw [List.dropWhile_append]
      split
      · rename_i hnil
        rw [List.isEmpty_iff.mp hnil]
        rfl
      · rfl
    have hend :
        trimEnd (body.dropWhile (· = ' ') ++ ['\n']) = trimEnd (body.dropWhile (· = ' ')) := by
      rw [trimEnd, List.reverse_append]
      rfl
    rw [hline, hend]
    exact htrim (hdrop hbody)

end Text

/-! ## The pieces below the header -/

namespace Fault

/-- The line of the source, without the spaces in front of it and the white space at its end. -/
def excerptLine (number : Nat) (line : List Char) : String :=
  toString number ++ " | " ++ String.ofList (Text.trimEnd (line.dropWhile (· = ' ')))

/-- The dashes in front of the caret: the bytes in front of the place, less the spaces left out. -/
def dashes (place : Text.Place) : Nat :=
  place.column - (place.line.length - (place.line.dropWhile (· = ' ')).length)

/-- The three lines that have a bar: the excerpt of the place. -/
def barred (place : Text.Place) : List String :=
  [gutter place.number, excerptLine place.number place.line,
    caretLine place.number (dashes place)]

/-- In front of the first `|` there are no others. -/
theorem idxOf_bar {cs : List Char} (h : '|' ∉ cs) (rest : List Char) :
    (cs ++ '|' :: rest).idxOf '|' = cs.length := by
  rw [List.idxOf_append_of_notMem h, List.idxOf_cons_self, Nat.add_zero]

theorem isDigit_of_mem_toString {number : Nat} {c : Char} (h : c ∈ (toString number).toList) :
    c.isDigit = true := by
  rw [Nat.toString_eq_repr, Nat.toList_repr] at h
  exact Nat.isDigit_of_mem_toDigits (by decide) (by decide) h

theorem not_mem_toString {number : Nat} {c : Char} (hc : c.isDigit = false) :
    c ∉ (toString number).toList := by
  intro hmem
  rw [isDigit_of_mem_toString hmem] at hc
  cases hc

/-- The gutter is a bar behind as many spaces as the number takes, and one more. -/
theorem toList_gutter (number : Nat) :
    (gutter number).toList = List.replicate ((toString number).length + 1) ' ' ++ ['|'] := by
  simp [gutter]

/-- The line of the excerpt has its number, a bar and the text, without the space around it. -/
theorem toList_excerptLine (number : Nat) (line : List Char) :
    (excerptLine number line).toList = ((toString number).toList ++ [' ']) ++
      '|' :: ' ' :: Text.trimEnd (line.dropWhile (· = ' ')) := by
  simp [excerptLine]

/-- The line of the caret has the bar in the same column, and as many dashes as it is told. -/
theorem toList_caretLine (number n : Nat) :
    (caretLine number n).toList = List.replicate ((toString number).length + 1) ' ' ++
      '|' :: ' ' :: (List.replicate n '-' ++ ['^']) := by
  simp [caretLine, toList_gutter]

/-- All bars are in one column, whatever the number and the line. -/
theorem idxOf_bar_of_mem_barred {place : Text.Place} {l : String} (h : l ∈ barred place) :
    l.toList.idxOf '|' = (toString place.number).length + 1 := by
  have hspaces : '|' ∉ List.replicate ((toString place.number).length + 1) ' ' :=
    fun hmem => absurd (List.eq_of_mem_replicate hmem) (by decide)
  simp only [barred, List.mem_cons, List.not_mem_nil, or_false] at h
  rcases h with rfl | rfl | rfl
  · rw [toList_gutter, idxOf_bar hspaces, List.length_replicate]
  · have hnumber : '|' ∉ (toString place.number).toList ++ [' '] := by
      rw [List.mem_append, not_or]
      exact ⟨not_mem_toString (by decide), by decide⟩
    rw [toList_excerptLine, idxOf_bar hnumber, List.length_append, String.length_toList]
    rfl
  · rw [toList_caretLine, idxOf_bar hspaces, List.length_replicate]

/-- Neither of the lines with a bar is broken. -/
theorem lineFeed_not_mem_barred {place : Text.Place} {below : List Char} {l : String}
    (hline : Text.IsLine place.line below) (h : l ∈ barred place) : '\n' ∉ l.toList := by
  simp only [barred, List.mem_cons, List.not_mem_nil, or_false] at h
  rcases h with rfl | rfl | rfl
  · rw [toList_gutter]
    simp
  · have hnumber : '\n' ∉ (toString place.number).toList := not_mem_toString (by decide)
    have htext := Text.lineFeed_not_mem_trimEnd hline
    rw [toList_excerptLine]
    simpa [htext] using hnumber
  · rw [toList_caretLine]
    simp

/--
The diagnostic shows the place, in four lines below the lines of its header: the file, and then
those that have a bar.
-/
structure LaidOut (fault : Fault) (text : String) (place : Text.Place) : Prop where
  /-- The number counts the line feeds in front of the fault, and the line is the one it is on. -/
  place_at : place.At (Text.bytes text.toList) fault.position.offset.toNat
  lines_eq : Text.lines (fault.render text).toList =
    Text.lines (fault.header.toList ++ ['\n']) ++
      (("-> " ++ fault.position.file) :: barred place).map (·.toList ++ ['\n'])
  bar_eq : ∀ l ∈ barred place, l.toList.idxOf '|' = (toString place.number).length + 1
  /-- A caret on a line that is not too long has its column in 16 bits. -/
  dashes_lt : byteLength place.line < 65535 → dashes place + 1 ≤ 65535

/-- Lines are printed one after the other, each with a line feed behind it. -/
theorem toList_join_lines (ls : List String) :
    (String.join (ls.map (· ++ "\n"))).toList = (ls.map String.toList).flatMap (· ++ ['\n']) := by
  rw [String.toList_join, List.flatMap_map, List.flatMap_map]
  simp

/-- A diagnostic is a header, and four lines below it. -/
theorem render_eq {fault : Fault} {text : String} {place : Text.Place}
    (h : Text.place? text.toList fault.position.offset.toNat = some place) :
    (fault.render text).toList = fault.header.toList ++ '\n' ::
      ((("-> " ++ fault.position.file) :: barred place).map String.toList).flatMap (· ++ ['\n']) := by
  rw [render, report, h, toList_join_lines]
  exact List.append_assoc fault.header.toList ['\n'] _

/-- A fault within its source is laid out at some place. -/
theorem exists_laidOut {fault : Fault} {text : String}
    (hle : fault.position.offset.toNat ≤ text.utf8ByteSize)
    (hfile : '\n' ∉ fault.position.file.toList) : ∃ place, fault.LaidOut text place := by
  obtain ⟨place, hplace, -⟩ := report_eq_excerpt hle
  obtain ⟨above, below, hholds⟩ := Text.holds_of_place? hplace
  -- no piece holds a line feed, so splitting the print gives the pieces back
  have hpieces : ∀ piece ∈ (("-> " ++ fault.position.file) :: barred place).map String.toList,
      '\n' ∉ piece := by
    intro piece hpiece
    obtain ⟨l, hl, rfl⟩ := List.mem_map.mp hpiece
    rcases List.mem_cons.mp hl with rfl | hl
    · simpa using hfile
    · exact lineFeed_not_mem_barred hholds.isLine hl
  refine ⟨place, hholds.at, ?_, fun l hl => idxOf_bar_of_mem_barred hl, fun hlt => ?_⟩
  · rw [render_eq hplace, Text.lines_append_lineFeed, Text.lines_flatMap hpieces, List.map_map]
    rfl
  · have hcolumn := hholds.column_le
    unfold dashes
    omega

/-- There are as many lines as line feeds: four below the header, and those of the header. -/
theorem LaidOut.length_eq {fault : Fault} {text : String} {place : Text.Place}
    (h : fault.LaidOut text place) :
    (Text.lines (fault.render text).toList).length = 5 + fault.header.toList.count '\n' := by
  rw [h.lines_eq, List.length_append, Text.length_lines, List.length_map]
  show _ + 1 + 4 = _
  omega

end Fault

/-! ## The line feeds of the header -/

/-- Of the texts of tokens, only those of strings have line feeds. -/
theorem Agree.lineFeed_not_mem {kind : Kind} {lexeme : String} {literal : Option Literal}
    (h : Agree kind lexeme literal) (hkind : kind ≠ .string) : '\n' ∉ lexeme.toList := by
  -- among the patterns only blanks and strings run over a line feed
  have hpattern {p : Pattern} (hl : p.Lexeme lexeme.toList) (hblank : p ≠ .blank)
      (hstring : p ≠ .string) : '\n' ∉ lexeme.toList := by
    intro hmem
    rcases Pattern.of_lineFeed_mem_lexeme hl hmem with rfl | rfl
    · exact hblank rfl
    · exact hstring rfl
  cases h with
  | number hshape _ => exact hpattern hshape (by decide) (by decide)
  | string _ => exact absurd rfl hkind
  | reserved hshape _ => exact hpattern hshape (by decide) (by decide)
  | identifier hshape _ => exact hpattern hshape (by decide) (by decide)
  | fixed hspelling =>
    cases kind <;> cases hspelling <;> decide

section Source

variable {text : String} {file? : Option String} {limit : Nat} {fault : Fault}

/-- The tokens of a source agree with their texts, but for the end of input. -/
theorem eof_or_agree {tokens : Array Token} {s : Scanner} {t : Token}
    (h : tokenize text file? = .ok tokens s) (ht : t ∈ tokens) :
    t.kind = .eof ∨ Agree t.kind t.lexeme t.literal := by
  obtain ⟨proper, heq, hagree⟩ := (laid_of_tokenize h).ends
  rw [Array.mem_def, heq, List.mem_append, List.mem_singleton] at ht
  rcases ht with ht | rfl
  · exact Or.inr (hagree t ht)
  · exact Or.inl rfl

/-- Only strings are described in more than one line. -/
theorem lineFeed_not_mem_describe {tokens : Array Token} {s : Scanner} {t : Token}
    (h : tokenize text file? = .ok tokens s) (ht : t ∈ tokens) (hkind : t.kind ≠ .string) :
    '\n' ∉ t.describe.toList := by
  rw [Token.describe]
  split
  · decide
  · rename_i hend
    exact ((eof_or_agree h ht).resolve_left hend).lineFeed_not_mem hkind

/-- A fault of a source is located in its file. -/
theorem file_of_parseSource (h : parseSource text file? limit = .error fault) :
    fault.position.file = file?.getD "shell" := by
  rcases parseSource_eq_error_iff.mp h with ⟨s, hscan⟩ | ⟨tokens, s, q, hscan, hparse⟩
  · obtain ⟨_, _, -, -, -, hposition⟩ := stuck_of_tokenize_eq_error hscan
    rw [hposition]
    rfl
  · obtain ⟨t, ht, hblames⟩ := parse_blames hparse
    rw [tokens_ofTokens_of_tokenize hscan] at ht
    have hposition : fault.position = t.start := by cases hblames <;> rfl
    rw [hposition]
    exact ((laid_of_tokenize hscan).file_eq t (Array.mem_def.mp ht)).1

/-- The numbers of a source can all be read. -/
theorem cause_ne_badNumber (h : parseSource text file? limit = .error fault) (lexeme : String) :
    fault.cause ≠ .badNumber lexeme := by
  intro hcause
  rcases parseSource_eq_error_iff.mp h with ⟨s, hscan⟩ | ⟨tokens, s, q, hscan, hparse⟩
  · -- the scanner stops only at an open string or at a foreign character
    obtain ⟨_, _, -, -, hstuck, -⟩ := stuck_of_tokenize_eq_error hscan
    rw [hcause] at hstuck
    cases hstuck
  · obtain ⟨t, ht, hblames⟩ := parse_blames hparse
    rw [tokens_ofTokens_of_tokenize hscan] at ht
    cases hblames with
    | badNumber hkind hliteral =>
      -- the parser blames a number token without a value, and the scanner gave every one its value
      rcases eof_or_agree hscan ht with hend | hagree
      · cases hkind.symm.trans hend
      · obtain ⟨-, value, -, hvalue⟩ := hagree.coherent.number hkind
        cases hliteral.symm.trans hvalue
    | unexpected => cases hcause
    | missing => cases hcause
    | unclosed _ => cases hcause
    | tooDeep => cases hcause

/-- What is found where an expression is missed has no line feed. -/
theorem lineFeed_not_mem_found (h : parseSource text file? limit = .error fault) {rule : Rule}
    {found : String} (hcause : fault.cause = .expectedExpression rule found) :
    '\n' ∉ found.toList := by
  rcases parseSource_eq_error_iff.mp h with ⟨s, hscan⟩ | ⟨tokens, s, q, hscan, hparse⟩
  · obtain ⟨_, _, -, -, hstuck, -⟩ := stuck_of_tokenize_eq_error hscan
    rw [hcause] at hstuck
    cases hstuck
  · obtain ⟨t, ht, rfl, hkind⟩ := parse_findsNoLiteral hparse rule found hcause
    rw [tokens_ofTokens_of_tokenize hscan] at ht
    refine lineFeed_not_mem_describe hscan ht fun hstring => ?_
    rw [hstring] at hkind
    exact hkind (by decide)

/-- The header has the line feeds of a token that follows a complete expression, and no others. -/
theorem lineFeed_mem_header_iff (h : parseSource text file? limit = .error fault) :
    '\n' ∈ fault.header.toList ↔
      ∃ found, fault.cause = .unexpected found ∧ '\n' ∈ found.toList := by
  -- every other tip quotes a fixed text, a numeral or a token that is no string
  cases hcause : fault.cause with
  | unrecognised found => simp [Fault.header, hcause, Cause.tip?, Cause.name]
  | unterminatedString => simp [Fault.header, hcause, Cause.tip?, Cause.name]
  | badNumber lexeme => exact absurd hcause (cause_ne_badNumber h lexeme)
  | expectedExpression rule found =>
    have hfound := lineFeed_not_mem_found h hcause
    have hrule : '\n' ∉ rule.name.toList := by cases rule <;> decide
    simp [Fault.header, hcause, Cause.tip?, Cause.name, hfound, hrule]
  | unclosedGrouping opening => simp [Fault.header, hcause, Cause.tip?, Cause.name]
  | unexpected found => simp [Fault.header, hcause, Cause.tip?, Cause.name]
  | tooDeep limit =>
    have hlimit : '\n' ∉ (toString limit).toList := Fault.not_mem_toString (by decide)
    simpa [Fault.header, hcause, Cause.tip?, Cause.name] using hlimit

end Source

/--
**The layout of a diagnostic.** If a source does not parse and its name has no line feed, the
diagnostic begins with the header, and its last four lines are the name and the three lines that
show the place of the fault, with their bars in one column. It has no other lines, so it has five,
exactly unless a token with a line feed in it follows a complete expression: the header quotes that
token as it is.
-/
theorem render_layout {text : String} {file? : Option String} {limit : Nat} {fault : Fault}
    (h : parseSource text file? limit = .error fault)
    (hfile : '\n' ∉ (file?.getD "shell").toList) :
    fault.position.file = file?.getD "shell" ∧ "Error: ".toList <+: fault.header.toList ∧
      (∃ place, fault.LaidOut text place) ∧
      ((Text.lines (fault.render text).toList).length = 5 ↔
        ¬ ∃ found, fault.cause = .unexpected found ∧ '\n' ∈ found.toList) := by
  have hname := file_of_parseSource h
  obtain ⟨place, hlaid⟩ := Fault.exists_laidOut (offset_le_of_parseSource h) (hname ▸ hfile)
  refine ⟨hname, ?_, ⟨place, hlaid⟩, ?_⟩
  · rw [Fault.header]
    split
    · simp [String.toList_append, List.append_assoc]
    · simp [String.toList_append]
  · -- the header is one line more than its line feeds, and five lines leave it none
    rw [hlaid.length_eq, ← lineFeed_mem_header_iff h, ← List.count_pos_iff]
    omega

/-- A number, and behind it a string that goes over two lines. -/
def overTwoLines : String := "1 \"a\nb\""

/-- The string cannot follow the number. -/
def strayString : Fault := ⟨.unexpected "\"a\nb\"", .at "shell" 2⟩

theorem parseSource_overTwoLines : parseSource overTwoLines none 128 = .error strayString :=
  Fault.ofResult?_eq_some_iff.mp (by decide +kernel)

/-- Not every diagnostic has five lines, even if all lines are short: this one has six. -/
theorem render_six_lines :
    ¬ ∀ (text : String) (file? : Option String) (limit : Nat) (fault : Fault),
      (∀ line ∈ Text.lines text.toList, byteLength line < 65535) →
      '\n' ∉ (file?.getD "shell").toList → parseSource text file? limit = .error fault →
      (Text.lines (fault.render text).toList).length = 5 := by
  intro hall
  have hlength := hall overTwoLines none 128 strayString (by decide +kernel) (by decide)
    parseSource_overTwoLines
  obtain ⟨place, hlaid⟩ := Fault.exists_laidOut
    (offset_le_of_parseSource parseSource_overTwoLines) (by decide)
  -- the header alone takes two lines
  have hheader : strayString.header.toList.count '\n' = 1 := by decide +kernel
  rw [hlaid.length_eq, hheader] at hlength
  cases hlength

/-- The string makes for the sixth line; a stray parenthesis leaves the five as they are. -/
theorem render_layout_strays :
    '\n' ∉ ((none : Option String).getD "shell").toList ∧
    parseSource overTwoLines none 128 = .error strayString ∧
    (Text.lines (strayString.render overTwoLines).toList).length ≠ 5 ∧
    parseSource misplaced none 128 = .error ⟨.unexpected "(", .at "shell" 5⟩ ∧
    (Text.lines (Fault.render ⟨.unexpected "(", .at "shell" 5⟩ misplaced).toList).length = 5 := by
  have hname : '\n' ∉ ((none : Option String).getD "shell").toList := by decide
  obtain ⟨-, -, -, hsix⟩ := render_layout parseSource_overTwoLines hname
  obtain ⟨-, -, -, hfive⟩ := render_layout parseSource_misplaced hname
  refine ⟨hname, parseSource_overTwoLines, ?_, parseSource_misplaced, ?_⟩
  · -- the string that runs over a line feed is quoted in the tip as it stands
    rw [ne_eq, hsix, not_not]
    exact ⟨_, rfl, by decide⟩
  · refine hfive.mpr ?_
    rintro ⟨found, ⟨⟩, hmem⟩
    exact absurd hmem (by decide)

end LoxExpr
