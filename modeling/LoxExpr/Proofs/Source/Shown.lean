import LoxExpr.Diagnostic
import LoxExpr.Proofs.Text.Bytes
import LoxExpr.Proofs.Text.Lines

/-!
# What a diagnostic shows

A fault within its source is shown with the line that it is on. `Fault.Shows` says which part of the
source that line is and which lines the diagnostic has then, and `Fault.Draws` spells the diagnostic
out, character by character: the header, the file, and the line between two others, all behind a
bar. Every offset up to the end of the source is shown in that way (`Fault.exists_draws`), so the
diagnostic never falls back on the bare offset.
-/

namespace LoxExpr

open Text (byteLength)

namespace Fault

/-- An offset within a source has a line, and the diagnostic shows it. -/
theorem report_eq_excerpt {fault : Fault} {text : String}
    (hle : fault.position.offset.toNat ≤ text.utf8ByteSize) :
    ∃ place, Text.place? text.toList fault.position.offset.toNat = some place ∧
      fault.report text =
        [fault.header, "-> " ++ fault.position.file] ++ Fault.excerpt place := by
  cases hplace : Text.place? text.toList fault.position.offset.toNat with
  | none =>
    have hlt := Text.place?_eq_none_iff.mp hplace
    rw [Text.byteLength_toList] at hlt
    omega
  | some place => exact ⟨place, rfl, by rw [Fault.report, hplace]⟩

/-- The line below the excerpt. -/
def caretLine (number dashes : Nat) : String :=
  gutter number ++ " " ++ String.ofList (List.replicate dashes '-') ++ "^"

/--
The diagnostic shows the line of the fault's position. It stands in the source behind `above`, and
`indent` are the spaces in front of it that are left out.
-/
structure Shows (fault : Fault) (text : String) (number : Nat)
    (above indent shown below : List Char) : Prop where
  text_eq : text.toList = above ++ indent ++ shown ++ below
  starts : Text.StartsLine above
  isLine : Text.IsLine (indent ++ shown) below
  number_eq : number = 1 + above.count '\n'
  indent_eq : ∀ c ∈ indent, c = ' '
  head_ne : shown.head? ≠ some ' '
  offset_ge : byteLength above ≤ fault.position.offset.toNat
  offset_le : fault.position.offset.toNat ≤ byteLength (above ++ indent ++ shown)
  report_eq : fault.report text = [fault.header, "-> " ++ fault.position.file, gutter number,
    toString number ++ " | " ++ String.ofList (Text.trimEnd shown),
    caretLine number (fault.position.offset.toNat - byteLength (above ++ indent))]

theorem head?_dropWhile_space (cs : List Char) : (cs.dropWhile (· = ' ')).head? ≠ some ' ' := by
  intro h
  have hspace := List.head?_dropWhile_not (· = ' ') cs
  rw [h] at hspace
  simp at hspace

/-- Every position within the source is shown. -/
theorem exists_shows {fault : Fault} {text : String}
    (hle : fault.position.offset.toNat ≤ text.utf8ByteSize) :
    ∃ number above indent shown below, fault.Shows text number above indent shown below := by
  obtain ⟨place, hplace, hreport⟩ := report_eq_excerpt hle
  obtain ⟨above, below, hholds⟩ := Text.holds_of_place? hplace
  let indent := place.line.takeWhile (· = ' ')
  let shown := place.line.dropWhile (· = ' ')
  have hline : indent ++ shown = place.line := List.takeWhile_append_dropWhile
  have hspaces : ∀ c ∈ indent, c = ' ' := by
    intro c hc
    simpa using List.mem_takeWhile_imp hc
  have hoffset := hholds.offset_eq
  -- a space takes one byte, so as many columns are left out as characters
  have hindent : byteLength indent = place.line.length - shown.length := by
    rw [Text.byteLength_eq_length_iff.mpr fun c hc => by rw [hspaces c hc]; rfl, ← hline,
      List.length_append]
    omega
  refine ⟨place.number, above, indent, shown, below, ?_⟩
  exact {
    text_eq := by rw [hholds.text_eq, ← hline, ← List.append_assoc above]
    starts := hholds.starts
    isLine := hline ▸ hholds.isLine
    number_eq := hholds.number_eq
    indent_eq := hspaces
    head_ne := head?_dropWhile_space place.line
    offset_ge := by omega
    offset_le := by
      have hcolumn := hholds.column_le
      rw [List.append_assoc, hline, Text.byteLength_append]
      omega
    report_eq := by
      have hdashes : fault.position.offset.toNat - byteLength (above ++ indent) =
          place.column - (place.line.length - shown.length) := by
        rw [Text.byteLength_append]
        omega
      rw [hreport, hdashes]
      rfl }

/--
The spaces in front of a bar without a number: as many as the number has digits, and one more.
-/
def margin (number : Nat) : String :=
  String.ofList (List.replicate ((toString number).length + 1) ' ')

/--
The diagnostic, spelled out. Of the line that is shown, `seen` is what is written, and `trailing`
the white space that is not. The caret stands behind a dash for every byte between the start of what
is written and the fault.
-/
structure Draws (fault : Fault) (text : String) (number : Nat)
    (above indent seen trailing below : List Char) : Prop where
  shows : fault.Shows text number above indent (seen ++ trailing) below
  trailing_blank : ∀ c ∈ trailing, Text.isBlank c = true
  seen_end : ∀ c ∈ seen.getLast?, Text.isBlank c = false
  render_eq : fault.render text =
    fault.header ++ "\n" ++
    "-> " ++ fault.position.file ++ "\n" ++
    margin number ++ "|\n" ++
    toString number ++ " | " ++ String.ofList seen ++ "\n" ++
    margin number ++ "| " ++ String.ofList (List.replicate
      (fault.position.offset.toNat - byteLength (above ++ indent)) '-') ++ "^\n"

/-- A fault within its source is drawn: there is always a line to show. -/
theorem exists_draws {fault : Fault} {text : String}
    (hle : fault.position.offset.toNat ≤ text.utf8ByteSize) :
    ∃ number above indent seen trailing below,
      fault.Draws text number above indent seen trailing below := by
  obtain ⟨number, above, indent, shown, below, hshows⟩ := exists_shows hle
  -- what trimming takes off the line is its trailing white space
  obtain ⟨trailing, hsplit, hblank⟩ := Text.trimEnd_append_blanks shown
  refine ⟨number, above, indent, Text.trimEnd shown, trailing, below, ?_⟩
  exact {
    shows := by rw [hsplit]; exact hshows
    trailing_blank := hblank
    seen_end := Text.isBlank_getLast?_trimEnd shown
    render_eq := by
      rw [render, hshows.report_eq, ← String.toList_inj]
      simp [caretLine, gutter, margin] }

end Fault

end LoxExpr
