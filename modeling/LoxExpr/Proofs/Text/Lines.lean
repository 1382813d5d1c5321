import LoxExpr.Text.Line
import Mathlib.Data.List.DropRight

/-!
# Which line holds a byte

`place?` looks for a byte line by line. What it finds is said here without the search, first of the
characters of the text and then of its bytes:

* `Place.Holds`: the line lies in the text behind whole lines, and the byte lies in it;
* `Place.At`: the number counts the line feeds in front of the byte, and the line runs from behind
  the last of them to the next.

Both sides count from the start of the line that holds the byte, so nothing is left out when the
search takes the bytes of the lines in front of it off the offset (`search?_eq`).
-/

namespace LoxExpr.Text

/-! ## Texts in lines -/

/-- A whole line in front of what follows it. Its only line feed ends it, or it ends the text. -/
inductive IsLine : List Char → List Char → Prop where
  | ended {body below : List Char} (hbody : '\n' ∉ body) : IsLine (body ++ ['\n']) below
  | last {body : List Char} (hbody : '\n' ∉ body) : IsLine body []

/-- A line can start behind the text: that is empty, or its last line is ended. -/
def StartsLine (above : List Char) : Prop :=
  above = [] ∨ ∃ cs, above = cs ++ ['\n']

/-- The pieces are lines, and all but the last are ended. -/
inductive Broken : List (List Char) → Prop where
  | nil : Broken []
  | last {body : List Char} (hbody : '\n' ∉ body) : Broken [body]
  | ended {body : List Char} {ls : List (List Char)} (hbody : '\n' ∉ body) (hls : Broken ls) :
      Broken ((body ++ ['\n']) :: ls)

/-- The lines of a text break it behind every line feed, and only there. -/
theorem broken_lines (cs : List Char) : Broken (lines cs) := by
  induction cs with
  | nil => exact .nil
  | cons c cs ih =>
    rw [lines]
    by_cases hc : c = '\n'
    · rw [if_pos hc, hc]
      exact @Broken.ended [] _ List.not_mem_nil ih
    · rw [if_neg hc]
      have hcons {body : List Char} (hbody : '\n' ∉ body) : '\n' ∉ c :: body := by
        simp [hbody, Ne.symm hc]
      -- the character is put in front of the first line, which stays a line
      cases hlines : lines cs with
      | nil => exact .last (hcons List.not_mem_nil)
      | cons line rest =>
        rw [hlines] at ih
        cases ih with
        | last hbody => exact .last (hcons hbody)
        | ended hbody hrest => exact .ended (hcons hbody) hrest

/-- Behind one more whole line, another line starts. -/
theorem StartsLine.append {line above : List Char} (h : StartsLine above) :
    StartsLine (line ++ ['\n'] ++ above) := by
  rcases h with rfl | ⟨cs, rfl⟩
  · exact Or.inr ⟨line, List.append_nil _⟩
  · exact Or.inr ⟨line ++ ['\n'] ++ cs, (List.append_assoc _ _ _).symm⟩

/-! ## The line that is found -/

/--
The place is that of the offset: its line lies in the text between `above` and `below`, and the byte
is one of the line, or the end of the text and of a line that is not ended.
-/
structure Place.Holds (place : Place) (first : Nat) (text : List Char) (offset : Nat)
    (above below : List Char) : Prop where
  text_eq : text = above ++ place.line ++ below
  starts : StartsLine above
  isLine : IsLine place.line below
  number_eq : place.number = first + above.count '\n'
  offset_eq : byteLength above + place.column = offset
  column_le : place.column ≤ byteLength place.line
  column_lt : place.column < byteLength place.line ∨ '\n' ∉ place.line

/-- A line with its line feed adds one to the number. -/
theorem count_line {body above : List Char} (hbody : '\n' ∉ body) :
    (body ++ ['\n'] ++ above).count '\n' = 1 + above.count '\n' := by
  rw [List.count_append, List.count_append, List.count_eq_zero_of_not_mem hbody]
  rfl

/-- What is found in broken lines is the line of the offset, and the column in it. -/
theorem placeIn_holds {ls : List (List Char)} (h : Broken ls) (first offset : Nat)
    (hle : offset ≤ byteLength ls.flatten) :
    ∃ above below, (placeIn first offset ls).Holds first ls.flatten offset above below := by
  -- The induction is on how the text is broken into lines, for any number of the first one: an
  -- offset behind a line is looked for in the rest, by as many bytes fewer.
  induction h generalizing first offset with
  | nil =>
    have hzero : offset = 0 := Nat.le_zero.mp hle
    subst hzero
    exact ⟨[], [], rfl, Or.inl rfl, .last List.not_mem_nil, rfl, rfl, Nat.le_refl _,
      Or.inr List.not_mem_nil⟩
  | @last body hbody =>
    have hlast : body.getLast? ≠ some '\n' := fun hlf => hbody (List.mem_of_getLast? hlf)
    rw [List.flatten_singleton] at hle ⊢
    rw [placeIn, if_pos (Or.inr hlast)]
    exact ⟨[], [], (List.append_nil _).symm, Or.inl rfl, .last hbody, rfl, Nat.zero_add _, hle,
      Or.inr hbody⟩
  | @ended body ls hbody hls ih =>
    have hlf : (body ++ ['\n']).getLast? = some '\n' := List.getLast?_concat
    rw [List.flatten_cons] at hle ⊢
    rw [byteLength_append] at hle
    rw [placeIn]
    by_cases hin : offset < byteLength (body ++ ['\n'])
    · rw [if_pos (Or.inl hin)]
      exact ⟨[], ls.flatten, rfl, Or.inl rfl, .ended hbody, rfl, Nat.zero_add _, Nat.le_of_lt hin,
        Or.inl hin⟩
    · -- the byte is in one of the lines behind this one, which is one more above it
      rw [if_neg (not_or.mpr ⟨hin, not_not.mpr hlf⟩)]
      obtain ⟨above, below, hholds⟩ := ih (first + 1) (offset - byteLength (body ++ ['\n']))
        (by omega)
      refine ⟨body ++ ['\n'] ++ above, below, ?_, hholds.starts.append, hholds.isLine, ?_, ?_,
        hholds.column_le, hholds.column_lt⟩
      · rw [hholds.text_eq]
        simp only [List.append_assoc]
      · rw [hholds.number_eq, count_line hbody, Nat.add_assoc]
      · have heq := hholds.offset_eq
        rw [byteLength_append]
        omega

/-- A place that is found lies in the text as it should. -/
theorem holds_of_place? {text : List Char} {offset : Nat} {place : Place}
    (h : place? text offset = some place) :
    ∃ above below, place.Holds 1 text offset above below := by
  rw [place?] at h
  split at h
  · cases h
  · rename_i hle
    cases h
    have hfound := placeIn_holds (broken_lines text) 1 offset
    rw [flatten_lines] at hfound
    exact hfound (Nat.le_of_not_lt hle)

/-! ## The bytes of a text -/

/-- The bytes of a text in UTF-8. -/
def bytes (cs : List Char) : List UInt8 :=
  cs.flatMap String.utf8EncodeChar

theorem bytes_append (a b : List Char) : bytes (a ++ b) = bytes a ++ bytes b :=
  List.flatMap_append

@[simp] theorem length_bytes (cs : List Char) : (bytes cs).length = byteLength cs := by
  induction cs with
  | nil => rfl
  | cons c cs ih =>
    show (String.utf8EncodeChar c ++ bytes cs).length = _
    rw [List.length_append, ih, String.length_utf8EncodeChar, byteLength_cons]

/-- The byte of the line feed. -/
def lineFeed : UInt8 := 10

theorem lineFeed_ne_ofNat {n : Nat} (h : n % 256 ≠ 10) : lineFeed ≠ UInt8.ofNat n := by
  intro heq
  have hmod := congrArg UInt8.toNat heq
  rw [UInt8.toNat_ofNat'] at hmod
  exact h hmod.symm

/-- The bytes of any other character are others. -/
theorem lineFeed_not_mem_utf8EncodeChar {c : Char} (hc : c ≠ '\n') :
    lineFeed ∉ String.utf8EncodeChar c := by
  have hne : c.val.toNat ≠ 10 := fun h => hc (Char.ext (UInt32.toNat_inj.mp h))
  unfold String.utf8EncodeChar
  simp only
  generalize c.val.toNat = v at hne
  split
  · rw [List.mem_singleton]
    exact lineFeed_ne_ofNat (by omega)
  · -- all bytes of a longer character have their highest bit set
    split
    · simp only [List.mem_cons, List.not_mem_nil, or_false, not_or]
      exact ⟨lineFeed_ne_ofNat (by omega), lineFeed_ne_ofNat (by omega)⟩
    · split
      · simp only [List.mem_cons, List.not_mem_nil, or_false, not_or]
        exact ⟨lineFeed_ne_ofNat (by omega), lineFeed_ne_ofNat (by omega),
          lineFeed_ne_ofNat (by omega)⟩
      · simp only [List.mem_cons, List.not_mem_nil, or_false, not_or]
        exact ⟨lineFeed_ne_ofNat (by omega), lineFeed_ne_ofNat (by omega),
          lineFeed_ne_ofNat (by omega), lineFeed_ne_ofNat (by omega)⟩

theorem bytes_lineFeed : bytes ['\n'] = [lineFeed] := rfl

/-- A text without a line feed has no byte that is one. -/
theorem lineFeed_not_mem_bytes {cs : List Char} (h : '\n' ∉ cs) : lineFeed ∉ bytes cs := by
  intro hmem
  obtain ⟨c, hc, hbyte⟩ := List.mem_flatMap.mp hmem
  have hne : c ≠ '\n' := by
    rintro rfl
    exact h hc
  exact lineFeed_not_mem_utf8EncodeChar hne hbyte

/-- Line feeds can be counted in the encoding. -/
theorem count_lineFeed_bytes (cs : List Char) : (bytes cs).count lineFeed = cs.count '\n' := by
  induction cs with
  | nil => rfl
  | cons c cs ih =>
    show (String.utf8EncodeChar c ++ bytes cs).count lineFeed = _
    rw [List.count_append, ih, List.count_cons]
    -- a line feed is one byte of its own, and is in the bytes of no other character
    by_cases hc : c = '\n'
    · subst hc
      have hone : (String.utf8EncodeChar '\n').count lineFeed = 1 := rfl
      rw [hone, if_pos (by rfl), Nat.add_comm]
    · rw [List.count_eq_zero_of_not_mem (lineFeed_not_mem_utf8EncodeChar hc),
        if_neg (by simpa using hc)]
      omega

/-! ## Lines of bytes -/

/-- Where the last line of the bytes starts: behind their last line feed. -/
def lineStart (bs : List UInt8) : Nat :=
  (bs.rdropWhile (· ≠ lineFeed)).length

/-- The bytes up to and with their first line feed; all of them if there is none. -/
def throughLineFeed : List UInt8 → List UInt8
  | [] => []
  | b :: bs => if b = lineFeed then [b] else b :: throughLineFeed bs

/-- More bytes of the same line do not move where the line starts. -/
theorem lineStart_append {a b : List UInt8} (h : lineFeed ∉ b) :
    lineStart (a ++ b) = lineStart a := by
  induction b using List.reverseRecOn with
  | nil => rw [List.append_nil]
  | append_singleton b byte ih =>
    rw [List.mem_append, List.mem_singleton, not_or] at h
    rw [← ih h.1, ← List.append_assoc, lineStart,
      List.rdropWhile_concat_pos _ _ _ (by simpa using Ne.symm h.2)]
    rfl

/-- A line that starts here starts behind all the bytes above it. -/
theorem lineStart_bytes {above : List Char} (h : StartsLine above) :
    lineStart (bytes above) = byteLength above := by
  rcases h with rfl | ⟨cs, rfl⟩
  · rfl
  · rw [bytes_append, bytes_lineFeed, lineStart, List.rdropWhile_concat_neg _ _ _ (by simp),
      List.length_append, length_bytes, byteLength_append]
    rfl

/-- Bytes that are no line feed come before the one that ends the line. -/
theorem throughLineFeed_append {a b : List UInt8} (h : lineFeed ∉ a) :
    throughLineFeed (a ++ b) = a ++ throughLineFeed b := by
  induction a with
  | nil => rfl
  | cons byte a ih =>
    rw [List.mem_cons, not_or] at h
    rw [List.cons_append, throughLineFeed, if_neg (Ne.symm h.1), ih h.2, List.cons_append]

/-- The bytes of a line go through its line feed, or to the end of the text. -/
theorem throughLineFeed_bytes {line below : List Char} (h : IsLine line below) :
    throughLineFeed (bytes line ++ bytes below) = bytes line := by
  cases h with
  | ended hbody =>
    rw [bytes_append, List.append_assoc, throughLineFeed_append (lineFeed_not_mem_bytes hbody)]
    rfl
  | last hbody =>
    rw [throughLineFeed_append (lineFeed_not_mem_bytes hbody)]
    exact List.append_nil _

/-! ## The byte in its line -/

/--
The place is that of the offset in the bytes: the number is one more than the line feeds in front,
the column counts from behind the last of these, and the line runs from there to the next.
-/
structure Place.At (place : Place) (bs : List UInt8) (offset : Nat) : Prop where
  number_eq : place.number = 1 + (bs.take offset).count lineFeed
  start_add_column : lineStart (bs.take offset) + place.column = offset
  line_eq : bytes place.line = throughLineFeed (bs.drop (lineStart (bs.take offset)))
  column_le : place.column ≤ (bytes place.line).length

/-- What is in front of a byte on its own line holds no line feed. -/
theorem IsLine.lineFeed_not_mem {line below : List Char} {column : Nat} (h : IsLine line below)
    (hcolumn : column < byteLength line ∨ '\n' ∉ line) : lineFeed ∉ (bytes line).take column := by
  cases h with
  | last hbody => exact fun hmem => lineFeed_not_mem_bytes hbody (List.mem_of_mem_take hmem)
  | @ended body _ hbody =>
    -- the line feed is the last byte of the line, and the column stops in front of it
    have hlt : column < byteLength (body ++ ['\n']) := by
      rcases hcolumn with hlt | hnone
      · exact hlt
      · exact absurd (List.mem_append_right body (List.mem_singleton.mpr rfl)) hnone
    rw [byteLength_append] at hlt
    have hle : column ≤ (bytes body).length := by
      rw [length_bytes]
      exact Nat.le_of_lt_succ hlt
    rw [bytes_append, List.take_append_of_le_length hle]
    exact fun hmem => lineFeed_not_mem_bytes hbody (List.mem_of_mem_take hmem)

/-- A line found among characters is the line of that byte in the encoding. -/
theorem Place.Holds.at {place : Place} {text : List Char} {offset : Nat} {above below : List Char}
    (h : place.Holds 1 text offset above below) : place.At (bytes text) offset := by
  have hbytes : bytes text = bytes above ++ (bytes place.line ++ bytes below) := by
    rw [h.text_eq, bytes_append, bytes_append, List.append_assoc]
  have hnone := h.isLine.lineFeed_not_mem h.column_lt
  -- in front of the byte are the lines above, and the bytes of its own line up to the column
  have htake : (bytes text).take offset = bytes above ++ (bytes place.line).take place.column := by
    rw [hbytes, ← h.offset_eq, ← length_bytes, List.take_length_add_append,
      List.take_append_of_le_length (by rw [length_bytes]; exact h.column_le)]
  have hstart : lineStart ((bytes text).take offset) = byteLength above := by
    rw [htake, lineStart_append hnone, lineStart_bytes h.starts]
  refine ⟨?_, ?_, ?_, ?_⟩
  · rw [htake, List.count_append, List.count_eq_zero_of_not_mem hnone, count_lineFeed_bytes]
    exact h.number_eq
  · rw [hstart]
    exact h.offset_eq
  · rw [hstart, hbytes, ← length_bytes above, List.drop_left, throughLineFeed_bytes h.isLine]
  · rw [length_bytes]
    exact h.column_le

/-- The number tells how many lines are above, and with the column which byte it is. -/
theorem Place.At.offset_eq {place place' : Place} {bs : List UInt8} {offset offset' : Nat}
    (h : place.At bs offset) (h' : place'.At bs offset') (hnumber : place'.number = place.number)
    (hcolumn : place'.column = place.column) : offset' = offset := by
  have hstart := h.start_add_column
  have hstart' := h'.start_add_column
  have hcount := h.number_eq
  have hcount' := h'.number_eq
  -- with as many line feeds in front of both bytes, none is between them
  have hsame {m n : Nat} (hle : m ≤ n)
      (heq : (bs.take n).count lineFeed = (bs.take m).count lineFeed) :
      lineStart (bs.take n) = lineStart (bs.take m) := by
    obtain ⟨k, rfl⟩ := Nat.exists_eq_add_of_le hle
    rw [List.take_add] at heq ⊢
    apply lineStart_append
    rw [← List.count_eq_zero]
    rw [List.count_append] at heq
    omega
  -- so both bytes are on the line that starts there, and the column tells them apart
  have heq : lineStart (bs.take offset') = lineStart (bs.take offset) := by
    rcases Nat.le_total offset offset' with hle | hle
    · exact hsame hle (by omega)
    · exact (hsame hle (by omega)).symm
  omega

/-! ## The search -/

/-- The difference of two numbers; none if it is below zero. -/
def minus? (a b : Nat) : Option Nat :=
  if b ≤ a then some (a - b) else none

/--
The search with the offset as it was given, and the start of each line beside it. Every line that it
comes to asks for the column of the offset in it.
-/
def search? (number start offset : Nat) : List (List Char) → Option Place
  | [] => some ⟨number, [], 0⟩
  | line :: rest => do
    let column ← minus? offset start
    if offset < start + byteLength line ∨ line.getLast? ≠ some '\n' then
      some ⟨number, line, column⟩
    else
      search? (number + 1) (start + byteLength line) offset rest

/-- No line that the search comes to starts behind the offset, so every column is there. -/
theorem search?_eq (ls : List (List Char)) (number start column : Nat) :
    search? number start (start + column) ls = some (placeIn number column ls) := by
  induction ls generalizing number start column with
  | nil => rfl
  | cons line rest ih =>
    -- the subtraction of the start is defined, since the offset is not in front of it
    have hcolumn : minus? (start + column) start = some column := by
      rw [minus?, if_pos (Nat.le_add_right _ _), Nat.add_sub_cancel_left]
    rw [search?, hcolumn, placeIn]
    simp only [Option.bind_eq_bind, Option.bind_some, Nat.add_lt_add_iff_left]
    split
    · rfl
    · rename_i hpast
      have hle : byteLength line ≤ column := Nat.le_of_not_lt (not_or.mp hpast).1
      have hoffset : start + column = start + byteLength line + (column - byteLength line) := by
        omega
      -- behind this line, the same offset is so much less into the rest
      rw [hoffset, ih]

/--
**The line of an offset.** Only an offset past the end has no line. For any other the place is where
its byte stands, no two offsets have the same line and column, and the search subtracts nothing that
is greater than what it is taken from.
-/
theorem place?_at (text : List Char) (offset : Nat) :
    (place? text offset = none ↔ (bytes text).length < offset) ∧
    ∀ place, place? text offset = some place →
      place.At (bytes text) offset ∧
      search? 1 0 offset (lines text) = some place ∧
      ∀ offset' place', place? text offset' = some place' →
        place'.number = place.number → place'.column = place.column → offset' = offset := by
  rw [length_bytes]
  refine ⟨place?_eq_none_iff, fun place h => ?_⟩
  obtain ⟨_, _, hholds⟩ := holds_of_place? h
  refine ⟨hholds.at, ?_, fun offset' place' h' hnumber hcolumn => ?_⟩
  · -- the search starts with the first line, at offset zero
    have hsearch := search?_eq (lines text) 1 0 offset
    rw [Nat.zero_add] at hsearch
    rw [hsearch]
    rw [place?] at h
    split at h
    · cases h
    · exact h
  · obtain ⟨_, _, hholds'⟩ := holds_of_place? h'
    exact hholds.at.offset_eq hholds'.at hnumber hcolumn

/-- A character of two bytes, an empty line, and a line that is not ended. -/
def threeLines : List Char := ['é', '\n', '\n', 'a', 'b']

/-- The end of the text is past the last character of the third line, and it alone is there. -/
theorem place?_threeLines_end :
    place? threeLines 6 = some ⟨3, ['a', 'b'], 2⟩ ∧
    (⟨3, ['a', 'b'], 2⟩ : Place).At (bytes threeLines) 6 ∧
    search? 1 0 6 (lines threeLines) = some ⟨3, ['a', 'b'], 2⟩ ∧
    place? threeLines 7 = none := by
  have hplace : place? threeLines 6 = some ⟨3, ['a', 'b'], 2⟩ := by decide
  have hfound := (place?_at threeLines 6).2 _ hplace
  exact ⟨hplace, hfound.1, hfound.2.1, (place?_at threeLines 7).1.mpr (by decide)⟩

end LoxExpr.Text
