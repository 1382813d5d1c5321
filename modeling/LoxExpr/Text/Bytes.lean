/-!
# UTF-8 lengths and cuts

Offsets into a source count UTF-8 bytes, while texts are lists of characters. This module measures a
text in bytes and cuts it at a byte offset. `dropBytes?_eq_some_iff` says that a cut succeeds
exactly at the character boundaries, the end of the text included.
-/

namespace LoxExpr.Text

/-- The number of bytes that a text takes in UTF-8. -/
def byteLength : List Char → Nat
  | [] => 0
  | c :: cs => c.utf8Size + byteLength cs

@[simp] theorem byteLength_nil : byteLength [] = 0 := rfl

@[simp] theorem byteLength_cons (c : Char) (cs : List Char) :
    byteLength (c :: cs) = c.utf8Size + byteLength cs := rfl

/-- Texts that follow one another have the bytes of both. -/
@[simp] theorem byteLength_append (a b : List Char) :
    byteLength (a ++ b) = byteLength a + byteLength b := by
  induction a with
  | nil => simp
  | cons c a ih => simp [ih, Nat.add_assoc]

/--
The text after its first `n` bytes. There is none if byte `n` lies past the end or inside a
character; the end itself is a good place to cut.
-/
def dropBytes? : Nat → List Char → Option (List Char)
  | 0, cs => some cs
  | _ + 1, [] => none
  | n + 1, c :: cs => if c.utf8Size ≤ n + 1 then dropBytes? (n + 1 - c.utf8Size) cs else none

/-- A cut after `n` bytes succeeds exactly where some initial part of the text is `n` bytes long. -/
theorem dropBytes?_eq_some_iff {n : Nat} {cs rest : List Char} :
    dropBytes? n cs = some rest ↔ ∃ initial, initial ++ rest = cs ∧ byteLength initial = n := by
  -- The induction is on the text. A cut after no byte leaves all of it, and any other cut needs the
  -- first character to fit.
  induction cs generalizing n with
  | nil =>
    cases n with
    | zero =>
      constructor
      · intro h
        cases h
        exact ⟨[], rfl, rfl⟩
      · rintro ⟨initial, h, -⟩
        simp [(List.append_eq_nil_iff.mp h).2, dropBytes?]
    | succ n =>
      constructor
      · intro h
        simp [dropBytes?] at h
      · rintro ⟨initial, h, hn⟩
        simp [(List.append_eq_nil_iff.mp h).1] at hn
  | cons c cs ih =>
    have pos : 0 < c.utf8Size := c.utf8Size_pos
    cases n with
    | zero =>
      constructor
      · intro h
        cases h
        exact ⟨[], rfl, rfl⟩
      · rintro ⟨initial, h, hn⟩
        cases initial with
        | nil => simpa [dropBytes?] using h.symm
        | cons d initial =>
          -- no character is empty, so a part of no bytes holds none
          have : 0 < d.utf8Size := d.utf8Size_pos
          simp at hn
          omega
    | succ n =>
      rw [dropBytes?]
      split
      · rename_i fits
        rw [ih]
        constructor
        · rintro ⟨initial, h, hn⟩
          exact ⟨c :: initial, by simp [h], by simp; omega⟩
        · rintro ⟨initial, h, hn⟩
          cases initial with
          | nil => simp at hn
          | cons d initial =>
            obtain ⟨rfl, tail⟩ : d = c ∧ initial ++ rest = cs := by simpa using h
            simp at hn
            exact ⟨initial, tail, by omega⟩
      · rename_i small
        constructor
        · intro h
          simp at h
        · rintro ⟨initial, h, hn⟩
          cases initial with
          | nil => simp at hn
          | cons d initial =>
            obtain ⟨rfl, tail⟩ : d = c ∧ initial ++ rest = cs := by simpa using h
            simp at hn
            omega

end LoxExpr.Text
