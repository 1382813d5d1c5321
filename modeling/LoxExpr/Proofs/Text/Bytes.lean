import LoxExpr.Text.Bytes

/-!
# Bytes and slices of a text

How the bytes of a text go with its characters, and what lies between two byte offsets of it. The
places where a text can be cut are the character boundaries of its encoding
(`isSome_dropBytes?_iff`), and a slice goes from one of them to another (`slice?_eq_some_iff`).
-/

namespace LoxExpr.Text

variable {cs : List Char}

/-! ## Sizes -/

/-- A text has no fewer bytes than characters. -/
theorem length_le_byteLength (cs : List Char) : cs.length ≤ byteLength cs := by
  induction cs with
  | nil => exact Nat.le_refl _
  | cons c cs ih =>
    have hpos : 0 < c.utf8Size := c.utf8Size_pos
    rw [List.length_cons, byteLength_cons]
    omega

/-- A text has as many bytes as characters if each of these takes one. -/
theorem byteLength_eq_length_iff : byteLength cs = cs.length ↔ ∀ c ∈ cs, c.utf8Size = 1 := by
  induction cs with
  | nil => simp
  | cons c cs ih =>
    have hpos : 0 < c.utf8Size := c.utf8Size_pos
    have hle := length_le_byteLength cs
    rw [List.forall_mem_cons, List.length_cons, byteLength_cons]
    constructor
    · intro h
      exact ⟨by omega, ih.mp (by omega)⟩
    · intro h
      have hrest := ih.mpr h.2
      omega

theorem byteLength_pos (h : cs ≠ []) : 0 < byteLength cs :=
  Nat.lt_of_lt_of_le (List.length_pos_iff.mpr h) (length_le_byteLength cs)

theorem eq_nil_of_byteLength_eq_zero (h : byteLength cs = 0) : cs = [] :=
  Classical.byContradiction fun hne => Nat.ne_of_gt (byteLength_pos hne) h

/-- The size of the encoding is counted character by character. -/
theorem byteLength_toList (text : String) : byteLength text.toList = text.utf8ByteSize := by
  have hencode (cs : List Char) : cs.utf8Encode.size = byteLength cs := by
    induction cs with
    | nil => rfl
    | cons c cs ih =>
      rw [List.utf8Encode_cons, ByteArray.size_append, List.utf8Encode_singleton, ih]
      simp
  rw [← hencode, String.utf8Encode_toList, String.size_toByteArray]

/-! ## Cuts -/

/--
Of two ways to cut a text, the one with more bytes in front goes through the rest of the other.
-/
theorem exists_append_of_byteLength_le {a b c d : List Char} (h : a ++ b = c ++ d)
    (hle : byteLength a ≤ byteLength c) : ∃ between, c = a ++ between ∧ b = between ++ d := by
  rcases List.append_eq_append_iff.mp h with ⟨between, hc, hb⟩ | ⟨between, ha, hd⟩
  · exact ⟨between, hc, hb⟩
  · rw [ha, byteLength_append] at hle
    have hnil : between = [] := eq_nil_of_byteLength_eq_zero (by omega)
    subst hnil
    rw [List.append_nil] at ha
    exact ⟨[], by rw [ha, List.append_nil], hd.symm⟩

/-- A text can be cut exactly at the character boundaries of its encoding. -/
theorem isSome_dropBytes?_iff {text : String} {n : Nat} :
    (dropBytes? n text.toList).isSome = true ↔ String.Pos.Raw.IsValid text ⟨n⟩ := by
  rw [Option.isSome_iff_exists, String.Pos.Raw.isValid_iff_exists_append]
  constructor
  · rintro ⟨rest, h⟩
    -- the part in front of the cut shows that the offset is between two characters
    obtain ⟨initial, happ, hn⟩ := dropBytes?_eq_some_iff.mp h
    refine ⟨String.ofList initial, String.ofList rest, ?_, ?_⟩
    · rw [← String.ofList_append, happ, String.ofList_toList]
    · rw [← hn, ← String.toList_ofList (l := initial), byteLength_toList, String.ofList_toList]
      rfl
  · rintro ⟨s₁, s₂, rfl, hn⟩
    refine ⟨s₂.toList, dropBytes?_eq_some_iff.mpr ⟨s₁.toList, String.toList_append.symm, ?_⟩⟩
    rw [byteLength_toList]
    exact (congrArg String.Pos.Raw.byteIdx hn).symm

/-! ## Slices -/

/--
The characters between two byte offsets of a text. There are none if the offsets are out of order,
or if one of them lies past the end or inside a character.
-/
def slice? (start stop : Nat) (cs : List Char) : Option (List Char) :=
  match dropBytes? start cs, dropBytes? stop cs with
  | some fromStart, some fromStop =>
    if start ≤ stop then some (fromStart.take (fromStart.length - fromStop.length)) else none
  | _, _ => none

/-- A slice has its offset in front of it, and ends where the other offset is. -/
theorem slice?_eq_some_iff {start stop : Nat} {body : List Char} :
    slice? start stop cs = some body ↔ ∃ before after, cs = before ++ body ++ after ∧
      byteLength before = start ∧ byteLength (before ++ body) = stop := by
  constructor
  · intro h
    unfold slice? at h
    split at h
    · rename_i fromStart fromStop hstart hstop
      split at h
      · rename_i hle
        obtain ⟨before, hbefore, rfl⟩ := dropBytes?_eq_some_iff.mp hstart
        obtain ⟨through, hthrough, rfl⟩ := dropBytes?_eq_some_iff.mp hstop
        -- the second cut is in what the first one leaves
        obtain ⟨between, rfl, rfl⟩ :=
          exists_append_of_byteLength_le (hbefore.trans hthrough.symm) hle
        rw [List.length_append, Nat.add_sub_cancel, List.take_left, Option.some.injEq] at h
        subst h
        exact ⟨before, fromStop, hthrough.symm, rfl, rfl⟩
      · cases h
    · cases h
  · rintro ⟨before, after, rfl, rfl, rfl⟩
    have hstart : dropBytes? (byteLength before) (before ++ body ++ after) = some (body ++ after) :=
      dropBytes?_eq_some_iff.mpr ⟨before, (List.append_assoc ..).symm, rfl⟩
    have hstop : dropBytes? (byteLength (before ++ body)) (before ++ body ++ after) = some after :=
      dropBytes?_eq_some_iff.mpr ⟨before ++ body, rfl, rfl⟩
    have hle : byteLength before ≤ byteLength (before ++ body) := by
      rw [byteLength_append]
      exact Nat.le_add_right _ _
    simp only [slice?, hstart, hstop]
    rw [if_pos hle, List.length_append, Nat.add_sub_cancel, List.take_left]

/-- The two bytes of an accent cannot be taken apart. -/
example : slice? 1 3 ['"', 'é', '"'] = some ['é'] ∧ slice? 1 2 ['"', 'é', '"'] = none := by decide

end LoxExpr.Text
