import LoxExpr.Number.Shortest

/-!
# Exact decimals

A decimal that is exactly a magnitude of the format is read as that magnitude: rounding has nothing
to do (`nearestPlace_eq`). So the exact decimal of a number reads back as the number, and with it
whatever decimal the search for a shortest one yields (`ofDecimal_shortest`).
-/

namespace LoxExpr.Number

/-! ## Powers of ten -/

theorem tenTo_pos (n : Nat) : 0 < tenTo n :=
  Nat.pow_pos (by decide)

theorem tenTo_zero : tenTo 0 = 1 := rfl

theorem fiveTo_pos (n : Nat) : 0 < fiveTo n :=
  Nat.pow_pos (by decide)

/-- A power of ten is one of five and one of two. -/
theorem tenTo_eq (n : Nat) : tenTo n = fiveTo n * 1 <<< n := by
  rw [Nat.one_shiftLeft]
  exact Nat.mul_pow 5 2 n

/-! ## Rounding where nothing is rounded -/

/-- A quotient that is exact is not rounded. -/
theorem divNearest_mul {q den : Nat} (hden : 0 < den) : divNearest (q * den) den = q := by
  have hmod : q * den % den = 0 := Nat.mul_mod_left q den
  have hdiv : q * den / den = q := Nat.mul_div_cancel q hden
  rw [divNearest, hmod, hdiv]
  exact if_pos (Or.inl (by omega))

/-- The digits of a magnitude: the steps in it, in units of the increment of its block. -/
def significandAt (place : Nat) : Nat :=
  if place / blockSize = 0 then place else blockSize + place % blockSize

/-- The magnitude at a place is its digits, shifted by the increment of its block. -/
theorem stepsAt_eq (place : Nat) :
    stepsAt place = significandAt place <<< (place / blockSize - 1) := by
  rw [stepsAt, significandAt]
  split
  · rename_i h
    rw [h]
    rfl
  · rfl

/-- A place is that of the increment of its block, and as many more as there are digits. -/
theorem place_eq (place : Nat) :
    (place / blockSize - 1) * blockSize + significandAt place = place := by
  have hsplit : blockSize * (place / blockSize) + place % blockSize = place :=
    Nat.div_add_mod place blockSize
  rw [significandAt]
  split
  · -- a place of the first block is its own digits
    rename_i h
    rw [h]
    omega
  · rename_i h
    obtain ⟨b, hb⟩ := Nat.exists_eq_succ_of_ne_zero h
    rw [hb] at hsplit ⊢
    rw [Nat.mul_succ] at hsplit
    rw [Nat.succ_sub_one, Nat.mul_comm b]
    omega

/-- The digits of a magnitude take no more than 53 bits. -/
theorem significandAt_lt (place : Nat) : significandAt place < 1 <<< 53 := by
  have hmod : place % blockSize < blockSize := Nat.mod_lt _ (by decide)
  rw [significandAt]
  split
  · rename_i h
    have hlt : place < blockSize := (Nat.div_eq_zero_iff_lt (by decide)).mp h
    exact Nat.lt_trans hlt (by decide)
  · exact Nat.lt_of_lt_of_le (Nat.add_lt_add_left hmod blockSize) (by decide)

/-- The bits of a magnitude after the 53rd are those of the increment of its block. -/
theorem log2_stepsAt (place : Nat) : (stepsAt place).log2 - 52 = place / blockSize - 1 := by
  by_cases h : place / blockSize = 0
  · have hlt : place < blockSize := (Nat.div_eq_zero_iff_lt (by decide)).mp h
    rw [stepsAt, if_pos h, h]
    by_cases hzero : place = 0
    · rw [hzero]
      rfl
    · have hlog : place.log2 < 52 := (Nat.log2_lt hzero).mpr hlt
      omega
  -- above the first block the digits fill all 53 bits, and the increment shifts them up
  · have hlow : blockSize ≤ significandAt place := by
      rw [significandAt, if_neg h]
      exact Nat.le_add_right _ _
    have hlog : (stepsAt place).log2 = 52 + (place / blockSize - 1) := by
      rw [stepsAt_eq, Nat.shiftLeft_eq]
      have hpow : 0 < 2 ^ (place / blockSize - 1) := Nat.two_pow_pos _
      refine (Nat.log2_eq_iff ?_).mpr ⟨?_, ?_⟩
      · exact Nat.ne_of_gt (Nat.mul_pos (Nat.lt_of_lt_of_le (by decide) hlow) hpow)
      · rw [Nat.pow_add]
        exact Nat.mul_le_mul_right _ hlow
      · rw [Nat.add_right_comm, Nat.pow_add]
        exact Nat.mul_lt_mul_of_pos_right (significandAt_lt place) hpow
    omega

/-- A quotient that is a magnitude of the format is nearest to that magnitude. -/
theorem nearestPlace_eq {num den place : Nat} (hden : 0 < den) (hplace : place ≤ infinityPlace)
    (h : num * stepsInOne = stepsAt place * den) : nearestPlace num den = place := by
  have hquot : num * stepsInOne / den = stepsAt place := by
    rw [h]
    exact Nat.mul_div_cancel _ hden
  -- the quotient is in steps, and dividing it by the increment leaves no remainder
  have hround : divNearest (num * stepsInOne) (den <<< (place / blockSize - 1)) =
      significandAt place := by
    rw [h, stepsAt_eq, Nat.shiftLeft_eq, Nat.shiftLeft_eq, Nat.mul_assoc, Nat.mul_comm _ den]
    exact divNearest_mul (Nat.mul_pos hden (Nat.two_pow_pos _))
  rw [nearestPlace, hquot, log2_stepsAt, hround, place_eq]
  exact Nat.min_eq_right hplace

/-- `steps / 2 ^ n` is `steps * 5 ^ n / 10 ^ n`. -/
theorem nearestPlace_fiveTo {place n : Nat} (hplace : place ≤ infinityPlace)
    (hone : stepsInOne = 1 <<< n) :
    nearestPlace (stepsAt place * fiveTo n) (tenTo n) = place := by
  refine nearestPlace_eq (tenTo_pos n) hplace ?_
  rw [hone, tenTo_eq, Nat.mul_assoc]

/-! ## Decimals that read back -/

/-- A number without a sign is determined by its place. -/
theorem ofPlace_place {x : Number} (hsign : x.negative = false) : ofPlace x.place = x := by
  obtain ⟨negative, place⟩ := x
  cases hsign
  show (⟨false, placeOf place⟩ : Number) = ⟨false, place⟩
  congr 1
  exact Fin.ext (Nat.mod_eq_of_lt place.isLt)

theorem steps_pos {x : Number} (hzero : x.isZero = false) : 0 < x.steps := by
  have hplace : x.place.val ≠ 0 := by
    intro h
    rw [isZero, h] at hzero
    cases hzero
  rw [steps, stepsAt]
  split
  · omega
  · rw [Nat.shiftLeft_eq]
    exact Nat.mul_pos (Nat.add_pos_left (by decide) _) (Nat.two_pow_pos _)

/-- A magnitude that is not zero stays so when it is scaled. -/
theorem mul_fiveTo_ne_zero {steps : Nat} (hsteps : 0 < steps) (n : Nat) :
    steps * fiveTo n ≠ 0 :=
  Nat.ne_of_gt (Nat.mul_pos hsteps (fiveTo_pos n))

/-- Five to the `n` has at least two bits for each factor, so its digits make up for `n` places. -/
theorem mul_fiveTo_large {steps : Nat} (hsteps : 0 < steps) {n : Nat} (hn : n < 1076) :
    3 * n < (steps * fiveTo n).log2 + 1076 := by
  have hlog : 2 * n ≤ (steps * fiveTo n).log2 := by
    rw [Nat.le_log2 (mul_fiveTo_ne_zero hsteps n), Nat.pow_mul]
    calc (2 ^ 2) ^ n ≤ 5 ^ n := Nat.pow_le_pow_left (by decide) n
      _ ≤ steps * 5 ^ n := Nat.le_mul_of_pos_left _ hsteps
  omega

/-- A decimal with a fraction, unless it is far below the smallest magnitude. -/
theorem ofDecimal_fraction {digits places : Nat} (hdigits : digits ≠ 0)
    (hlarge : 3 * places < digits.log2 + 1076) :
    ofDecimal ⟨digits, -(places : Int)⟩ = ofPlace (nearestPlace digits (tenTo places)) := by
  have hwhole : (-(places : Int)).toNat = 0 := by omega
  have hplaces : (- -(places : Int)).toNat = places := by omega
  simp only [ofDecimal]
  rw [if_neg hdigits, if_neg (by omega), if_neg (by omega), hwhole, hplaces, tenTo_zero,
    Nat.mul_one]

/-- A decimal without a fraction, unless it is far above the largest magnitude. -/
theorem ofDecimal_whole {digits zeros : Nat} (hdigits : digits ≠ 0) (hsmall : zeros ≤ 310) :
    ofDecimal ⟨digits, zeros⟩ = ofPlace (nearestPlace (digits * tenTo zeros) 1) := by
  have hplaces : (-(zeros : Int)).toNat = 0 := by omega
  simp only [ofDecimal]
  rw [if_neg hdigits, if_neg (by omega), if_neg (by omega), hplaces, tenTo_zero,
    Int.toNat_natCast]

/-- The exact decimal of a number reads back as the number. -/
theorem ofDecimal_exactDecimal {x : Number} (hfinite : x.isFinite = true)
    (hsign : x.negative = false) (hzero : x.isZero = false) : ofDecimal (exactDecimal x) = x := by
  have hplace : x.place.val ≤ infinityPlace := Nat.le_of_lt (of_decide_eq_true hfinite)
  have hsteps : 0 < x.steps := steps_pos hzero
  calc ofDecimal (exactDecimal x)
      = ofPlace (nearestPlace (x.steps * fiveTo 1074) (tenTo 1074)) :=
        ofDecimal_fraction (mul_fiveTo_ne_zero hsteps 1074) (mul_fiveTo_large hsteps (by decide))
    _ = ofPlace x.place := congrArg ofPlace (nearestPlace_fiveTo hplace rfl)
    _ = x := ofPlace_place hsign

/-- A decimal that is taken from the grid reads back as the number. -/
theorem ofDecimal_of_onGrid? {x : Number} {exponent : Int} {d : Decimal}
    (h : onGrid? x exponent = some d) : ofDecimal d = x := by
  rw [onGrid?] at h
  -- a candidate on the grid is given back only after it was read and compared with the number
  split at h
  · rename_i hlow hhigh
    cases h
    split
    · exact of_decide_eq_true hlow
    · exact of_decide_eq_true hhigh
  · rename_i hlow hhigh
    cases h
    exact of_decide_eq_true hlow
  · rename_i hlow hhigh
    cases h
    exact of_decide_eq_true hhigh
  · cases h

/-- The decimal that a finite number without sign is shown by reads back. -/
theorem ofDecimal_shortest {x : Number} (hfinite : x.isFinite = true)
    (hsign : x.negative = false) (hzero : x.isZero = false) : ofDecimal (shortest x) = x := by
  rw [shortest]
  cases hsearch : (List.range 18).findSome? fun n : Nat =>
      onGrid? x (magnitudeScale x.steps - n) with
  -- where the search fails the number is shown by its exact decimal
  | none => exact ofDecimal_exactDecimal hfinite hsign hzero
  -- and what it finds was read back before it was chosen
  | some d =>
    obtain ⟨n, -, hn⟩ := List.exists_of_findSome?_eq_some hsearch
    exact ofDecimal_of_onGrid? hn

end LoxExpr.Number
