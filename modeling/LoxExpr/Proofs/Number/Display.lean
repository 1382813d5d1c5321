import LoxExpr.Number.Reader
import LoxExpr.Proofs.Lexing.Lexeme
import LoxExpr.Proofs.Number.Exact

/-!
# Shown numbers

A finite number without sign is shown as digits with an optional fraction (`display_isNumeral`), and
what is shown reads back as the number itself, to the last bit (`read?_display`).
-/

namespace LoxExpr.Number

open Pattern (IsDigits)

/-! ## Digits and their values -/

theorem digitsValue_eq (ds : List Char) : digitsValue ds = Nat.ofDigitChars 10 ds 0 :=
  Nat.ofDigitChars_eq_foldl.symm

/-- The digits of a natural number have its value. -/
theorem digitsValue_toDigits (n : Nat) : digitsValue (Nat.toDigits 10 n) = n := by
  rw [digitsValue_eq]
  exact Nat.ofDigitChars_ten_toDigits

/-- Digits in front of others count for the places behind them. -/
theorem digitsValue_append (ds fs : List Char) :
    digitsValue (ds ++ fs) = tenTo fs.length * digitsValue ds + digitsValue fs := by
  rw [digitsValue_eq, digitsValue_eq, digitsValue_eq, Nat.ofDigitChars_append]
  exact Nat.ofDigitChars_eq_ofDigitChars_zero

/-- A natural number is written in digits, and with one at least. -/
theorem isDigits_toDigits (n : Nat) : IsDigits (Nat.toDigits 10 n) :=
  ⟨Nat.toDigits_ne_nil, fun _ hc => Nat.isDigit_of_mem_toDigits (by decide) (by decide) hc⟩

/-- A natural number in a given count of digits, with zeros in front. -/
def padded (places n : Nat) : List Char :=
  List.replicate (places - (Nat.toDigits 10 n).length) '0' ++ Nat.toDigits 10 n

/-- A number that fits into the places is padded to as many digits. -/
theorem length_padded {places n : Nat} (hplaces : 0 < places) (hn : n < tenTo places) :
    (padded places n).length = places := by
  have hle : (Nat.toDigits 10 n).length ≤ places :=
    (Nat.length_toDigits_le_iff (by decide) hplaces).mpr hn
  rw [padded, List.length_append, List.length_replicate]
  omega

/-- Padding adds digits only. -/
theorem isDigits_padded (places n : Nat) : IsDigits (padded places n) := by
  obtain ⟨hne, hdigits⟩ := isDigits_toDigits n
  refine ⟨List.append_ne_nil_of_right_ne_nil _ hne, fun c hc => ?_⟩
  rcases List.mem_append.mp hc with hzero | hc
  · rw [(List.mem_replicate.mp hzero).2]
    rfl
  · exact hdigits c hc

/-- Zeros in front do not change a value. -/
theorem digitsValue_padded (places n : Nat) : digitsValue (padded places n) = n := by
  have hzeros (k : Nat) : digitsValue (List.replicate k '0') = 0 := by
    rw [digitsValue_eq, Nat.ofDigitChars_replicate_zero, Nat.mul_zero]
  rw [padded, digitsValue_append, hzeros, Nat.mul_zero, Nat.zero_add, digitsValue_toDigits]

/-! ## Decimals in positional notation -/

/-- Without decimal places, the digits are those of a natural number. -/
theorem positional_whole {digits zeros : Nat} :
    positional ⟨digits, zeros⟩ = Nat.toDigits 10 (digits * tenTo zeros) := by
  rw [positional, if_pos (Int.natCast_nonneg zeros), Int.toNat_natCast]

/-- With decimal places, the digits are split at the point. -/
theorem positional_fraction {digits places : Nat} (hplaces : 0 < places) :
    positional ⟨digits, -(places : Int)⟩ =
      Nat.toDigits 10 (digits / tenTo places) ++ '.' :: padded places (digits % tenTo places) := by
  have hneg : ¬ 0 ≤ -(places : Int) := by omega
  have htoNat : (- -(places : Int)).toNat = places := by omega
  rw [positional, if_neg hneg]
  simp only [htoNat, padded, List.append_assoc, List.cons_append, List.nil_append]

/-- Every decimal is one without a fraction or one with some places. -/
theorem decimal_cases (d : Decimal) :
    (∃ digits zeros : Nat, d = ⟨digits, zeros⟩) ∨
      ∃ digits places : Nat, 0 < places ∧ d = ⟨digits, -(places : Int)⟩ := by
  obtain ⟨digits, exponent⟩ := d
  by_cases h : 0 ≤ exponent
  · exact Or.inl ⟨digits, exponent.toNat, by rw [Int.toNat_of_nonneg h]⟩
  · refine Or.inr ⟨digits, (-exponent).toNat, by omega, ?_⟩
    rw [Int.toNat_of_nonneg (by omega), Int.neg_neg]

/-- Every decimal is written as a numeral. -/
theorem isNumeral_positional (d : Decimal) : Pattern.Lexeme .numeral (positional d) := by
  rcases decimal_cases d with ⟨digits, zeros, rfl⟩ | ⟨digits, places, hplaces, rfl⟩
  · rw [positional_whole]
    exact .whole (isDigits_toDigits _)
  · rw [positional_fraction hplaces]
    exact .fraction (isDigits_toDigits _) (isDigits_padded _ _)

/-! ## Reading them back -/

/-- The digits in front of any other character are read off together. -/
theorem spanDigits_append {ds rest : List Char} (hdigits : IsDigits ds)
    (hend : ∀ c ∈ rest.head?, c.isDigit = false) : spanDigits (ds ++ rest) = (ds, rest) := by
  rw [spanDigits, Pattern.takeWhile_append_eq hdigits.2 hend,
    Pattern.dropWhile_append_eq hdigits.2 hend]

theorem spanDigits_self {ds : List Char} (hdigits : IsDigits ds) : spanDigits ds = (ds, []) := by
  have hspan : spanDigits (ds ++ []) = (ds, []) := spanDigits_append hdigits (by simp)
  rwa [List.append_nil] at hspan

/-- Digits are read as a whole decimal. -/
theorem decimal?_whole {ds : List Char} (hdigits : IsDigits ds) :
    decimal? ds = some ⟨digitsValue ds, 0⟩ := by
  simp only [decimal?, spanDigits_self hdigits, List.append_nil, if_neg hdigits.1]
  rfl

/-- Digits with a point are read as one decimal with as many places as stand behind it. -/
theorem decimal?_fraction {ds fs : List Char} (hdigits : IsDigits ds) (hplaces : IsDigits fs) :
    decimal? (ds ++ '.' :: fs) = some ⟨digitsValue (ds ++ fs), -(fs.length : Int)⟩ := by
  have hspan : spanDigits (ds ++ '.' :: fs) = (ds, '.' :: fs) :=
    spanDigits_append hdigits (by simp)
  have hne : ds ++ fs ≠ [] := List.append_ne_nil_of_left_ne_nil hdigits.1 _
  simp only [decimal?, hspan, spanDigits_self hplaces, if_neg hne]
  simp [exponent?]

/-- A decimal with a fraction is read from its own notation; one without loses its exponent. -/
theorem decimal?_positional (d : Decimal) :
    decimal? (positional d) =
      some (if 0 ≤ d.exponent then ⟨d.digits * tenTo d.exponent.toNat, 0⟩ else d) := by
  rcases decimal_cases d with ⟨digits, zeros, rfl⟩ | ⟨digits, places, hplaces, rfl⟩
  · rw [positional_whole, decimal?_whole (isDigits_toDigits _), digitsValue_toDigits,
      if_pos (Int.natCast_nonneg zeros), Int.toNat_natCast]
  · have hneg : ¬ 0 ≤ -(places : Int) := by omega
    -- the digits behind the point are a remainder, which the padding fills up to the places
    have hmod : digits % tenTo places < tenTo places := Nat.mod_lt _ (tenTo_pos places)
    rw [positional_fraction hplaces, decimal?_fraction (isDigits_toDigits _) (isDigits_padded _ _),
      digitsValue_append, digitsValue_toDigits, digitsValue_padded, length_padded hplaces hmod,
      Nat.div_add_mod, if_neg hneg]

/-- Zero is the first magnitude, whatever its exponent. -/
theorem ofDecimal_zero (exponent : Int) : ofDecimal ⟨0, exponent⟩ = ofPlace 0 := by
  rw [ofDecimal, if_pos rfl]

/-- Infinity is not finite. -/
theorem isFinite_infinity : infinity.isFinite = false := by
  decide

/-- Writing out the zeros of a decimal does not change what it rounds to. -/
theorem ofDecimal_zeros {digits zeros : Nat}
    (hfinite : (ofDecimal ⟨digits, zeros⟩).isFinite = true) :
    ofDecimal ⟨digits * tenTo zeros, 0⟩ = ofDecimal ⟨digits, zeros⟩ := by
  by_cases hdigits : digits = 0
  · rw [hdigits, Nat.zero_mul, ofDecimal_zero, ofDecimal_zero]
  · have hsmall : zeros ≤ 310 := by
      -- with more zeros than that the number is infinite
      refine Nat.le_of_not_lt fun hlt => ?_
      have hlarge : (310 : Int) < zeros := by omega
      rw [ofDecimal, if_neg hdigits, if_pos hlarge, isFinite_infinity] at hfinite
      cases hfinite
    have hproduct : digits * tenTo zeros ≠ 0 :=
      Nat.ne_of_gt (Nat.mul_pos (Nat.pos_of_ne_zero hdigits) (tenTo_pos zeros))
    have hwhole : ofDecimal ⟨digits * tenTo zeros, (0 : Nat)⟩ =
        ofPlace (nearestPlace (digits * tenTo zeros * tenTo 0) 1) :=
      ofDecimal_whole hproduct (by decide)
    rw [tenTo_zero, Nat.mul_one] at hwhole
    rw [ofDecimal_whole hdigits hsmall]
    exact hwhole

/-- What is read from the notation of a decimal rounds to the same number, if that is finite. -/
theorem ofDecimal_of_positional {d : Decimal} (hfinite : (ofDecimal d).isFinite = true) :
    (decimal? (positional d)).map ofDecimal = some (ofDecimal d) := by
  rw [decimal?_positional, Option.map_some]
  split
  · -- the zeros of the exponent were written out as digits
    rename_i hwhole
    obtain ⟨digits, exponent⟩ := d
    have hexponent : exponent = (exponent.toNat : Int) := (Int.toNat_of_nonneg hwhole).symm
    rw [hexponent] at hfinite ⊢
    rw [Int.toNat_natCast, ofDecimal_zeros hfinite]
  · rfl

/-! ## Numerals -/

/-- A text that starts with a digit has no sign. -/
theorem read?_of_numeral {cs : List Char} (hshape : Pattern.Lexeme .numeral cs) {x : Number}
    (h : (decimal? cs).map ofDecimal = some x) : read? (String.ofList cs) = some x := by
  have hmagnitude : magnitude? cs = some x := by
    rw [magnitude?, h]
    rfl
  rw [read?, String.toList_ofList]
  split
  -- the first character is a digit, and so neither of the signs
  · obtain ⟨d, tail, heq, hd⟩ := hshape.numeral_head
    rw [(List.cons.inj heq).1.symm] at hd
    exact absurd hd (by decide)
  · obtain ⟨d, tail, heq, hd⟩ := hshape.numeral_head
    rw [(List.cons.inj heq).1.symm] at hd
    exact absurd hd (by decide)
  · exact hmagnitude

/-- Every numeral is read, as the number nearest to a decimal. -/
theorem exists_ofDecimal_of_numeral {cs : List Char} (hshape : Pattern.Lexeme .numeral cs) :
    ∃ d, read? (String.ofList cs) = some (ofDecimal d) := by
  have hdecimal : ∃ d, decimal? cs = some d := by
    cases hshape with
    | whole hdigits => exact ⟨_, decimal?_whole hdigits⟩
    | fraction hdigits hplaces => exact ⟨_, decimal?_fraction hdigits hplaces⟩
  obtain ⟨d, hd⟩ := hdecimal
  exact ⟨d, read?_of_numeral hshape (by rw [hd]; rfl)⟩

/-- A decimal is rounded to a magnitude, of which infinity is the last, and it gets no sign. -/
theorem exists_ofDecimal_eq_ofPlace (d : Decimal) :
    ∃ place, place ≤ infinityPlace ∧ ofDecimal d = ofPlace place := by
  rw [ofDecimal]
  split
  · exact ⟨0, Nat.zero_le _, rfl⟩
  · split
    · exact ⟨infinityPlace, Nat.le_refl _, rfl⟩
    · split
      · exact ⟨0, Nat.zero_le _, rfl⟩
      · exact ⟨_, Nat.min_le_left .., rfl⟩

/-- No decimal is rounded to a code for no number. -/
theorem isNaN_ofDecimal (d : Decimal) : (ofDecimal d).isNaN = false := by
  obtain ⟨place, hplace, heq⟩ := exists_ofDecimal_eq_ofPlace d
  rw [heq]
  have hle : place % placeCount ≤ place := Nat.mod_le place placeCount
  have hnot : ¬ infinityPlace < place % placeCount := by omega
  exact decide_eq_false hnot

/-- No decimal is rounded to a negative number. -/
theorem negative_ofDecimal (d : Decimal) : (ofDecimal d).negative = false := by
  obtain ⟨place, -, heq⟩ := exists_ofDecimal_eq_ofPlace d
  rw [heq]
  rfl

/-! ## Numbers as they are shown -/

/-- A finite number without a sign is shown as its shortest decimal. -/
theorem display_eq {x : Number} (hfinite : x.isFinite = true) (hsign : x.negative = false) :
    x.display = String.ofList (if x.isZero then ['0'] else positional (shortest x)) := by
  have hplace : x.place.val < infinityPlace := of_decide_eq_true hfinite
  have hnan : ¬ x.isNaN = true := fun h => by
    have := of_decide_eq_true h
    omega
  have hinf : ¬ x.isInfinite = true := fun h => by
    have := of_decide_eq_true h
    omega
  rw [display, if_neg hnan, if_neg (by rw [hsign]; decide), displayMagnitude, if_neg hinf]

/-- A finite number without a sign is shown as a numeral. -/
theorem display_isNumeral {x : Number} (hfinite : x.isFinite = true) (hsign : x.negative = false) :
    Pattern.Lexeme .numeral x.display.toList := by
  rw [display_eq hfinite hsign, String.toList_ofList]
  split
  · exact .whole ⟨List.cons_ne_nil _ _, List.forall_mem_singleton.mpr (by decide)⟩
  · exact isNumeral_positional _

/-- A finite number without sign reads back as it is shown. -/
theorem read?_display {x : Number} (hfinite : x.isFinite = true) (hsign : x.negative = false) :
    read? x.display = some x := by
  have hshape := display_isNumeral hfinite hsign
  rw [display_eq hfinite hsign, String.toList_ofList] at hshape
  rw [display_eq hfinite hsign]
  refine read?_of_numeral hshape ?_
  cases hzero : x.isZero with
  -- zero is shown by a digit of its own, as the search is for a shortest non-zero decimal
  | true =>
    have hplace : x.place.val = 0 := of_decide_eq_true hzero
    have hread : (decimal? ['0']).map ofDecimal = some (ofPlace 0) := by decide
    rw [if_pos rfl, hread, ← hplace, ofPlace_place hsign]
  | false =>
    have hback := ofDecimal_shortest hfinite hsign hzero
    rw [if_neg (by decide), ofDecimal_of_positional (by rw [hback]; exact hfinite), hback]

end LoxExpr.Number
