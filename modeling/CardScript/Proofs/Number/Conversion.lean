import CardScript.Number.Numeral
import CardScript.Proofs.Number.Rounding

/-!
# Integers as doubles

A word becomes the double nearest to it (`ofNat_eq_ofRatio`), just as a fraction does. Conversion
shifts the significand bit by bit, and keeps of the bits shifted out only the last one and whether
another was set; this is enough to round it (`Represents`).
-/

namespace CardScript.Number

open Float.Model UnpackedFloat

/-! ## Rounding significands -/

/-- What a significand and its residual bits tell of a number. -/
def Represents (em : ExtendedMantissa) (r : ℚ) : Prop :=
  match em.roundBit, em.stickyBit with
  | false, false => r = em.mantissa
  | false, true => em.mantissa < r ∧ r < em.mantissa + 1 / 2
  | true, false => r = em.mantissa + 1 / 2
  | true, true => em.mantissa + 1 / 2 < r ∧ r < em.mantissa + 1

namespace Represents

variable {em : ExtendedMantissa} {r : ℚ}

theorem nearest (h : Represents em r) : Nearest em.roundedMantissa r := by
  obtain ⟨m, round, sticky⟩ := em
  have hparity : (m + m % 2) % 2 = 0 := by omega
  cases round with
  | false =>
    cases sticky with
    | false =>
      obtain rfl : r = m := h
      show Nearest m m
      exact ⟨by linarith, by linarith, .inr ⟨by linarith, by linarith⟩⟩
    | true =>
      obtain ⟨hlow, hhigh⟩ : m < r ∧ r < m + 1 / 2 := h
      show Nearest m r
      exact ⟨by linarith, by linarith, .inr ⟨by linarith, by linarith⟩⟩
  | true =>
    cases sticky with
    | false =>
      obtain rfl : r = m + 1 / 2 := h
      show Nearest (m + m % 2) _
      refine ⟨?_, ?_, .inl hparity⟩
      all_goals
        rcases Nat.mod_two_eq_zero_or_one m with hm | hm
        all_goals
          push_cast [hm]
          linarith
    | true =>
      obtain ⟨hlow, hhigh⟩ : m + 1 / 2 < r ∧ r < m + 1 := h
      show Nearest (m + 1) r
      refine ⟨?_, ?_, .inr ⟨?_, ?_⟩⟩
      all_goals
        push_cast
        linarith

/-- The residual bits are clear for the significand itself, and for no other number. -/
theorem exact_or_above (h : Represents em r) :
    (em.roundBit || em.stickyBit) = false ∧ r = em.mantissa ∨
      (em.roundBit || em.stickyBit) = true ∧ em.mantissa < r ∧ r < em.mantissa + 1 := by
  obtain ⟨m, round, sticky⟩ := em
  cases round with
  | false =>
    cases sticky with
    | false => exact .inl ⟨rfl, h⟩
    | true => exact .inr ⟨rfl, h.1, h.2.trans (by norm_num)⟩
  | true =>
    refine .inr ⟨rfl, ?_⟩
    cases sticky with
    | false =>
      obtain rfl : r = m + 1 / 2 := h
      exact ⟨by norm_num, by norm_num⟩
    | true => exact ⟨lt_trans (by norm_num) h.1, h.2⟩

theorem half (h : Represents em r) : Represents em.shiftRightOne (r / 2) := by
  obtain ⟨n, hn⟩ : ∃ n, em.mantissa = 2 * n ∨ em.mantissa = 2 * n + 1 :=
    ⟨em.mantissa / 2, by omega⟩
  have hhalf : em.mantissa / 2 = n := by omega
  have hcases := h.exact_or_above
  rcases hn with hn | hn
  · have hbit : (em.mantissa % 2 != 0) = false := by
      rw [hn, Nat.mul_mod_right]
      rfl
    rw [hn] at hcases
    push_cast at hcases
    rw [ExtendedMantissa.shiftRightOne, hhalf, hbit]
    rcases hcases with ⟨hbits, rfl⟩ | ⟨hbits, hlow, hhigh⟩
    · rw [hbits]
      show 2 * (n : ℚ) / 2 = n
      ring
    · rw [hbits]
      exact ⟨by linarith, by linarith⟩
  · have hbit : (em.mantissa % 2 != 0) = true := by
      rw [hn, Nat.mul_add_mod]
      rfl
    rw [hn] at hcases
    push_cast at hcases
    rw [ExtendedMantissa.shiftRightOne, hhalf, hbit]
    rcases hcases with ⟨hbits, rfl⟩ | ⟨hbits, hlow, hhigh⟩
    · rw [hbits]
      show (2 * (n : ℚ) + 1) / 2 = n + 1 / 2
      ring
    · rw [hbits]
      exact ⟨by linarith, by linarith⟩

/-- Bits that are shifted out still tell on which side of the middle a number lies. -/
theorem shiftRight (h : Represents em r) (k : ℕ) : Represents (em >>> k) (r / 2 ^ k) := by
  show Represents (k.repeat ExtendedMantissa.shiftRightOne em) _
  induction k with
  | zero => simpa [Nat.repeat] using h
  | succ k ih =>
    rw [Nat.repeat, pow_succ, ← div_div]
    exact ih.half

end Represents

theorem nearest_shiftRight (m k : ℕ) :
    Nearest (ExtendedMantissa.ofMantissaAndAccuracy m .exact >>> k).roundedMantissa
      (m / 2 ^ k) := by
  have hexact : Represents (.ofMantissaAndAccuracy m .exact) m := rfl
  exact (hexact.shiftRight k).nearest

theorem roundedMantissa_shiftRight (m k : ℕ) :
    (ExtendedMantissa.ofMantissaAndAccuracy m .exact >>> k).roundedMantissa =
      roundHalfEven m (2 ^ k) := by
  refine (roundHalfEven_eq (Nat.pow_pos two_pos) ?_).symm
  push_cast
  exact nearest_shiftRight m k

theorem roundHalfEven_bounds {m k : ℕ} (hm : m.log2 = 52 + k) :
    2 ^ 52 ≤ roundHalfEven m (2 ^ k) ∧ roundHalfEven m (2 ^ k) ≤ 2 ^ 53 := by
  have hpos : 0 < 2 ^ k := Nat.pow_pos two_pos
  have hne : m ≠ 0 := by
    rintro rfl
    rw [Nat.log2_zero] at hm
    omega
  have hlow : 2 ^ 52 ≤ m / 2 ^ k := by
    rw [Nat.le_div_iff_mul_le hpos, ← Nat.pow_add, ← hm]
    exact Nat.log2_self_le hne
  have hhigh : m / 2 ^ k < 2 ^ 53 := by
    rw [Nat.div_lt_iff_lt_mul hpos, ← Nat.pow_add, show 53 + k = m.log2 + 1 by omega]
    exact Nat.lt_log2_self
  simp only [roundHalfEven]
  split <;> omega

theorem shiftToTargetExponent_eq {m k : ℕ} {e : ℤ} (hm : m.log2 = 52 + k)
    (hleast : -1074 ≤ e + k) :
    shiftToTargetExponent .binary64 m e .exact =
      (ExtendedMantissa.ofMantissaAndAccuracy m .exact >>> k, e + k) := by
  have hbits : ((Format.binary64.mantissaBits : ℕ) : ℤ) = 53 := rfl
  have hmin : Format.binary64.minExponent = -1074 := rfl
  have hshift : (max ((m.log2 : ℤ) + 1 + e - 53) (-1074) - e).toNat = k := by omega
  simp only [shiftToTargetExponent, shiftToExponent, Format.targetExponent, totalExponent, hbits,
    hmin, hshift]

theorem roundWithAccuracy_eq {s : Sign} {m m' : ℕ} {e e₁ e₂ : ℤ} {em₁ em₂ : ExtendedMantissa}
    (hfirst : shiftToTargetExponent .binary64 m e .exact = (em₁, e₁))
    (hthen : shiftToTargetExponent .binary64 em₁.roundedMantissa e₁ .exact = (em₂, e₂))
    (hm' : em₂.mantissa = m') (hpos : 0 < m') :
    roundWithAccuracy .binary64 s m e .exact = .finite s m' e₂ hpos := by
  subst hm'
  rw [roundWithAccuracy, hfirst]
  dsimp only
  rw [hthen]
  exact dif_neg hpos.ne'

/-- A significand that fits is left as it is. -/
theorem roundWithAccuracy_of_fits {s : Sign} {m : ℕ} {e : ℤ} (hm : m.log2 = 52) (he : -1074 ≤ e)
    (hpos : 0 < m) : roundWithAccuracy .binary64 s m e .exact = .finite s m e hpos := by
  have hshift : shiftToTargetExponent .binary64 m e .exact =
      (.ofMantissaAndAccuracy m .exact, e) := by
    have := shiftToTargetExponent_eq (k := 0) hm (by omega : -1074 ≤ e + (0 : ℕ))
    rwa [Nat.cast_zero, add_zero] at this
  exact roundWithAccuracy_eq hshift hshift rfl hpos

/-- A significand with too many bits is rounded to the nearest one that fits, and the carry goes to
the exponent. -/
theorem pack_roundWithAccuracy {m k : ℕ} {e : ℤ} (hm : m.log2 = 52 + k) (hleast : -1074 ≤ e + k)
    (hmost : e + k < 971) (negative : Bool) :
    Float.ofModel (Float.Model.pack (roundWithAccuracy .binary64 (signOf negative) m e .exact)) =
      Float.ofBits (UInt64.ofNat (bitsOf negative (roundHalfEven m (2 ^ k)) (e + k))) := by
  have hfirst := shiftToTargetExponent_eq hm hleast
  have hrounded := roundedMantissa_shiftRight m k
  obtain ⟨hlow, hhigh⟩ := roundHalfEven_bounds hm
  rcases hhigh.lt_or_eq with hlt | heq
  · have hlog : (roundHalfEven m (2 ^ k)).log2 = 52 + 0 :=
      (Nat.log2_eq_iff (by omega)).2 ⟨hlow, hlt⟩
    have hregular : Regular (roundHalfEven m (2 ^ k)) (e + k) :=
      ⟨by omega, hlt, hleast, by omega, by omega⟩
    have hthen := shiftToTargetExponent_eq (e := e + k) hlog (by omega)
    rw [← hrounded, Nat.cast_zero, add_zero] at hthen
    rw [ofBits_eq_pack hregular, roundWithAccuracy_eq hfirst hthen hrounded hregular.pos]
  · have hlog : (2 ^ 53).log2 = 52 + 1 := Nat.log2_two_pow
    have hregular : Regular (2 ^ 52) (e + k + 1) :=
      ⟨by decide, by decide, by omega, by omega, by omega⟩
    have hthen := shiftToTargetExponent_eq (e := e + k) hlog (by omega)
    have hmantissa :
        (ExtendedMantissa.ofMantissaAndAccuracy (2 ^ 53) .exact >>> 1).mantissa = 2 ^ 52 := rfl
    rw [← heq, ← hrounded] at hthen hmantissa
    rw [heq, bitsOf_carry negative hleast, ofBits_eq_pack hregular,
      roundWithAccuracy_eq hfirst hthen hmantissa hregular.pos]
    rfl

/-! ## Integers -/

theorem log2_mul_two_pow {n : ℕ} (hn : 0 < n) (j : ℕ) : (n * 2 ^ j).log2 = n.log2 + j := by
  rw [Nat.log2_eq_iff (Nat.mul_pos hn (Nat.pow_pos two_pos)).ne', Nat.pow_add,
    show n.log2 + j + 1 = n.log2 + 1 + j by omega, Nat.pow_add]
  exact ⟨Nat.mul_le_mul_right _ (Nat.log2_self_le hn.ne'),
    Nat.mul_lt_mul_of_pos_right Nat.lt_log2_self (Nat.pow_pos two_pos)⟩

/-- An integer is rounded from any significand and exponent that make it up. -/
theorem pack_round_eq_ofRatio {n m k : ℕ} {e : ℤ} (hn : 0 < n) (hn' : n < 2 ^ 64)
    (hm : m.log2 = 52 + k) (he : e + k = n.log2 - 52) (hvalue : (m * 2 ^ e : ℚ) = n) :
    Float.ofModel (Float.Model.pack (roundWithAccuracy .binary64 .positive m e .exact)) =
      ofRatio false n 1 := by
  have hlog : n.log2 < 64 := (Nat.log2_lt hn.ne').2 hn'
  obtain ⟨hlow, hhigh⟩ := log2_bounds hn
  obtain ⟨-, hmost⟩ := roundHalfEven_bounds hm
  have hone : (n / (1 : ℕ) : ℚ) = n := by rw [Nat.cast_one, div_one]
  have hexponent : exponentFor n 1 = e + k := by
    refine exponentFor_eq hn one_pos (by omega) (.inl ?_) ?_
    · rwa [hone, show 52 + (e + k) = n.log2 by omega]
    · rwa [hone, show 53 + (e + k) = n.log2 + 1 by omega]
  have hscaled : (n / (1 : ℕ) / 2 ^ (e + k) : ℚ) = m / 2 ^ k := by
    rw [hone, ← hvalue, zpow_two_add, zpow_natCast]
    field_simp
  have hnearest : Nearest (roundHalfEven m (2 ^ k)) (n / (1 : ℕ) / 2 ^ (e + k)) := by
    rw [hscaled, ← roundedMantissa_shiftRight]
    exact nearest_shiftRight m k
  have hfits : (e + k + 1074).toNat * twoTo 52 + roundHalfEven m (2 ^ k) ≤ 2047 * twoTo 52 := by
    have htwo : twoTo 52 = 4503599627370496 := rfl
    rw [htwo]
    omega
  rw [ofRatio_eq hn one_pos hexponent hnearest hfits false]
  exact pack_roundWithAccuracy hm (by omega) (by omega) false

/-- Small integers are put in place without being rounded. -/
theorem toFloat_small {n j : ℕ} (hj : n.log2 + j = 52) (hn : 0 < n) (hpos : 0 < n * 2 ^ j) :
    n.toUInt64.toFloat =
      Float.ofModel (Float.Model.pack (.finite .positive (n * 2 ^ j) (-j) hpos)) := by
  have hbits : ((Format.binary64.mantissaBits : ℕ) : ℤ) = 53 := rfl
  have hmin : Format.binary64.minExponent = -1074 := rfl
  have hshift : (0 - max ((n.log2 : ℤ) + 1 + 0 - 53) (-1074)).toNat = j := by omega
  have hcompare : compare (n : ℤ) 0 = .gt := by
    rw [compare_gt_iff_gt]
    exact_mod_cast hn
  have hlog : (n * 2 ^ j).log2 = 52 := by rw [log2_mul_two_pow hn, hj]
  have hword : n.toUInt64.toNat = n := by
    have : n < 2 ^ 53 := (Nat.log2_lt hn.ne').1 (by omega)
    rw [Nat.toUInt64, UInt64.toNat_ofNat']
    omega
  have hround : UnpackedFloat.ofNat .binary64 n =
      roundWithAccuracy .binary64 .positive (n * 2 ^ j) (-j) .exact := by
    simp only [UnpackedFloat.ofNat, UnpackedFloat.ofInt, UnpackedFloat.normalize, hcompare,
      Int.toNat_natCast, UnpackedFloat.round, Format.targetExponent, totalExponent,
      decreaseExponent, hbits, hmin, hshift, Nat.shiftLeft_eq]
    rw [zero_sub]
  show Float.ofModel (Float.Model.pack (UnpackedFloat.ofNat .binary64 n.toUInt64.toNat)) = _
  rw [hword, hround, roundWithAccuracy_of_fits hlog (by omega) hpos]

theorem pack_mul_pack {m m' : ℕ} {e e' : ℤ} (hm : Regular m e) (hm' : Regular m' e') :
    Float.ofModel (Float.Model.pack (.finite .positive m e hm.pos)) *
        Float.ofModel (Float.Model.pack (.finite .positive m' e' hm'.pos)) =
      Float.ofModel (Float.Model.pack
        (roundWithAccuracy .binary64 .positive (m * m') (e + e') .exact)) := by
  show Float.ofModel (Float.Model.pack (UnpackedFloat.mul .binary64
    (unpack .binary64 (pack .binary64 (.finite .positive m e hm.pos)))
    (unpack .binary64 (pack .binary64 (.finite .positive m' e' hm'.pos))))) = _
  rw [unpack_pack hm, unpack_pack hm']
  rfl

/-- A small integer is multiplied by one. -/
theorem ofNat_small {n j : ℕ} (hj : n.log2 + j = 52) (hn : 0 < n) :
    Float.ofNat n = Float.ofModel (Float.Model.pack
      (roundWithAccuracy .binary64 .positive (n * 2 ^ j * 2 ^ 52) (-j + -52) .exact)) := by
  have hlog : (n * 2 ^ j).log2 = 52 := by rw [log2_mul_two_pow hn, hj]
  have hbounds := (Nat.log2_eq_iff (Nat.mul_pos hn (Nat.pow_pos two_pos)).ne').1 hlog
  have hregular : Regular (n * 2 ^ j) (-j) := ⟨by omega, by omega, by omega, by omega, by omega⟩
  have hone : Regular (2 ^ 52) (-52) := ⟨by decide, by decide, by decide, by decide, by omega⟩
  have hbits : Float.ofBits 0x3FF0000000000000 =
      Float.ofBits (UInt64.ofNat (bitsOf false (2 ^ 52) (-52))) := rfl
  have hsmall : n < 2 ^ 53 := (Nat.log2_lt hn.ne').1 (by omega)
  rw [← pack_mul_pack hregular hone, ← toFloat_small hj hn hregular.pos]
  show Float.ofScientific n false 0 = _ * Float.ofModel (Float.Model.pack
    (.finite (signOf false) (2 ^ 52) (-52) hone.pos))
  rw [← ofBits_eq_pack hone, ← hbits, Float.ofScientific, dif_pos ⟨hsmall, by decide⟩]
  rfl

theorem ofNat_large {n : ℕ} (hn : 2 ^ 53 ≤ n) :
    Float.ofNat n = Float.ofModel (Float.Model.pack
      (roundWithAccuracy .binary64 .positive (n * 2 ^ 53) (-53) .exact)) := by
  have hbits : ((2 : ℤ) ^ Format.binary64.exponentBits) = 2048 := rfl
  show Float.ofScientific n false 0 = _
  rw [Float.ofScientific, dif_neg (by omega)]
  show Float.ofModel (Float.Model.pack (UnpackedFloat.ofScientific .binary64 n 0)) = _
  rw [UnpackedFloat.ofScientific, dif_neg (by omega), if_neg (by decide), if_neg (by omega),
    if_pos (le_refl _)]
  show Float.ofModel (Float.Model.pack
    (roundWithAccuracy .binary64 .positive (n <<< 53 * 1) (-53) .exact)) = _
  rw [Nat.mul_one, Nat.shiftLeft_eq]

/-- A word becomes the nearest double. -/
theorem ofNat_eq_ofRatio {n : ℕ} (hn : 0 < n) (hn' : n < 2 ^ 64) :
    Float.ofNat n = ofRatio false n 1 := by
  rcases Nat.lt_or_ge n (2 ^ 53) with hsmall | hlarge
  · have hlog : n.log2 < 53 := (Nat.log2_lt hn.ne').2 hsmall
    obtain ⟨j, hj⟩ : ∃ j, n.log2 + j = 52 := ⟨52 - n.log2, by omega⟩
    have hlog' : (n * 2 ^ j * 2 ^ 52).log2 = 52 + 52 := by
      rw [log2_mul_two_pow (Nat.mul_pos hn (Nat.pow_pos two_pos)), log2_mul_two_pow hn, hj]
    rw [ofNat_small hj hn]
    refine pack_round_eq_ofRatio hn hn' hlog' (by omega) ?_
    rw [zpow_two_add, zpow_neg, zpow_natCast]
    push_cast
    field_simp
    norm_num
  · have hlog : (n * 2 ^ 53).log2 = 52 + (n.log2 + 1) := by
      rw [log2_mul_two_pow hn]
      omega
    rw [ofNat_large hlarge]
    refine pack_round_eq_ofRatio hn hn' hlog (by omega) ?_
    push_cast
    field_simp
    norm_num

/-! ## Signs -/

theorem neg_pack {m : ℕ} {e : ℤ} (hm : Regular m e) :
    -Float.ofBits (UInt64.ofNat (bitsOf false m e)) =
      Float.ofBits (UInt64.ofNat (bitsOf true m e)) := by
  rw [ofBits_eq_pack hm, ofBits_eq_pack hm]
  show Float.ofModel (Float.Model.pack
    (unpack .binary64 (pack .binary64 (.finite .positive m e hm.pos))).neg) = _
  rw [unpack_pack hm]
  rfl

theorem ofInt_signed {n : ℕ} (hn : 0 < n) (negative : Bool) :
    Float.ofInt (signed negative n) = if negative then -Float.ofNat n else Float.ofNat n := by
  cases negative with
  | false => rfl
  | true =>
    obtain ⟨k, rfl⟩ := Nat.exists_eq_add_one.2 hn
    rfl

/-- A word that rounds to a double becomes this double. -/
theorem ofInt_of_holds {m n : ℕ} {e : ℤ} (hm : Regular m e) (hn : n < 2 ^ 64)
    (h : (Interval.around m e).Holds n) (negative : Bool) :
    Float.ofInt (signed negative n) = Float.ofBits (UInt64.ofNat (bitsOf negative m e)) := by
  have hpos : 0 < n := Nat.cast_pos.1 (h.pos hm)
  have hnat : Float.ofNat n = Float.ofBits (UInt64.ofNat (bitsOf false m e)) := by
    rw [ofNat_eq_ofRatio hpos hn]
    refine ofRatio_of_holds hm one_pos ?_ false
    rwa [Nat.cast_one, div_one]
  rw [ofInt_signed hpos, hnat]
  cases negative with
  | false => rfl
  | true => exact neg_pack hm

end CardScript.Number
