import CardScript.Proofs.Number.ReadBack

/-!
# The nearest double

A fraction is rounded to units of the last place of its leading power of two (`Rounds`). No finite
double lies nearer to it, and of two that are equally near it becomes the one with the even
significand (`Rounds.le_distance`). From `overflowBound` on, fractions become infinite
(`ofRatio_nearest`, `ofRatio_infinite`), and so do decimals (`ofDecimal_nearest`,
`ofDecimal_infinite`).
-/

namespace CardScript.Number

/-- The middle between the largest finite double and the power of two that would follow it. -/
def overflowBound : ℚ := (2 ^ 54 - 1) * 2 ^ (970 : ℤ)

theorem overflowBound_eq : overflowBound = (2 ^ 53 - 1 / 2) * 2 ^ (971 : ℤ) := by
  rw [overflowBound, show (971 : ℤ) = 970 + 1 by rfl, zpow_two_add]
  ring

theorem one_lt_overflowBound : 1 < overflowBound :=
  calc (1 : ℚ) < 2 ^ (971 : ℤ) := one_lt_zpow₀ one_lt_two (by decide)
    _ = 1 * 2 ^ (971 : ℤ) := (one_mul _).symm
    _ ≤ (2 ^ 53 - 1 / 2) * 2 ^ (971 : ℤ) :=
      mul_le_mul_of_nonneg_right (by norm_num) (zpow_two_pos _).le
    _ = overflowBound := overflowBound_eq.symm

theorem overflowBound_pos : 0 < overflowBound :=
  one_pos.trans one_lt_overflowBound

theorem overflowBound_lt : overflowBound < 2 ^ (53 + 971 : ℤ) := by
  rw [overflowBound_eq, zpow_two_add]
  exact mul_lt_mul_of_pos_right (by norm_num) (zpow_two_pos _)

theorem least_lt_overflowBound : 2 ^ (-1075 : ℤ) < overflowBound :=
  (zpow_lt_one_of_neg₀ one_lt_two (by decide)).trans one_lt_overflowBound

/-- Among the doubles of a sign, `x` is the nearest one to `± r`: none is nearer, and of two that
are equally near it is the one with the even significand. -/
def IsNearest (x : Float) (negative : Bool) (r : ℚ) : Prop :=
  ∃ m e, parts x = .finite negative m e ∧ ∀ y n f, parts y = .finite negative n f →
    |r - m * 2 ^ e| ≤ |r - n * 2 ^ f| ∧
      (|r - m * 2 ^ e| = |r - n * 2 ^ f| → (n * 2 ^ f : ℚ) = m * 2 ^ e ∨ m % 2 = 0)

theorem IsNearest.isFinite {x : Float} {negative : Bool} {r : ℚ} (h : IsNearest x negative r) :
    isFinite x = true := by
  obtain ⟨m, e, hparts, -⟩ := h
  simp only [Number.isFinite, hparts]

/-! ## Whole numbers -/

theorem nearest_roundHalfEven (num : ℕ) {den : ℕ} (hden : 0 < den) :
    Nearest (roundHalfEven num den) (num / den) := by
  have hden' : (0 : ℚ) < den := Nat.cast_pos.2 hden
  have hmod := Nat.mod_lt num hden
  have hnum : (num : ℚ) = (num / den : ℕ) * den + (num % den : ℕ) := by
    exact_mod_cast (Nat.div_add_mod' num den).symm
  have hquotient : (num / den : ℚ) = (num / den : ℕ) + (num % den : ℕ) / den := by
    rw [div_eq_iff hden'.ne', add_mul, div_mul_cancel₀ _ hden'.ne', ← hnum]
  have hless : ((num % den : ℕ) : ℚ) / den < 1 := by
    rw [div_lt_one hden']
    exact_mod_cast hmod
  have hnonneg : (0 : ℚ) ≤ (num % den : ℕ) / den := by positivity
  have hhalf : ((num % den : ℕ) : ℚ) / den < 1 / 2 ↔ 2 * (num % den) < den := by
    rw [div_lt_div_iff₀ hden' two_pos, one_mul, mul_comm]
    exact_mod_cast Iff.rfl
  have hhalf' : (1 / 2 : ℚ) < (num % den : ℕ) / den ↔ den < 2 * (num % den) := by
    rw [div_lt_div_iff₀ two_pos hden', one_mul, mul_comm _ (2 : ℚ)]
    exact_mod_cast Iff.rfl
  rw [hquotient]
  simp only [roundHalfEven]
  generalize num / den = q at *
  generalize num % den = r at *
  generalize (r : ℚ) / den = t at *
  split
  next hup =>
    simp only [Bool.or_eq_true, Bool.and_eq_true, decide_eq_true_eq, beq_iff_eq] at hup
    have hle : 1 / 2 ≤ t := not_lt.1 fun h => by
      have := hhalf.1 h
      omega
    refine ⟨by push_cast; linarith, by push_cast; linarith, ?_⟩
    rcases hup with hup | ⟨-, hodd⟩
    · have := hhalf'.2 hup
      exact .inr ⟨by push_cast; linarith, by push_cast; linarith⟩
    · exact .inl (by omega)
  next hdown =>
    simp only [Bool.or_eq_true, Bool.and_eq_true, decide_eq_true_eq, beq_iff_eq, not_or,
      not_and] at hdown
    have hle : t ≤ 1 / 2 := not_lt.1 fun h => hdown.1 (hhalf'.1 h)
    refine ⟨by linarith, by linarith, ?_⟩
    by_cases heven : q % 2 = 0
    · exact .inl heven
    · have hne : 2 * r ≠ den := fun h => hdown.2 h (by omega)
      have := hhalf.2 (by omega)
      exact .inr ⟨by linarith, by linarith⟩

/-- No whole number is nearer, and none is as near to a number with an odd neighbour. -/
theorem Nearest.le_distance {q : ℕ} {r : ℚ} (h : Nearest q r) (k : ℕ) :
    |r - q| ≤ |r - k| ∧ (|r - q| = |r - k| → k = q ∨ q % 2 = 0) := by
  have hlow := h.low
  have hhigh := h.high
  rcases Nat.lt_trichotomy k q with hk | rfl | hk
  · have hk' : (k : ℚ) + 1 ≤ q := by exact_mod_cast hk
    rw [abs_of_nonneg (a := r - k) (by linarith)]
    refine ⟨abs_le.2 ⟨by linarith, by linarith⟩, fun heq => .inr (h.tie.resolve_right ?_)⟩
    rintro ⟨hlow, -⟩
    rcases abs_choice (r - q) with habs | habs <;> linarith
  · exact ⟨le_refl _, fun _ => .inl rfl⟩
  · have hk' : (q : ℚ) + 1 ≤ k := by exact_mod_cast hk
    rw [abs_of_nonpos (a := r - k) (by linarith)]
    refine ⟨abs_le.2 ⟨by linarith, by linarith⟩, fun heq => .inr (h.tie.resolve_right ?_)⟩
    rintro ⟨-, hhigh⟩
    rcases abs_choice (r - q) with habs | habs <;> linarith

/-! ## Units of the last place -/

/-- A number is rounded to `q * 2 ^ e`: to a multiple of the unit at which its significand has
fifty-three bits, or of the least unit there is. -/
structure Rounds (q : ℕ) (e : ℤ) (r : ℚ) : Prop where
  nearest : Nearest q (r / 2 ^ e)
  least : -1074 ≤ e
  low : e = -1074 ∨ 2 ^ 52 * 2 ^ e ≤ r
  high : r < 2 ^ 53 * 2 ^ e

namespace Rounds

variable {q : ℕ} {e : ℤ} {r : ℚ}

/-- Up to half of the least double, numbers become zero. -/
theorem zero (hr : 0 ≤ r) (hr' : r ≤ 2 ^ (-1075 : ℤ)) : Rounds 0 (-1074) r := by
  have hhalf : (2 : ℚ) ^ (-1075 : ℤ) = 1 / 2 * 2 ^ (-1074 : ℤ) := by
    rw [show (-1075 : ℤ) = -1 + -1074 by rfl, zpow_two_add, zpow_neg_one, one_div]
  have hpos := zpow_two_pos (-1074)
  have hnonneg : 0 ≤ r / 2 ^ (-1074 : ℤ) := div_nonneg hr hpos.le
  rw [hhalf] at hr'
  have hle : r / 2 ^ (-1074 : ℤ) ≤ 1 / 2 := (div_le_iff₀ hpos).2 hr'
  refine ⟨⟨?_, ?_, .inl rfl⟩, le_refl _, .inl rfl, ?_⟩
  · rw [Nat.cast_zero]
    linarith
  · rw [Nat.cast_zero]
    linarith
  · exact lt_of_le_of_lt hr' (mul_lt_mul_of_pos_right (by norm_num) hpos)

theorem le_two_pow (h : Rounds q e r) : q ≤ 2 ^ 53 := by
  have hlow := h.nearest.low
  have hhigh : r / 2 ^ e < 2 ^ 53 := (div_lt_iff₀ (zpow_two_pos e)).2 h.high
  have hlt : (q : ℚ) < (2 ^ 53 + 1 : ℕ) := by
    push_cast
    linarith
  have := Nat.cast_lt.1 hlt
  omega

theorem two_pow_le (h : Rounds q e r) : 2 ^ 52 ≤ q ∨ e = -1074 := by
  refine h.low.symm.imp_left fun hlow => ?_
  have hhigh := h.nearest.high
  have hlow : 2 ^ 52 ≤ r / 2 ^ e := (le_div_iff₀ (zpow_two_pos e)).2 hlow
  have hlt : ((2 ^ 52 : ℕ) : ℚ) < (q + 1 : ℕ) := by
    push_cast
    linarith
  have := Nat.cast_lt.1 hlt
  omega

/-- A double is a multiple of the unit, or lies below all numbers with this unit. -/
theorem grid (h : Rounds q e r) {n : ℕ} {f : ℤ} (hn : n < 2 ^ 53) (hf : -1074 ≤ f) :
    (∃ k : ℕ, (n * 2 ^ f : ℚ) = k * 2 ^ e) ∨
      (n * 2 ^ f : ℚ) < 2 ^ 52 * 2 ^ e ∧ 2 ^ 52 * 2 ^ e ≤ r := by
  rcases le_or_gt e f with hle | hlt
  · obtain ⟨j, hj⟩ := Int.eq_ofNat_of_zero_le (sub_nonneg.2 hle)
    refine .inl ⟨n * 2 ^ j, ?_⟩
    rw [show f = j + e by omega, zpow_two_add, zpow_natCast]
    push_cast
    ring
  · have hn' : (n : ℚ) < 2 ^ 53 := by exact_mod_cast hn
    refine .inr ⟨?_, h.low.resolve_left (by omega)⟩
    calc (n * 2 ^ f : ℚ) < 2 ^ 53 * 2 ^ f := mul_lt_mul_of_pos_right hn' (zpow_two_pos f)
      _ ≤ 2 ^ 53 * 2 ^ (e - 1) :=
        mul_le_mul_of_nonneg_left (zpow_two_le.2 (by omega)) (by norm_num)
      _ = 2 ^ 52 * 2 ^ e := by
        rw [zpow_sub₀ two_ne_zero]
        ring

/-- Distances in units of the last place. -/
theorem abs_sub_eq (r : ℚ) (k : ℕ) (e : ℤ) : |r - k * 2 ^ e| = |r / 2 ^ e - k| * 2 ^ e := by
  have hpos := zpow_two_pos e
  rw [← abs_of_pos hpos, ← abs_mul, abs_of_pos hpos, sub_mul, div_mul_cancel₀ _ hpos.ne']

theorem le_distance (h : Rounds q e r) {n : ℕ} {f : ℤ} (hn : n < 2 ^ 53) (hf : -1074 ≤ f) :
    |r - q * 2 ^ e| ≤ |r - n * 2 ^ f| ∧
      (|r - q * 2 ^ e| = |r - n * 2 ^ f| → (n * 2 ^ f : ℚ) = q * 2 ^ e ∨ q % 2 = 0) := by
  have hpos := zpow_two_pos e
  rcases h.grid hn hf with ⟨k, hk⟩ | ⟨hbelow, hr⟩
  · obtain ⟨hle, htie⟩ := h.nearest.le_distance k
    rw [hk, abs_sub_eq, abs_sub_eq]
    refine ⟨mul_le_mul_of_nonneg_right hle hpos.le, fun heq => ?_⟩
    exact (htie (mul_right_cancel₀ hpos.ne' heq)).imp_left fun hkq => by rw [hkq]
  · -- the double lies below the first number with this unit, and this number is no nearer
    have hle := (h.nearest.le_distance (2 ^ 52)).1
    have hlt : |r - q * 2 ^ e| < |r - n * 2 ^ f| := by
      calc |r - q * 2 ^ e| = |r / 2 ^ e - q| * 2 ^ e := abs_sub_eq r q e
        _ ≤ |r / 2 ^ e - (2 ^ 52 : ℕ)| * 2 ^ e := mul_le_mul_of_nonneg_right hle hpos.le
        _ = |r - (2 ^ 52 : ℕ) * 2 ^ e| := (abs_sub_eq r _ e).symm
        _ = r - 2 ^ 52 * 2 ^ e := by
          push_cast
          exact abs_of_nonneg (by linarith)
        _ < r - n * 2 ^ f := by linarith
        _ ≤ |r - n * 2 ^ f| := le_abs_self _
    exact ⟨hlt.le, fun heq => absurd heq hlt.ne⟩

end Rounds

/-! ## Bits -/

theorem toBits_ofBits {m : ℕ} {e : ℤ} (hm : Regular m e) (negative : Bool) :
    (Float.ofBits (UInt64.ofNat (bitsOf negative m e))).toBits.toNat = bitsOf negative m e := by
  rw [ofBits_eq_pack hm]
  exact toNat_pack hm negative

theorem parts_ofBits {m : ℕ} {e : ℤ} (hm : Regular m e) (negative : Bool) :
    parts (Float.ofBits (UInt64.ofNat (bitsOf negative m e))) = .finite negative m e := by
  have hlt := hm.lt
  have hleast := hm.least
  have hmost := hm.most
  have hnormal := hm.normal
  have h63 : twoTo 63 = 9223372036854775808 := rfl
  have h52 : twoTo 52 = 4503599627370496 := rfl
  have h11 : twoTo 11 = 2048 := rfl
  have hsign : (bitsOf negative m e / twoTo 63 == 1) = negative := by
    unfold bitsOf
    rw [h63, h52]
    cases negative with
    | false =>
      rw [if_neg Bool.false_ne_true, beq_eq_false_iff_ne]
      omega
    | true =>
      rw [if_pos rfl, beq_iff_eq]
      omega
  simp only [parts, toBits_ofBits hm, hsign]
  unfold bitsOf
  rw [h63, h52, h11]
  have hwhole : ∃ s, (if negative then 9223372036854775808 else 0) = 9223372036854775808 * s := by
    cases negative with
    | false => exact ⟨0, rfl⟩
    | true => exact ⟨1, rfl⟩
  obtain ⟨s, hs⟩ := hwhole
  rw [hs, if_neg (by rw [beq_iff_eq]; omega)]
  by_cases hleading : 2 ^ 52 ≤ m
  · rw [if_neg (by rw [beq_iff_eq]; omega)]
    congr 1 <;> omega
  · have := hnormal (by omega)
    rw [if_pos (by rw [beq_iff_eq]; omega)]
    congr 1 <;> omega

theorem parts_zero (negative : Bool) :
    parts (Float.ofBits (UInt64.ofNat (bitsOf negative 0 (-1074)))) =
      .finite negative 0 (-1074) := by
  cases negative with
  | false => decide +kernel
  | true => decide +kernel

theorem parts_infinite (negative : Bool) :
    parts (Float.ofBits (UInt64.ofNat ((if negative then twoTo 63 else 0) + 2047 * twoTo 52))) =
      .infinite negative := by
  cases negative with
  | false => decide +kernel
  | true => decide +kernel

theorem lt_of_parts {y : Float} {negative : Bool} {n : ℕ} {f : ℤ}
    (h : parts y = .finite negative n f) : n < 2 ^ 53 ∧ -1074 ≤ f := by
  by_cases hn : n = 0
  · subst hn
    exact ⟨by decide, (exponent_of_zero h).ge⟩
  · have hregular := (parts_eq_finite h).2 hn
    exact ⟨hregular.lt, hregular.least⟩

theorem Rounds.exponent_le {q : ℕ} {e : ℤ} {r : ℚ} (h : Rounds q e r) (hr : r < overflowBound) :
    e ≤ 971 := by
  rcases h.low with rfl | hlow
  · decide
  · have hlt : (2 : ℚ) ^ (52 + e) < 2 ^ (53 + 971 : ℤ) := by
      rw [zpow_two_add]
      exact lt_of_le_of_lt hlow (hr.trans overflowBound_lt)
    have := zpow_two_lt.1 hlt
    omega

/-- From the middle above the largest double on, the bits are those of infinity or beyond. -/
theorem Rounds.overflow {q : ℕ} {e : ℤ} {r : ℚ} (h : Rounds q e r) (hr : overflowBound ≤ r) :
    2047 * twoTo 52 ≤ (e + 1074).toNat * twoTo 52 + q := by
  have htwo : twoTo 52 = 4503599627370496 := rfl
  have hexponent : 971 ≤ e := by
    have hlt : (2 : ℚ) ^ (52 + 971 : ℤ) < 2 ^ (53 + e) := by
      refine lt_of_le_of_lt (le_trans ?_ hr) (lt_of_lt_of_eq h.high ?_)
      · rw [overflowBound_eq, zpow_two_add]
        exact mul_le_mul_of_nonneg_right (by norm_num) (zpow_two_pos _).le
      · rw [zpow_two_add]
        rfl
    have := zpow_two_lt.1 hlt
    omega
  have hq := h.two_pow_le.resolve_right (by omega)
  rcases hexponent.lt_or_eq with hlt | rfl
  · rw [htwo]
    omega
  · have hlow : 2 ^ 53 - 1 / 2 ≤ r / 2 ^ (971 : ℤ) := by
      rwa [le_div_iff₀ (zpow_two_pos _), ← overflowBound_eq]
    have hcarry : 2 ^ 53 ≤ q := by
      by_contra hlt
      have hlt' : (q + 1 : ℚ) ≤ 2 ^ 53 := by exact_mod_cast not_le.1 hlt
      have hhigh := h.nearest.high
      have hodd : (q : ℚ) = (2 ^ 53 - 1 : ℕ) := by
        push_cast
        linarith
      obtain rfl := Nat.cast_injective hodd
      rcases h.nearest.tie with heven | ⟨-, hstrict⟩
      · exact absurd heven (by decide)
      · linarith
    rw [htwo]
    omega

/-- A double with the value that a number is rounded to is the nearest one. -/
theorem Rounds.isNearest_of_parts {q m : ℕ} {e f : ℤ} {r : ℚ} {negative : Bool} {x : Float}
    (h : Rounds q e r) (hx : parts x = .finite negative m f)
    (hvalue : (m * 2 ^ f : ℚ) = q * 2 ^ e) (heven : q % 2 = 0 → m % 2 = 0) :
    IsNearest x negative r := by
  refine ⟨m, f, hx, fun y n g hy => ?_⟩
  obtain ⟨hn, hg⟩ := lt_of_parts hy
  rw [hvalue]
  exact (h.le_distance hn hg).imp_right fun htie heq => (htie heq).imp_right heven

/-- What a number is rounded to is the nearest double, unless it is beyond the largest one. -/
theorem Rounds.isNearest {q : ℕ} {e : ℤ} {r : ℚ} (h : Rounds q e r) (hr : r < overflowBound)
    (negative : Bool) :
    IsNearest (Float.ofBits (UInt64.ofNat (bitsOf negative q e))) negative r := by
  have hleast := h.least
  have hmost := h.exponent_le hr
  rcases h.le_two_pow.lt_or_eq with hlt | rfl
  · rcases Nat.eq_zero_or_pos q with rfl | hpos
    · obtain rfl : e = -1074 := h.two_pow_le.resolve_left (by omega)
      exact h.isNearest_of_parts (parts_zero negative) rfl id
    · have hregular : Regular q e :=
        ⟨hpos, hlt, hleast, hmost, fun hq => h.two_pow_le.resolve_left (by omega)⟩
      exact h.isNearest_of_parts (parts_ofBits hregular negative) rfl id
  · -- the significand carries over; for the largest exponent this would be an overflow
    have hmost' : e ≠ 971 := by
      rintro rfl
      have hlow := (le_div_iff₀ (zpow_two_pos _)).1 h.nearest.low
      refine absurd hr (not_lt.2 (le_trans (le_of_eq ?_) hlow))
      rw [overflowBound_eq]
      norm_num
    have hregular : Regular (2 ^ 52) (e + 1) :=
      ⟨by decide, by decide, by omega, by omega, by omega⟩
    have hvalue : ((2 ^ 52 : ℕ) * 2 ^ (e + 1) : ℚ) = (2 ^ 53 : ℕ) * 2 ^ e := by
      rw [zpow_two_add]
      norm_num
      ring
    rw [bitsOf_carry negative hleast]
    exact h.isNearest_of_parts (parts_ofBits hregular negative) hvalue fun _ => by decide

/-! ## Fractions -/

section Fractions

variable {num den : ℕ}

/-- The significand that a fraction is rounded to. -/
def significandOf (num den : ℕ) : ℕ :=
  let e := exponentFor num den
  roundHalfEven (num * twoTo (-e).toNat) (den * twoTo e.toNat)

theorem rounds_significandOf (hnum : 0 < num) (hden : 0 < den) :
    Rounds (significandOf num den) (exponentFor num den) (num / den) := by
  obtain ⟨l, hl, hlow, hhigh⟩ := exponentFor_spec hnum hden
  have hunit : 0 < den * twoTo (exponentFor num den).toNat :=
    Nat.mul_pos hden (Nat.pow_pos two_pos)
  refine ⟨?_, ?_, ?_, ?_⟩
  · rw [← scaled_eq hden]
    exact nearest_roundHalfEven _ hunit
  · omega
  · rcases le_or_gt l (-1074) with hle | hlt
    · exact .inl (by omega)
    · rw [hl, max_eq_left hlt.le, ← zpow_natCast, ← zpow_two_add]
      exact .inr hlow
  · refine lt_of_lt_of_le hhigh ?_
    rw [zpow_two_add]
    exact mul_le_mul_of_nonneg_left (zpow_two_le.2 (by omega)) (by positivity)

theorem ofRatio_eq_significandOf (hnum : 0 < num) (negative : Bool) :
    ofRatio negative num den = Float.ofBits (UInt64.ofNat ((if negative then twoTo 63 else 0) +
      min ((exponentFor num den + 1074).toNat * twoTo 52 + significandOf num den)
        (2047 * twoTo 52))) := by
  have hzero : (num == 0) = false := beq_eq_false_iff_ne.2 hnum.ne'
  simp only [ofRatio, hzero, Bool.false_eq_true, if_false]
  rfl

/-- A fraction becomes the nearest double. -/
theorem ofRatio_nearest (hden : 0 < den) (hr : (num / den : ℚ) < overflowBound)
    (negative : Bool) : IsNearest (ofRatio negative num den) negative (num / den) := by
  rcases Nat.eq_zero_or_pos num with rfl | hnum
  · have hzero : ofRatio negative 0 den =
        Float.ofBits (UInt64.ofNat (bitsOf negative 0 (-1074))) := rfl
    rw [Nat.cast_zero, zero_div] at hr ⊢
    rw [hzero]
    exact (Rounds.zero (le_refl 0) (zpow_two_pos _).le).isNearest hr negative
  · have hrounds := rounds_significandOf hnum hden
    have hle := hrounds.le_two_pow
    have hmost := hrounds.exponent_le hr
    have htwo : twoTo 52 = 4503599627370496 := rfl
    rw [ofRatio_eq_significandOf hnum, Nat.min_eq_left (by rw [htwo]; omega)]
    exact hrounds.isNearest hr negative

theorem ofRatio_infinite (hden : 0 < den) (hr : overflowBound ≤ (num / den : ℚ))
    (negative : Bool) : parts (ofRatio negative num den) = .infinite negative := by
  have hnum : 0 < num := by
    refine Nat.pos_of_ne_zero fun hzero => ?_
    rw [hzero, Nat.cast_zero, zero_div] at hr
    exact absurd hr (not_le.2 overflowBound_pos)
  have hoverflow := (rounds_significandOf hnum hden).overflow hr
  rw [ofRatio_eq_significandOf hnum, Nat.min_eq_right hoverflow]
  exact parts_infinite negative

end Fractions

/-! ## Decimals -/

theorem zpow_ten_pos (k : ℤ) : (0 : ℚ) < 10 ^ k :=
  zpow_pos (by norm_num) k

/-- Doubles end well below the power of ten at which reading gives up. -/
theorem overflowBound_lt_zpow_ten : overflowBound < 10 ^ (400 : ℤ) :=
  calc overflowBound < 2 ^ (53 + 971 : ℤ) := overflowBound_lt
    _ ≤ 2 ^ (3 * 400 : ℤ) := zpow_two_le.2 (by decide)
    _ = (2 ^ (3 : ℤ)) ^ (400 : ℤ) := zpow_mul 2 3 400
    _ ≤ 10 ^ (400 : ℤ) := zpow_le_zpow_left₀ (by decide) (by norm_num) (by norm_num)

/-- The least double lies well above the power of ten at which reading gives up. -/
theorem zpow_ten_lt_least : (10 : ℚ) ^ (-400 : ℤ) < 2 ^ (-1075 : ℤ) :=
  calc (10 : ℚ) ^ (-400 : ℤ) ≤ 8 ^ (-400 : ℤ) := by
        rw [zpow_neg, zpow_neg]
        exact inv_anti₀ (zpow_pos (by norm_num) _)
          (zpow_le_zpow_left₀ (by decide) (by norm_num) (by norm_num))
    _ = (2 ^ (3 : ℤ)) ^ (-400 : ℤ) := by norm_num
    _ = 2 ^ (3 * -400 : ℤ) := (zpow_mul 2 3 (-400)).symm
    _ < 2 ^ (-1075 : ℤ) := zpow_two_lt.2 (by decide)

/-- How a decimal is rounded: far from the doubles it is settled by the number of its digits. -/
theorem ofDecimal_cases (negative : Bool) (digits : ℕ) (exponent : ℤ) :
    (digits * 10 ^ exponent : ℚ) ≤ 2 ^ (-1075 : ℤ) ∧
        ofDecimal negative digits exponent = ofRatio negative 0 1 ∨
      overflowBound ≤ digits * 10 ^ exponent ∧
        ofDecimal negative digits exponent = ofRatio negative (tenTo 400) 1 ∨
      ofDecimal negative digits exponent =
        ofRatio negative (digits * tenTo exponent.toNat) (tenTo (-exponent).toNat) := by
  have hten {a b : ℤ} (h : a ≤ b) : (10 : ℚ) ^ a ≤ 10 ^ b := zpow_le_zpow_right₀ (by norm_num) h
  unfold ofDecimal
  rcases Nat.eq_zero_or_pos digits with rfl | hdigits
  · refine .inl ⟨?_, if_pos rfl⟩
    rw [Nat.cast_zero, zero_mul]
    exact (zpow_two_pos _).le
  have hzero : (digits == 0) = false := beq_eq_false_iff_ne.2 hdigits.ne'
  obtain ⟨hleast, hmost⟩ := digits_bounds hdigits
  simp only [hzero, Bool.false_eq_true, if_false]
  by_cases hlarge : 400 < exponent + (digits.log2 / 4 : ℕ)
  · rw [if_pos hlarge]
    refine .inr (.inl ⟨?_, rfl⟩)
    calc overflowBound ≤ 10 ^ (400 : ℤ) := overflowBound_lt_zpow_ten.le
      _ ≤ 10 ^ (((digits.log2 / 4 : ℕ) : ℤ) + exponent) := hten (by omega)
      _ = 10 ^ ((digits.log2 / 4 : ℕ) : ℤ) * 10 ^ exponent := zpow_add₀ (by norm_num) _ _
      _ ≤ digits * 10 ^ exponent := mul_le_mul_of_nonneg_right hleast (zpow_ten_pos _).le
  rw [if_neg hlarge]
  by_cases hsmall : exponent + (digits.log2 / 3 + 1 : ℕ) < -400
  · rw [if_pos hsmall]
    refine .inl ⟨?_, rfl⟩
    calc (digits * 10 ^ exponent : ℚ)
        ≤ 10 ^ ((digits.log2 / 3 + 1 : ℕ) : ℤ) * 10 ^ exponent :=
          mul_le_mul_of_nonneg_right hmost (zpow_ten_pos _).le
      _ = 10 ^ (((digits.log2 / 3 + 1 : ℕ) : ℤ) + exponent) :=
        (zpow_add₀ (by norm_num) _ _).symm
      _ ≤ 10 ^ (-400 : ℤ) := hten (by omega)
      _ ≤ 2 ^ (-1075 : ℤ) := zpow_ten_lt_least.le
  · rw [if_neg hsmall]
    exact .inr (.inr rfl)

theorem ofDecimal_nearest {digits : ℕ} {exponent : ℤ}
    (hr : (digits * 10 ^ exponent : ℚ) < overflowBound) (negative : Bool) :
    IsNearest (ofDecimal negative digits exponent) negative (digits * 10 ^ exponent) := by
  have hnonneg : (0 : ℚ) ≤ digits * 10 ^ exponent :=
    mul_nonneg (Nat.cast_nonneg _) (zpow_ten_pos _).le
  rcases ofDecimal_cases negative digits exponent with ⟨hsmall, heq⟩ | ⟨hlarge, -⟩ | heq
  · rw [heq]
    exact (Rounds.zero hnonneg hsmall).isNearest hr negative
  · exact absurd hr (not_lt.2 hlarge)
  · rw [heq, ← decimal_eq_ratio]
    rw [← decimal_eq_ratio] at hr
    exact ofRatio_nearest (Nat.pow_pos (by decide)) hr negative

theorem ofDecimal_infinite {digits : ℕ} {exponent : ℤ}
    (hr : overflowBound ≤ (digits * 10 ^ exponent : ℚ)) (negative : Bool) :
    parts (ofDecimal negative digits exponent) = .infinite negative := by
  rcases ofDecimal_cases negative digits exponent with ⟨hsmall, -⟩ | ⟨-, heq⟩ | heq
  · exact absurd (hr.trans hsmall) (not_le.2 least_lt_overflowBound)
  · rw [heq]
    refine ofRatio_infinite one_pos ?_ negative
    rw [Nat.cast_one, div_one, cast_tenTo, ← zpow_natCast, Nat.cast_ofNat]
    exact overflowBound_lt_zpow_ten.le
  · rw [heq]
    rw [← decimal_eq_ratio] at hr
    exact ofRatio_infinite (Nat.pow_pos (by decide)) hr negative

end CardScript.Number
