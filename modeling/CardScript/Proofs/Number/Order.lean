import CardScript.Proofs.Number.Overflow

/-!
# The order of doubles

Finite doubles are ordered like the numbers they denote (`lt_iff_denoted`), and apart from zero no
two of them denote the same number (`eq_of_denoted`). The nearest double keeps the order of words
(`denoted_ofInt_le`), so that two words are ordered as doubles just as they are unless they become
the same double (`ofInt_lt_iff`). Up to `2 ^ 53` a word is a double itself
(`denoted_ofInt_of_le`).
-/

namespace CardScript.Number

open Float.Model UnpackedFloat

/-! ## Significands and exponents -/

namespace Regular

variable {m n : ℕ} {e f : ℤ}

theorem value_lt (hm : Regular m e) : (m * 2 ^ e : ℚ) < 2 ^ (53 + e) := by
  have hlt : (m : ℚ) < 2 ^ 53 := by exact_mod_cast hm.lt
  rw [zpow_two_add]
  exact mul_lt_mul_of_pos_right hlt (zpow_two_pos e)

/-- Above the least exponent the leading bit is set. -/
theorem exponent_le (hm : Regular m e) (hf : -1074 ≤ f) (h : (m * 2 ^ e : ℚ) < 2 ^ (53 + f)) :
    e ≤ f := by
  by_contra hlt
  have hfull : (2 ^ 52 : ℚ) ≤ m := by
    have : 2 ^ 52 ≤ m := not_lt.1 fun hlow => absurd (hm.normal hlow) (by omega)
    exact_mod_cast this
  refine absurd h (not_lt.2 ?_)
  calc (2 : ℚ) ^ (53 + f) ≤ 2 ^ (52 + e) := zpow_two_le.2 (by omega)
    _ = 2 ^ 52 * 2 ^ e := zpow_two_add 52 e
    _ ≤ m * 2 ^ e := mul_le_mul_of_nonneg_right hfull (zpow_two_pos e).le

theorem lt_of_exponent_lt (hm : Regular m e) (hn : Regular n f) (h : e < f) :
    (m * 2 ^ e : ℚ) < n * 2 ^ f := by
  by_contra hle
  have := hn.exponent_le hm.least ((not_lt.1 hle).trans_lt hm.value_lt)
  omega

/-- Doubles are ordered by their exponents, and by their significands if these are the same. -/
theorem lt_iff (hm : Regular m e) (hn : Regular n f) :
    (m * 2 ^ e : ℚ) < n * 2 ^ f ↔ e < f ∨ e = f ∧ m < n := by
  rcases lt_trichotomy e f with h | rfl | h
  · exact ⟨fun _ => .inl h, fun _ => hm.lt_of_exponent_lt hn h⟩
  · rw [mul_lt_mul_iff_left₀ (zpow_two_pos e), Nat.cast_lt]
    simp
  · have hnot := (hn.lt_of_exponent_lt hm h).not_gt
    exact ⟨fun hlt => absurd hlt hnot, fun hlt => absurd hlt (by omega)⟩

theorem eq_of_value_eq (hm : Regular m e) (hn : Regular n f) (h : (m * 2 ^ e : ℚ) = n * 2 ^ f) :
    m = n ∧ e = f := by
  have hle := mt (hm.lt_iff hn).2 h.not_lt
  have hge := mt (hn.lt_iff hm).2 h.not_gt
  omega

end Regular

/-! ## Denoted numbers -/

theorem signed_mul (negative : Bool) (m : ℕ) (r : ℚ) :
    signed negative m * r = if negative then -(m * r) else m * r := by
  cases negative with
  | false => rfl
  | true => simp [signed]

theorem signed_zero_mul (negative : Bool) (x : ℚ) : (signed negative 0 * x : ℚ) = 0 := by
  cases negative with
  | false | true => exact zero_mul x

/-- The number that a finite double denotes. -/
def denoted (x : Float) : ℚ :=
  match parts x with
  | .finite negative m e => signed negative m * 2 ^ e
  | _ => 0

theorem denoted_of_parts {x : Float} {negative : Bool} {m : ℕ} {e : ℤ}
    (h : parts x = .finite negative m e) : denoted x = signed negative m * 2 ^ e := by
  simp only [denoted, h]

theorem denoted_of_whole {x : Float} {negative : Bool} {m N : ℕ} {e : ℤ}
    (h : parts x = .finite negative m e) (hN : (m * 2 ^ e : ℚ) = N) :
    denoted x = signed negative N := by
  rw [denoted_of_parts h, signed_mul, hN, ← mul_one (N : ℚ), ← signed_mul, mul_one]

theorem unpack_of_parts {x : Float} {negative : Bool} {m : ℕ} {e : ℤ}
    (h : parts x = .finite negative m e) (hpos : 0 < m) :
    x.toModel.unpack = .finite (signOf negative) m e hpos := by
  have hm := (parts_eq_finite h).2 hpos.ne'
  rw [← ofBits_bitsOf h, ofBits_eq_pack hm]
  exact unpack_pack hm _

theorem unpack_of_zero {x : Float} {negative : Bool} {e : ℤ}
    (h : parts x = .finite negative 0 e) : x.toModel.unpack = .zero (signOf negative) := by
  rw [← ofBits_bitsOf h, exponent_of_zero h]
  cases negative with
  | false => rfl
  | true => rfl

theorem lt_iff_compare (x y : Float) :
    x < y ↔ UnpackedFloat.compare x.toModel.unpack y.toModel.unpack = some .lt := by
  show decide (x.toModel < y.toModel) = true ↔ _
  rw [decide_eq_true_iff]
  exact beq_iff_eq

theorem compare_finite_iff {m n : ℕ} {e f : ℤ} (hm : Regular m e) (hn : Regular n f)
    (s t : Bool) :
    UnpackedFloat.compare (.finite (signOf s) m e hm.pos) (.finite (signOf t) n f hn.pos) =
        some .lt ↔ (signed s m * 2 ^ e : ℚ) < signed t n * 2 ^ f := by
  have hleft : (0 : ℚ) < m * 2 ^ e := mul_pos (Nat.cast_pos.2 hm.pos) (zpow_two_pos e)
  have hright : (0 : ℚ) < n * 2 ^ f := mul_pos (Nat.cast_pos.2 hn.pos) (zpow_two_pos f)
  cases s with
  | false =>
    cases t with
    | false =>
      show some ((compare e f).then (compare m n)) = some .lt ↔ (m * 2 ^ e : ℚ) < n * 2 ^ f
      rw [hm.lt_iff hn, Option.some.injEq, Ordering.then_eq_lt, compare_lt_iff_lt,
        compare_eq_iff_eq, compare_lt_iff_lt]
    | true =>
      refine iff_of_false nofun (not_lt.2 ?_)
      rw [signed_mul, signed_mul, if_pos rfl, if_neg Bool.false_ne_true]
      linarith
  | true =>
    cases t with
    | false =>
      refine iff_of_true rfl ?_
      rw [signed_mul, signed_mul, if_pos rfl, if_neg Bool.false_ne_true]
      linarith
    | true =>
      show some ((compare e f).then (compare m n)).swap = some .lt ↔ _
      rw [signed_mul, signed_mul, if_pos rfl, if_pos rfl, neg_lt_neg_iff, hn.lt_iff hm,
        Option.some.injEq, Ordering.swap_eq_lt, Ordering.then_eq_gt, compare_gt_iff_gt,
        compare_eq_iff_eq, compare_gt_iff_gt, eq_comm (a := e)]

theorem compare_zero_finite_iff {n : ℕ} {f : ℤ} (hn : 0 < n) (s : Sign) (t : Bool) :
    UnpackedFloat.compare (.zero s) (.finite (signOf t) n f hn) = some .lt ↔
      (0 : ℚ) < signed t n * 2 ^ f := by
  have hright : (0 : ℚ) < n * 2 ^ f := mul_pos (Nat.cast_pos.2 hn) (zpow_two_pos f)
  rw [signed_mul]
  cases t with
  | false =>
    rw [if_neg Bool.false_ne_true]
    exact iff_of_true rfl hright
  | true =>
    rw [if_pos rfl]
    exact iff_of_false nofun (not_lt.2 (neg_nonpos.2 hright.le))

theorem compare_finite_zero_iff {m : ℕ} {e : ℤ} (hm : 0 < m) (s : Bool) (t : Sign) :
    UnpackedFloat.compare (.finite (signOf s) m e hm) (.zero t) = some .lt ↔
      (signed s m * 2 ^ e : ℚ) < 0 := by
  have hleft : (0 : ℚ) < m * 2 ^ e := mul_pos (Nat.cast_pos.2 hm) (zpow_two_pos e)
  rw [signed_mul]
  cases s with
  | false =>
    rw [if_neg Bool.false_ne_true]
    exact iff_of_false nofun (not_lt.2 hleft.le)
  | true =>
    rw [if_pos rfl]
    exact iff_of_true rfl (neg_neg_iff_pos.2 hleft)

/-- Doubles are ordered like the numbers they denote. -/
theorem lt_iff_denoted {x y : Float} (hx : isFinite x = true) (hy : isFinite y = true) :
    x < y ↔ denoted x < denoted y := by
  obtain ⟨s, m, e, hx⟩ := Numeric.parts_of_isFinite hx
  obtain ⟨t, n, f, hy⟩ := Numeric.parts_of_isFinite hy
  rw [denoted_of_parts hx, denoted_of_parts hy, lt_iff_compare]
  rcases Nat.eq_zero_or_pos m with rfl | hm
  · rw [unpack_of_zero hx, signed_zero_mul]
    rcases Nat.eq_zero_or_pos n with rfl | hn
    · rw [unpack_of_zero hy, signed_zero_mul]
      exact iff_of_false nofun (lt_irrefl 0)
    · rw [unpack_of_parts hy hn]
      exact compare_zero_finite_iff hn _ t
  · rw [unpack_of_parts hx hm]
    rcases Nat.eq_zero_or_pos n with rfl | hn
    · rw [unpack_of_zero hy, signed_zero_mul]
      exact compare_finite_zero_iff hm s _
    · rw [unpack_of_parts hy hn]
      exact compare_finite_iff ((parts_eq_finite hx).2 hm.ne') ((parts_eq_finite hy).2 hn.ne') s t

theorem abs_denoted {x : Float} {negative : Bool} {m : ℕ} {e : ℤ}
    (h : parts x = .finite negative m e) : |denoted x| = m * 2 ^ e := by
  have hnonneg : (0 : ℚ) ≤ m * 2 ^ e := mul_nonneg (Nat.cast_nonneg m) (zpow_two_pos e).le
  rw [denoted_of_parts h, signed_mul]
  split
  · rw [abs_neg, abs_of_nonneg hnonneg]
  · exact abs_of_nonneg hnonneg

theorem denoted_neg_iff {x : Float} {negative : Bool} {m : ℕ} {e : ℤ}
    (h : parts x = .finite negative m e) (hzero : denoted x ≠ 0) :
    denoted x < 0 ↔ negative = true := by
  have hpos : (0 : ℚ) < m * 2 ^ e := abs_denoted h ▸ abs_pos.2 hzero
  rw [denoted_of_parts h, signed_mul]
  split
  next hneg => exact iff_of_true (neg_lt_zero.2 hpos) hneg
  next hneg => exact iff_of_false (not_lt.2 hpos.le) hneg

/-- A number other than zero is denoted by one double only. -/
theorem eq_of_denoted {x y : Float} (hx : isFinite x = true) (hy : isFinite y = true)
    (h : denoted x = denoted y) (hzero : denoted x ≠ 0) : x = y := by
  obtain ⟨s, m, e, hx⟩ := Numeric.parts_of_isFinite hx
  obtain ⟨t, n, f, hy⟩ := Numeric.parts_of_isFinite hy
  have hsign : s = t := by
    have hneg := denoted_neg_iff hx hzero
    have hneg' := denoted_neg_iff hy (h ▸ hzero)
    rw [h, hneg'] at hneg
    exact (Bool.eq_iff_iff.2 hneg).symm
  have hvalue : (m * 2 ^ e : ℚ) = n * 2 ^ f := by rw [← abs_denoted hx, h, abs_denoted hy]
  have hm : m ≠ 0 := by
    rintro rfl
    rw [← abs_ne_zero, abs_denoted hx, Nat.cast_zero, zero_mul] at hzero
    exact hzero rfl
  have hn : n ≠ 0 := by
    rintro rfl
    rw [← abs_ne_zero, abs_denoted hx, hvalue, Nat.cast_zero, zero_mul] at hzero
    exact hzero rfl
  obtain ⟨rfl, rfl⟩ :=
    ((parts_eq_finite hx).2 hm).eq_of_value_eq ((parts_eq_finite hy).2 hn) hvalue
  rw [← ofBits_bitsOf hx, ← ofBits_bitsOf hy, hsign]

/-! ## Words -/

/-- The doubles nearest to two numbers are in the order of these numbers. -/
theorem IsNearest.abs_denoted_le {x y : Float} {negative : Bool} {r t : ℚ}
    (hx : IsNearest x negative r) (hy : IsNearest y negative t) (h : r < t) :
    |denoted x| ≤ |denoted y| := by
  obtain ⟨m, e, hx, hnearest⟩ := hx
  obtain ⟨n, f, hy, hnearest'⟩ := hy
  rw [abs_denoted hx, abs_denoted hy]
  by_contra hlt
  -- each would be nearer to the other number
  have hleft := sq_le_sq.2 (hnearest y n f hy).1
  have hright := sq_le_sq.2 (hnearest' x m e hx).1
  nlinarith [mul_pos (sub_pos.2 (not_le.1 hlt)) (sub_pos.2 h)]

theorem ofInt_nearest {n : ℤ} (hn : fitsWord n = true) :
    IsNearest (Float.ofInt n) (decide (n < 0)) n.natAbs := by
  have hlt : n.natAbs < 2 ^ 64 := by
    have := fitsWord_iff.1 hn
    omega
  have hone : ((n.natAbs : ℚ) / (1 : ℕ)) = n.natAbs := by rw [Nat.cast_one, div_one]
  have hbound : ((n.natAbs : ℚ) / (1 : ℕ)) < overflowBound := by
    rw [hone]
    calc (n.natAbs : ℚ) < 2 ^ 64 := by exact_mod_cast hlt
      _ ≤ 2 ^ (971 : ℤ) := zpow_two_le.2 (by decide : (64 : ℤ) ≤ 971)
      _ = 1 * 2 ^ (971 : ℤ) := (one_mul _).symm
      _ ≤ (2 ^ 53 - 1 / 2) * 2 ^ (971 : ℤ) :=
        mul_le_mul_of_nonneg_right (by norm_num) (zpow_two_pos _).le
      _ = overflowBound := overflowBound_eq.symm
  rw [ofInt_eq_ofRatio hn, ← hone]
  exact ofRatio_nearest one_pos hbound _

theorem isFinite_ofInt {n : ℤ} (hn : fitsWord n = true) : isFinite (Float.ofInt n) = true :=
  (ofInt_nearest hn).isFinite

/-- A word and its double have the same sign. -/
theorem denoted_ofInt_eq {n : ℤ} (hn : fitsWord n = true) :
    denoted (Float.ofInt n) =
      if n < 0 then -|denoted (Float.ofInt n)| else |denoted (Float.ofInt n)| := by
  obtain ⟨m, e, hparts, -⟩ := ofInt_nearest hn
  rw [abs_denoted hparts, denoted_of_parts hparts, signed_mul]
  simp only [decide_eq_true_eq]

/-- Words keep their order as doubles. -/
theorem denoted_ofInt_le {n k : ℤ} (hn : fitsWord n = true) (hk : fitsWord k = true)
    (h : n ≤ k) : denoted (Float.ofInt n) ≤ denoted (Float.ofInt k) := by
  rcases h.lt_or_eq with hlt | rfl
  · have hnear := ofInt_nearest hn
    have hnear' := ofInt_nearest hk
    rw [denoted_ofInt_eq hn, denoted_ofInt_eq hk]
    by_cases hneg' : k < 0
    · have hneg : n < 0 := hlt.trans hneg'
      rw [if_pos hneg, if_pos hneg', neg_le_neg_iff]
      rw [decide_eq_true hneg] at hnear
      rw [decide_eq_true hneg'] at hnear'
      exact hnear'.abs_denoted_le hnear (by exact_mod_cast (by omega : k.natAbs < n.natAbs))
    · by_cases hneg : n < 0
      · rw [if_pos hneg, if_neg hneg']
        exact (neg_nonpos.2 (abs_nonneg _)).trans (abs_nonneg _)
      · rw [if_neg hneg, if_neg hneg']
        rw [decide_eq_false hneg] at hnear
        rw [decide_eq_false hneg'] at hnear'
        exact hnear.abs_denoted_le hnear' (by exact_mod_cast (by omega : n.natAbs < k.natAbs))
  · exact le_refl _

/-- Whole numbers up to `2 ^ 53` are doubles. -/
theorem exists_regular {n : ℕ} (hpos : 0 < n) (hn : n ≤ 2 ^ 53) :
    ∃ m e, Regular m e ∧ (m * 2 ^ e : ℚ) = n := by
  rcases hn.lt_or_eq with hlt | rfl
  · have hlog : n.log2 < 53 := (Nat.log2_lt hpos.ne').2 hlt
    obtain ⟨j, hj⟩ : ∃ j, n.log2 + j = 52 := ⟨52 - n.log2, by omega⟩
    have hfull : (n * 2 ^ j).log2 = 52 := by rw [log2_mul_two_pow hpos, hj]
    have hbounds := (Nat.log2_eq_iff (Nat.mul_pos hpos (Nat.pow_pos two_pos)).ne').1 hfull
    refine ⟨n * 2 ^ j, -j, ⟨by omega, by omega, by omega, by omega, by omega⟩, ?_⟩
    rw [zpow_neg, zpow_natCast]
    push_cast
    field_simp
  · exact ⟨2 ^ 52, 1, ⟨by decide, by decide, by decide, by decide, by omega⟩, by norm_num⟩

theorem denoted_ofInt_of_le {n : ℤ} (hn : n.natAbs ≤ 2 ^ 53) : denoted (Float.ofInt n) = n := by
  by_cases hzero : n = 0
  · subst hzero
    decide +kernel
  · obtain ⟨m, e, hm, hvalue⟩ := exists_regular (Int.natAbs_pos.2 hzero) hn
    have hfloat : Float.ofInt n = Float.ofBits (UInt64.ofNat (bitsOf (decide (n < 0)) m e)) := by
      conv_lhs => rw [← signed_natAbs n]
      refine ofInt_of_holds hm (by omega) ?_ _
      rw [← hvalue]
      exact Interval.holds_self hm
    rw [hfloat, denoted_of_whole (parts_ofBits hm _) hvalue, signed_natAbs]

/-- As doubles, two words are in the order they have as words, unless they become one double. -/
theorem ofInt_lt_iff {n k : ℤ} (hn : fitsWord n = true) (hk : fitsWord k = true) :
    Float.ofInt n < Float.ofInt k ↔ n < k ∧ Float.ofInt n ≠ Float.ofInt k := by
  rw [lt_iff_denoted (isFinite_ofInt hn) (isFinite_ofInt hk)]
  constructor
  · intro hlt
    refine ⟨not_le.1 fun hle => ?_, fun heq => hlt.ne (congrArg denoted heq)⟩
    exact absurd (denoted_ofInt_le hk hn hle) (not_le.2 hlt)
  · rintro ⟨hlt, hne⟩
    refine lt_of_le_of_ne (denoted_ofInt_le hn hk hlt.le) fun heq => hne ?_
    refine eq_of_denoted (isFinite_ofInt hn) (isFinite_ofInt hk) heq fun hzero => ?_
    -- only zero becomes zero
    have hone : denoted (Float.ofInt 1) = 1 := denoted_ofInt_of_le (by decide)
    have hminus : denoted (Float.ofInt (-1)) = -1 := denoted_ofInt_of_le (by decide)
    rcases lt_or_ge n 0 with hneg | hnonneg
    · have := denoted_ofInt_le hn (by decide : fitsWord (-1) = true) (by omega)
      linarith
    · have := denoted_ofInt_le (by decide : fitsWord 1 = true) hk (by omega)
      linarith

end CardScript.Number
