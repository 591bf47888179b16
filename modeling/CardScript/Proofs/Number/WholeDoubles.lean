import CardScript.Proofs.Number.Order

/-!
# Whole doubles

A double that denotes a whole number is rounded and truncated to itself (`roundHalfAway_eq_self`,
`truncate_eq_self`), and it is written as a whole number (`text_whole`): the search for its shortest
decimal ends with the multiples of one at the latest, and among these it comes to the number itself.
A word therefore becomes a double that is written as the same word up to `2 ^ 53`, and as another
word of the same double after that, if need be (`text_ofInt`).
-/

namespace CardScript.Number

/-! ## Rounding -/

section Whole

variable {x : Float} {s : Bool} {m : ℕ} {e : ℤ} {k : ℤ}

/-- The significand and the exponent of a whole double make up a whole number. -/
theorem natAbs_of_denoted (h : parts x = .finite s m e) (hk : denoted x = k) :
    (m * 2 ^ e : ℚ) = k.natAbs ∧ signed s k.natAbs = k := by
  have hvalue : (m * 2 ^ e : ℚ) = k.natAbs := by
    rw [← abs_denoted h, hk, Nat.cast_natAbs, Int.cast_abs]
  refine ⟨hvalue, ?_⟩
  rw [denoted_of_whole h hvalue] at hk
  exact_mod_cast hk

/-- With an exponent below zero, the significand is a multiple of a power of two. -/
theorem significand_eq {j K : ℕ} (h : (m * 2 ^ (-(j : ℤ)) : ℚ) = K) : m = K * twoTo j := by
  rw [zpow_neg, zpow_natCast, ← div_eq_mul_inv, div_eq_iff (by positivity)] at h
  exact_mod_cast h

theorem ofRatio_self {K : ℕ} (h : parts x = .finite s m e) (hK : (m * 2 ^ e : ℚ) = K) :
    ofRatio s K 1 = x := by
  by_cases hm : m = 0
  · subst hm
    rw [Nat.cast_zero, zero_mul] at hK
    obtain rfl : K = 0 := by exact_mod_cast hK.symm
    rw [← ofBits_bitsOf h, exponent_of_zero h]
    rfl
  · have hregular := (parts_eq_finite h).2 hm
    rw [← ofBits_bitsOf h]
    refine ofRatio_of_holds hregular one_pos ?_ s
    rw [Nat.cast_one, div_one, ← hK]
    exact Interval.holds_self hregular

theorem truncate_eq_self (hx : isFinite x = true) (hk : denoted x = k) : truncate x = x := by
  obtain ⟨s, m, e, h⟩ := Numeric.parts_of_isFinite hx
  obtain ⟨hvalue, -⟩ := natAbs_of_denoted h hk
  simp only [truncate, h]
  split
  · rfl
  next hneg =>
    obtain ⟨j, rfl⟩ : ∃ j : ℕ, e = -j := ⟨(-e).toNat, by omega⟩
    have hpos : 0 < twoTo j := Nat.pow_pos two_pos
    have hdiv : m / twoTo j = k.natAbs := by rw [significand_eq hvalue, Nat.mul_div_cancel _ hpos]
    rw [neg_neg, Int.toNat_natCast, hdiv]
    exact ofRatio_self h hvalue

theorem roundHalfAway_eq_self (hx : isFinite x = true) (hk : denoted x = k) :
    roundHalfAway x = x := by
  obtain ⟨s, m, e, h⟩ := Numeric.parts_of_isFinite hx
  obtain ⟨hvalue, -⟩ := natAbs_of_denoted h hk
  simp only [roundHalfAway, h]
  split
  · rfl
  next hneg =>
    obtain ⟨j, rfl⟩ : ∃ j : ℕ, e = -j := ⟨(-e).toNat, by omega⟩
    have hpos : 0 < twoTo j := Nat.pow_pos two_pos
    have hdiv : (2 * m + twoTo j) / (2 * twoTo j) = k.natAbs := by
      rw [significand_eq hvalue, Nat.mul_left_comm]
      have hnext : (k.natAbs + 1) * (2 * twoTo j) = k.natAbs * (2 * twoTo j) + 2 * twoTo j :=
        Nat.succ_mul _ _
      exact Nat.div_eq_of_lt_le (Nat.le_add_right _ _) (by omega)
    rw [neg_neg, Int.toNat_natCast, hdiv]
    exact ofRatio_self h hvalue

theorem whole?_eq_some (hx : isFinite x = true) (hk : denoted x = k) : whole? x = some k := by
  obtain ⟨s, m, e, h⟩ := Numeric.parts_of_isFinite hx
  obtain ⟨hvalue, hsigned⟩ := natAbs_of_denoted h hk
  simp only [whole?, h]
  split
  next hnonneg =>
    obtain ⟨j, rfl⟩ := Int.eq_ofNat_of_zero_le hnonneg
    have hmul : m * twoTo j = k.natAbs := by
      rw [zpow_natCast] at hvalue
      exact_mod_cast hvalue
    rw [Int.toNat_natCast, hmul]
    exact congrArg some hsigned
  next hneg =>
    obtain ⟨j, rfl⟩ : ∃ j : ℕ, e = -j := ⟨(-e).toNat, by omega⟩
    have hpos : 0 < twoTo j := Nat.pow_pos two_pos
    rw [neg_neg, Int.toNat_natCast, significand_eq hvalue, Nat.mul_mod_left,
      Nat.mul_div_cancel _ hpos]
    exact congrArg some hsigned

end Whole

/-! ## Texts -/

namespace Interval

/-- A value that lies on a grid is what is found on this grid. -/
theorem onGrid?_self {i : Interval} {k : ℤ} {d : ℕ}
    (h : (d * 10 ^ k : ℚ) = i.value * 2 ^ i.exponent) (hholds : i.Holds (d * 10 ^ k)) :
    i.onGrid? k = some d := by
  have hunit : 0 < twoTo (-i.exponent).toNat * tenTo k.toNat :=
    Nat.mul_pos (Nat.pow_pos (by decide)) (Nat.pow_pos (by decide))
  have hscaled : i.value * (twoTo i.exponent.toNat * tenTo (-k).toNat) =
      d * (twoTo (-i.exponent).toNat * tenTo k.toNat) :=
    le_antisymm ((scaled_le_iff ..).2 h.ge) ((le_scaled_iff ..).2 h.le)
  have hinside : i.reaches k d = true := (reaches_iff ..).2 hholds
  unfold onGrid?
  simp only [hscaled, Nat.mul_div_cancel _ hunit]
  split
  next =>
    rw [if_neg]
    rw [Nat.add_one_mul]
    omega
  next => rfl
  next hbelow _ => exact absurd hinside (ne_true_of_eq_false hbelow)
  next hbelow _ => exact absurd hinside (ne_true_of_eq_false hbelow)

/-- The search ends with the multiples of one at the latest. -/
theorem shortestFrom_whole {i : Interval} {K : ℕ} (h : i.onGrid? 0 = some K) {lead : ℤ}
    {more digits : ℕ} (hlead : 0 ≤ lead - digits + 1) :
    ∃ d j : ℕ, i.shortestFrom lead more digits = ⟨d, j⟩ ∧ (j = 0 → d = K) := by
  obtain ⟨j, hj⟩ := Int.eq_ofNat_of_zero_le hlead
  induction more generalizing digits j with
  | zero =>
    refine ⟨(i.onGrid? j).getD 0, j, by simp only [shortestFrom, hj], ?_⟩
    rintro rfl
    rw [Nat.cast_zero, h, Option.getD_some]
  | succ more ih =>
    simp only [shortestFrom, hj]
    split
    next d hd =>
      refine ⟨d, j, rfl, ?_⟩
      rintro rfl
      exact Option.some.inj (hd.symm.trans h)
    next hnone =>
      have hj' : j ≠ 0 := by
        rintro rfl
        cases h.symm.trans hnone
      refine ih (by push_cast; omega) (j - 1) (by push_cast; omega)

end Interval

/-- The leading digit of a double from sixteen on does not stand behind the point. -/
theorem leadingPower_nonneg {m : ℕ} {e : ℤ} (hm : 0 < m) (h : (2 ^ (4 : ℤ) : ℚ) ≤ m * 2 ^ e) :
    0 ≤ leadingPower m e := by
  have hlog : (4 : ℤ) ≤ m.log2 + e := by
    have hlt : (2 : ℚ) ^ (4 : ℤ) < 2 ^ ((m.log2 : ℤ) + 1 + e) := by
      refine h.trans_lt ?_
      rw [zpow_two_add]
      exact mul_lt_mul_of_pos_right (log2_bounds hm).2 (zpow_two_pos e)
    have := zpow_two_lt.1 hlt
    omega
  simp only [leadingPower]
  split
  · omega
  · split <;> omega

theorem toDigits_mul_pow {d : ℕ} (hd : 0 < d) (j : ℕ) :
    Nat.toDigits 10 (d * 10 ^ j) = Nat.toDigits 10 d ++ List.replicate j '0' := by
  induction j with
  | zero => simp
  | succ j ih =>
    have hpos : 0 < d * 10 ^ j := Nat.mul_pos hd (Nat.pow_pos (by decide))
    have hnext : d * 10 ^ (j + 1) = 10 * (d * 10 ^ j) + 0 := by ring
    rw [hnext, ← Nat.toDigits_append_toDigits (by decide) hpos (by decide), Nat.toDigits_zero, ih,
      List.append_assoc, ← List.replicate_succ']

theorem Decimal.positional_natCast {d : ℕ} (hd : 0 < d) (j : ℕ) :
    (⟨d, j⟩ : Decimal).positional = Nat.toDigits 10 (d * 10 ^ j) := by
  rw [toDigits_mul_pow hd, positional, if_pos (Int.natCast_nonneg j), Int.toNat_natCast]

theorem natAbs_signed (s : Bool) (n : ℕ) : (signed s n).natAbs = n := by
  cases s with
  | false => rfl
  | true => exact Int.natAbs_neg n

theorem toList_toString_signed (s : Bool) {n : ℕ} (hn : 0 < n) :
    (toString (signed s n)).toList = withSign s (Nat.toDigits 10 n) := by
  have hneg : decide (signed s n < 0) = s := by
    cases s with
    | false => rfl
    | true => exact decide_eq_true (Int.neg_neg_of_pos (by exact_mod_cast hn))
  rw [toList_toString, hneg, natAbs_signed]

/-- A whole double is written as a whole number that rounds to it: itself, or one that ends in
zero. -/
theorem text_whole {x : Float} {s : Bool} {m K : ℕ} {e : ℤ} (h : parts x = .finite s m e)
    (hK : (m * 2 ^ e : ℚ) = K) (hlarge : 2 ^ 4 ≤ K) :
    ∃ n : ℕ, text x = toString (signed s n) ∧ (Interval.around m e).Holds n ∧
      (n = K ∨ 10 ∣ n) := by
  have hm : m ≠ 0 := by
    rintro rfl
    rw [Nat.cast_zero, zero_mul] at hK
    obtain rfl : K = 0 := by exact_mod_cast hK.symm
    omega
  have hregular := (parts_eq_finite h).2 hm
  have hself : (Interval.around m e).onGrid? 0 = some K := by
    refine Interval.onGrid?_self ?_ ?_
    · simp only [Interval.around, zpow_two_sub_two, zpow_zero, mul_one, ← hK]
      push_cast
      ring
    · rw [zpow_zero, mul_one, ← hK]
      exact Interval.holds_self hregular
  have hlead : 0 ≤ leadingPower m e := by
    refine leadingPower_nonneg hregular.pos ?_
    rw [hK]
    exact_mod_cast hlarge
  obtain ⟨d, j, hshortest, hzero⟩ : ∃ d j : ℕ, shortest m e = ⟨d, j⟩ ∧ (j = 0 → d = K) :=
    Interval.shortestFrom_whole hself (by omega)
  have hholds := shortest_holds hregular
  rw [hshortest, zpow_natCast] at hholds
  have hd : 0 < d := by
    refine Nat.pos_of_ne_zero fun hd => ?_
    have hpos := hholds.pos hregular
    rw [hd, Nat.cast_zero, zero_mul] at hpos
    exact lt_irrefl _ hpos
  refine ⟨d * 10 ^ j, ?_, by exact_mod_cast hholds, ?_⟩
  · rw [← String.toList_inj, toList_toString_signed s (Nat.mul_pos hd (Nat.pow_pos (by decide))),
      ← Decimal.positional_natCast hd, ← hshortest]
    simp only [text, h, beq_eq_false_iff_ne.2 hm, Bool.false_eq_true, if_false,
      String.toList_ofList]
    rfl
  · cases j with
    | zero => exact .inl (by rw [hzero rfl, pow_zero, mul_one])
    | succ j => exact .inr ((dvd_pow_self 10 (Nat.succ_ne_zero j)).mul_left d)

/-! ## Words -/

theorem abs_denoted_ofInt_le {n : ℤ} (hn : fitsWord n = true) :
    |denoted (Float.ofInt n)| ≤ 2 ^ (63 : ℤ) := by
  have hmin : denoted (Float.ofInt wordMin) = -2 ^ (63 : ℤ) := by decide +kernel
  have hmax : denoted (Float.ofInt wordMax) = 2 ^ (63 : ℤ) := by decide +kernel
  have hbounds := fitsWord_iff.1 hn
  rw [abs_le, ← hmin, ← hmax]
  exact ⟨denoted_ofInt_le (by decide) hn hbounds.1, denoted_ofInt_le hn (by decide) hbounds.2⟩

theorem le_abs_denoted_ofInt {n : ℤ} (hn : fitsWord n = true) (h : 2 ^ 53 < n.natAbs) :
    2 ^ (53 : ℤ) ≤ |denoted (Float.ofInt n)| := by
  have hplus : denoted (Float.ofInt (2 ^ 53)) = 2 ^ (53 : ℤ) := by decide +kernel
  have hminus : denoted (Float.ofInt (-2 ^ 53)) = -2 ^ (53 : ℤ) := by decide +kernel
  rw [le_abs']
  rcases lt_or_ge n 0 with hneg | hnonneg
  · exact .inl (hminus ▸ denoted_ofInt_le hn (by decide) (by omega))
  · exact .inr (hplus ▸ denoted_ofInt_le (by decide) hn (by omega))

/-- The double of a word is whole. Up to `2 ^ 53` it is the word itself, and after that it is
even. -/
theorem exists_denoted_ofInt {n : ℤ} (hn : fitsWord n = true) :
    ∃ k : ℤ, denoted (Float.ofInt n) = k ∧ (n.natAbs ≤ 2 ^ 53 → k = n) ∧
      (2 ^ 53 < n.natAbs → 2 ^ 53 ≤ k.natAbs ∧ 2 ∣ k) := by
  by_cases hsmall : n.natAbs ≤ 2 ^ 53
  · exact ⟨n, denoted_ofInt_of_le hsmall, fun _ => rfl, fun h => absurd hsmall (not_le.2 h)⟩
  · have hlarge := le_abs_denoted_ofInt hn (not_le.1 hsmall)
    obtain ⟨m, e, hparts, -⟩ := ofInt_nearest hn
    rw [abs_denoted hparts] at hlarge
    have hm : m ≠ 0 := by
      rintro rfl
      rw [Nat.cast_zero, zero_mul] at hlarge
      exact absurd hlarge (not_le.2 (zpow_two_pos 53))
    have hvalue_lt := ((parts_eq_finite hparts).2 hm).value_lt
    have hexponent : 53 < 53 + e := zpow_two_lt.1 (hlarge.trans_lt hvalue_lt)
    obtain ⟨j, rfl⟩ : ∃ j : ℕ, e = j + 1 := ⟨(e - 1).toNat, by omega⟩
    have hvalue : (m * 2 ^ ((j : ℤ) + 1) : ℚ) = (m * 2 ^ (j + 1) : ℕ) := by
      push_cast
      exact_mod_cast rfl
    have hk := denoted_of_whole hparts hvalue
    rw [hvalue] at hlarge
    have hlarge : 2 ^ 53 ≤ m * 2 ^ (j + 1) := by exact_mod_cast hlarge
    have heven : 2 ∣ m * 2 ^ (j + 1) := (dvd_pow_self 2 (Nat.succ_ne_zero j)).mul_left m
    have habs := natAbs_signed (decide (n < 0)) (m * 2 ^ (j + 1))
    exact ⟨_, hk, fun h => absurd h hsmall, fun _ => ⟨by omega, by omega⟩⟩

/-- Numbers that round to a whole double are at most half a unit of its last place away. -/
theorem Interval.Holds.within {m N n c : ℕ} {e : ℤ} (h : (Interval.around m e).Holds n)
    (hm : Regular m e) (hN : (m * 2 ^ e : ℚ) = N) (he : e ≤ c) :
    2 * n ≤ 2 * N + 2 ^ c ∧ 2 * N ≤ 2 * n + 2 ^ c := by
  have hpos := zpow_two_pos e
  have hnearest := h.nearest hm
  have hlow := (le_div_iff₀ hpos).1 hnearest.low
  have hhigh := (div_le_iff₀ hpos).1 hnearest.high
  have hunit : (2 : ℚ) ^ e ≤ 2 ^ c := by
    rw [← zpow_natCast]
    exact zpow_two_le.2 he
  rw [sub_mul, hN] at hlow
  rw [add_mul, hN] at hhigh
  have hlow : (2 * N : ℚ) ≤ 2 * n + 2 ^ c := by linarith
  have hhigh : (2 * n : ℚ) ≤ 2 * N + 2 ^ c := by linarith
  exact ⟨by exact_mod_cast hhigh, by exact_mod_cast hlow⟩

/-- Up to `2 ^ 53` whole numbers have doubles of their own; only the number after `2 ^ 53` shares
one of them, and this number does not end in zero. -/
theorem eq_of_holds {m N n : ℕ} {e : ℤ} (hm : Regular m e) (hN : (m * 2 ^ e : ℚ) = N)
    (hle : N ≤ 2 ^ 53) (h : (Interval.around m e).Holds n) (hten : 10 ∣ n) : n = N := by
  rcases hle.lt_or_eq with hlt | rfl
  · have hexponent : e ≤ (0 : ℕ) := by
      refine hm.exponent_le (by decide) ?_
      rw [hN]
      exact_mod_cast hlt
    have := h.within hm hN hexponent
    omega
  · have hexponent : e ≤ (1 : ℕ) := by
      refine hm.exponent_le (by decide) ?_
      rw [hN]
      exact_mod_cast (by decide : 2 ^ 53 < 2 ^ 54)
    have := h.within hm hN hexponent
    omega

/-- What a word is written as once it has become a double: the word itself up to `2 ^ 53`, and an
even number that becomes the same double after that. -/
theorem text_ofInt {n : ℤ} (hn : fitsWord n = true) :
    ∃ k : ℤ, Numeric.text (.real (Float.ofInt n)) = toString k ∧ Float.ofInt k = Float.ofInt n ∧
      (n.natAbs ≤ 2 ^ 53 → k = n) ∧ (2 ^ 53 < n.natAbs → 2 ∣ k) := by
  obtain ⟨k, hk, hsmall, hlarge⟩ := exists_denoted_ofInt hn
  have hwhole := whole?_eq_some (isFinite_ofInt hn) hk
  rcases Numeric.text_real_cases (Float.ofInt n) with ⟨k', hk', hshort, htext⟩ | ⟨hlong, htext⟩
  · obtain rfl : k = k' := Option.some.inj (hwhole.symm.trans hk')
    have hle : n.natAbs ≤ 2 ^ 53 := not_lt.1 fun hlt => by
      have := (hlarge hlt).1
      omega
    exact ⟨n, hsmall hle ▸ htext, rfl, fun _ => rfl, fun hlt => absurd hle (not_le.2 hlt)⟩
  · have hlong := hlong k hwhole
    obtain ⟨m, e, hparts, -⟩ := ofInt_nearest hn
    obtain ⟨hvalue, hsigned⟩ := natAbs_of_denoted hparts hk
    obtain ⟨K, hK, hholds, hend⟩ := text_whole hparts hvalue (by omega)
    have habs := natAbs_signed (decide (n < 0)) K
    have hregular : Regular m e := (parts_eq_finite hparts).2 fun hm => by
      rw [hm, Nat.cast_zero, zero_mul] at hvalue
      have : 0 = k.natAbs := by exact_mod_cast hvalue
      omega
    have hmost := abs_denoted_ofInt_le hn
    rw [abs_denoted hparts] at hmost
    have hexponent : e ≤ (11 : ℕ) :=
      hregular.exponent_le (by decide) (hmost.trans_lt (zpow_two_lt.2 (by decide)))
    have hwithin := hholds.within hregular hvalue hexponent
    rw [hvalue] at hmost
    have hmost : k.natAbs ≤ 2 ^ 63 := by exact_mod_cast hmost
    refine ⟨signed (decide (n < 0)) K, htext.trans hK, ?_, fun hle => ?_, fun hlt => ?_⟩
    · rw [← ofBits_bitsOf hparts]
      exact ofInt_of_holds hregular (by omega) hholds _
    · rcases hend with rfl | hten
      · exact hsigned.trans (hsmall hle)
      · rw [eq_of_holds hregular hvalue (hsmall hle ▸ hle) hholds hten]
        exact hsigned.trans (hsmall hle)
    · have := (hlarge hlt).2
      omega

end CardScript.Number
