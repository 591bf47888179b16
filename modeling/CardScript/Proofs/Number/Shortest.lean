import CardScript.Proofs.Number.Rounding

/-!
# Shortest decimals

The shortest decimal of a double lies in the interval of the reals that round to it
(`shortest_holds`): each decimal that is tried is checked to do so, and seventeen digits always
suffice (`Interval.isSome_onGrid?`), since the leading digit is never guessed too high
(`leadingPower_le`).
-/

namespace CardScript.Number

/-! ## Grids -/

/-- Multiples of a power of two against multiples of a power of ten, without fractions. -/
theorem exists_common (e k : ℤ) :
    ∃ c : ℚ, 0 < c ∧ ((twoTo e.toNat * tenTo (-k).toNat : ℕ) : ℚ) = 2 ^ e * c ∧
      ((twoTo (-e).toNat * tenTo k.toNat : ℕ) : ℚ) = 10 ^ k * c := by
  refine ⟨2 ^ (-e).toNat * 10 ^ (-k).toNat, by positivity, ?_, ?_⟩
  · have h := zpow_mul_pow_toNat (two_ne_zero : (2 : ℚ) ≠ 0) e
    push_cast
    rw [← h]
    ring
  · have h := zpow_mul_pow_toNat (by norm_num : (10 : ℚ) ≠ 0) k
    push_cast
    rw [← h]
    ring

theorem scaled_le_iff (a d : ℕ) (e k : ℤ) :
    a * (twoTo e.toNat * tenTo (-k).toNat) ≤ d * (twoTo (-e).toNat * tenTo k.toNat) ↔
      (a : ℚ) * 2 ^ e ≤ d * 10 ^ k := by
  obtain ⟨c, hc, hscale, hunit⟩ := exists_common e k
  rw [← Nat.cast_le (α := ℚ), Nat.cast_mul, Nat.cast_mul d, hscale, hunit, ← mul_assoc,
    ← mul_assoc, mul_le_mul_iff_left₀ hc]

theorem le_scaled_iff (a d : ℕ) (e k : ℤ) :
    d * (twoTo (-e).toNat * tenTo k.toNat) ≤ a * (twoTo e.toNat * tenTo (-k).toNat) ↔
      (d : ℚ) * 10 ^ k ≤ a * 2 ^ e := by
  obtain ⟨c, hc, hscale, hunit⟩ := exists_common e k
  rw [← Nat.cast_le (α := ℚ), Nat.cast_mul, Nat.cast_mul a, hscale, hunit, ← mul_assoc,
    ← mul_assoc, mul_le_mul_iff_left₀ hc]

namespace Interval

/-- A multiple of a power of ten lies in the interval. -/
def reaches (i : Interval) (k : ℤ) (d : ℕ) : Bool :=
  let scale := twoTo i.exponent.toNat * tenTo (-k).toNat
  let unit := twoTo (-i.exponent).toNat * tenTo k.toNat
  if i.closed then i.low * scale ≤ d * unit && d * unit ≤ i.high * scale
  else i.low * scale < d * unit && d * unit < i.high * scale

theorem reaches_iff (i : Interval) (k : ℤ) (d : ℕ) :
    i.reaches k d = true ↔ i.Holds (d * 10 ^ k) := by
  simp only [reaches, Holds]
  split
  · simp only [Bool.and_eq_true, decide_eq_true_eq, scaled_le_iff, le_scaled_iff]
  · simp only [Bool.and_eq_true, decide_eq_true_eq, ← not_le, scaled_le_iff, le_scaled_iff]

/-- The multiple below the value. -/
def below (i : Interval) (k : ℤ) : ℕ :=
  i.value * (twoTo i.exponent.toNat * tenTo (-k).toNat) /
    (twoTo (-i.exponent).toNat * tenTo k.toNat)

/-- What is found on a grid is one of the neighbours of the value, and lies in the interval. -/
theorem onGrid?_eq_some {i : Interval} {k : ℤ} {d : ℕ} (h : i.onGrid? k = some d) :
    i.Holds (d * 10 ^ k) := by
  rw [← reaches_iff]
  unfold onGrid? at h
  simp only at h
  split at h
  next hbelow habove =>
    split at h
    · cases h
      exact habove
    · cases h
      exact hbelow
  next hbelow _ =>
    cases h
    exact hbelow
  next _ habove =>
    cases h
    exact habove
  next => cases h

/-- Nothing is found on a grid only if neither neighbour of the value lies in the interval. -/
theorem onGrid?_eq_none {i : Interval} {k : ℤ} (h : i.onGrid? k = none) :
    ¬ i.Holds (i.below k * 10 ^ k) ∧ ¬ i.Holds ((i.below k + 1 : ℕ) * 10 ^ k) := by
  rw [← reaches_iff, ← reaches_iff]
  unfold onGrid? at h
  simp only at h
  split at h
  · split at h <;> cases h
  · cases h
  · cases h
  next hbelow habove => exact ⟨ne_true_of_eq_false hbelow, ne_true_of_eq_false habove⟩

/-- The value lies between its neighbours on a grid. -/
theorem below_le (i : Interval) (k : ℤ) :
    (i.below k : ℚ) * 10 ^ k ≤ i.value * 2 ^ i.exponent ∧
      i.value * 2 ^ i.exponent < ((i.below k + 1 : ℕ) : ℚ) * 10 ^ k := by
  have hunit : 0 < twoTo (-i.exponent).toNat * tenTo k.toNat :=
    Nat.mul_pos (Nat.pow_pos (by decide)) (Nat.pow_pos (by decide))
  constructor
  · rw [← le_scaled_iff]
    exact Nat.div_mul_le_self _ _
  · rw [← not_le, ← le_scaled_iff, not_le]
    exact (Nat.div_lt_iff_lt_mul hunit).1 (Nat.lt_succ_self _)

/-- Seventeen digits always suffice: their grid is finer than the interval is wide. -/
theorem isSome_onGrid? {m : ℕ} {e k : ℤ} (hm : Regular m e)
    (hk : (10 : ℚ) ^ 16 * 10 ^ k ≤ m * 2 ^ e) : ((around m e).onGrid? k).isSome := by
  rw [Option.isSome_iff_ne_none]
  intro hnone
  obtain ⟨hbelow, habove⟩ := onGrid?_eq_none hnone
  obtain ⟨hle, hlt⟩ := (around m e).below_le k
  obtain ⟨gap, hlow, hgap, -, -, hwide⟩ := low_around hm
  have hpos := zpow_two_pos e
  generalize (around m e).below k = d at *
  unfold Holds at hbelow habove
  rw [hlow] at hbelow habove
  simp only [around, zpow_two_sub_two] at hbelow habove hle hlt
  push_cast at hbelow habove hle hlt
  generalize (2 : ℚ) ^ e = p at *
  generalize (10 : ℚ) ^ k = g at *
  -- both neighbours lie outside, so the interval fits between them
  have hleft : d * g ≤ (4 * m - gap) * (p / 4) := by
    refine not_lt.1 fun hlt => hbelow ?_
    split
    · exact ⟨hlt.le, by linarith⟩
    · exact ⟨hlt, by linarith⟩
  have hright : (4 * m + 2) * (p / 4) ≤ (d + 1) * g := by
    refine not_lt.1 fun hlt => habove ?_
    have hmore : (4 * m - gap) * (p / 4) < (d + 1) * g := by nlinarith
    split
    · exact ⟨hmore.le, hlt.le⟩
    · exact ⟨hmore, hlt⟩
  have hwidth : (2 + gap) * (p / 4) ≤ g := by linarith
  have hgrid : 10 ^ 16 * (2 + gap) ≤ 4 * m := by
    have : 10 ^ 16 * (2 + gap) * p ≤ 4 * m * p := by linarith
    exact le_of_mul_le_mul_right this hpos
  by_cases hpower : m = 2 ^ 52
  · have hm' : (m : ℚ) = 2 ^ 52 := by exact_mod_cast hpower
    linarith
  · have hm' : (m : ℚ) < 2 ^ 53 := by exact_mod_cast hm.lt
    linarith [hwide hpower]

end Interval

/-! ## The leading digit -/

/-- A power of ten against a power of two, by a fraction near the logarithm of two. -/
theorem zpow_ten_le_zpow_two {a b : ℤ} {c n : ℕ} (hn : n ≠ 0) (h : a * n ≤ c * b)
    (hpow : ((10 : ℚ) ^ c) ^ b ≤ (2 ^ n) ^ b) : (10 : ℚ) ^ a ≤ 2 ^ b := by
  refine (pow_le_pow_iff_left₀ (by positivity) (by positivity) hn).1 ?_
  calc ((10 : ℚ) ^ a) ^ n = 10 ^ (a * n) := by rw [zpow_mul, zpow_natCast]
    _ ≤ 10 ^ (c * b) := zpow_le_zpow_right₀ (by norm_num) h
    _ = (10 ^ c) ^ b := by rw [zpow_mul, zpow_natCast]
    _ ≤ (2 ^ n) ^ b := hpow
    _ = (2 ^ b) ^ n := by rw [← zpow_natCast, ← zpow_natCast, ← zpow_mul, ← zpow_mul, mul_comm]

/-- The guess is at most one too large, for all powers of two that doubles range over. -/
theorem guess_le {b : ℤ} (hlow : -1074 ≤ b) (hhigh : b ≤ 1023) :
    (10 : ℚ) ^ (b * 30103 / 100000 - 1) ≤ 2 ^ b := by
  rcases le_total 0 b with hb | hb
  · refine zpow_ten_le_zpow_two (c := 59) (n := 196) (by decide) (by omega) ?_
    exact zpow_le_zpow_left₀ hb (by positivity) (by norm_num)
  · refine zpow_ten_le_zpow_two (c := 28) (n := 93) (by decide) (by omega) ?_
    obtain ⟨j, hj⟩ := Int.eq_ofNat_of_zero_le (Int.neg_nonneg_of_nonpos hb)
    obtain rfl : b = -j := by omega
    rw [zpow_neg, zpow_neg, zpow_natCast, zpow_natCast]
    exact inv_anti₀ (by positivity) (pow_le_pow_left₀ (by positivity) (by norm_num) j)

/-- The leading digit of a double is no greater than the double. -/
theorem leadingPower_le {m : ℕ} {e : ℤ} (hm : Regular m e) :
    (10 : ℚ) ^ leadingPower m e ≤ m * 2 ^ e := by
  have hatLeast (p : ℤ) : tenTo p.toNat * twoTo (-e).toNat ≤ m * twoTo e.toNat * tenTo (-p).toNat ↔
      (10 : ℚ) ^ p ≤ m * 2 ^ e := by
    have h := le_scaled_iff m 1 e p
    rwa [Nat.one_mul, Nat.mul_comm (twoTo _), ← Nat.mul_assoc, Nat.cast_one, one_mul] at h
  obtain ⟨hlog, -⟩ := log2_bounds hm.pos
  have hlog' : m.log2 < 53 := (Nat.log2_lt hm.pos.ne').2 hm.lt
  have hleast := hm.least
  have hmost := hm.most
  simp only [leadingPower, hatLeast]
  split
  · calc (10 : ℚ) ^ (((m.log2 : ℤ) + e) * 30103 / 100000 - 1) ≤ 2 ^ ((m.log2 : ℤ) + e) :=
        guess_le (by omega) (by omega)
      _ = 2 ^ (m.log2 : ℤ) * 2 ^ e := zpow_two_add _ _
      _ ≤ m * 2 ^ e := mul_le_mul_of_nonneg_right hlog (zpow_two_pos e).le
  next hguess =>
    split
    next hmore => exact of_decide_eq_true hmore
    next => simpa using hguess

/-! ## The shortest decimal -/

theorem Interval.onGrid?_shortestFrom {i : Interval} {lead : ℤ} {more digits : ℕ}
    (h : (i.onGrid? (lead - (digits + more : ℕ) + 1)).isSome) :
    i.onGrid? (i.shortestFrom lead more digits).exponent =
      some (i.shortestFrom lead more digits).digits := by
  induction more generalizing digits with
  | zero =>
    obtain ⟨d, hd⟩ := Option.isSome_iff_exists.1 h
    simp only [Nat.add_zero] at hd
    simp only [shortestFrom, hd, Option.getD_some]
  | succ more ih =>
    simp only [shortestFrom]
    split
    next d hd => exact hd
    next => exact ih (by rwa [Nat.add_right_comm, Nat.add_assoc])

/-- The shortest decimal of a double rounds to it. -/
theorem shortest_holds {m : ℕ} {e : ℤ} (hm : Regular m e) :
    (Interval.around m e).Holds ((shortest m e).digits * 10 ^ (shortest m e).exponent) := by
  refine Interval.onGrid?_eq_some (Interval.onGrid?_shortestFrom (Interval.isSome_onGrid? hm ?_))
  have hsplit : (10 : ℚ) ^ leadingPower m e =
      10 ^ 16 * 10 ^ (leadingPower m e - (1 + 16 : ℕ) + 1) := by
    rw [show (10 : ℚ) ^ 16 = 10 ^ (16 : ℤ) from rfl, ← zpow_add₀ (by norm_num)]
    congr 1
    omega
  rw [← hsplit]
  exact leadingPower_le hm

end CardScript.Number
