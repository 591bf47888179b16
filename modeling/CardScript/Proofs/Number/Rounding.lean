import CardScript.Number.Shortest
import CardScript.Proofs.Number.Bits
import Mathlib.Algebra.Order.Field.Power
import Mathlib.Data.Nat.Log
import Mathlib.Data.Rat.Cast.Order
import Mathlib.Tactic.FieldSimp
import Mathlib.Tactic.Linarith
import Mathlib.Tactic.NormNum
import Mathlib.Tactic.Positivity
import Mathlib.Tactic.Ring

/-!
# Rounding to the nearest double

Around each double lies an interval of rationals that round to it (`Interval.Holds`). This is all
that reading has to know about a number: a fraction in the interval of a double is rounded to this
double (`ofRatio_of_holds`).
-/

namespace CardScript.Number

/-! ## Powers with whole exponents -/

theorem zpow_mul_pow_toNat {b : ℚ} (hb : b ≠ 0) (e : ℤ) :
    b ^ e * b ^ (-e).toNat = b ^ e.toNat := by
  rcases le_total 0 e with h | h
  · obtain ⟨n, rfl⟩ := Int.eq_ofNat_of_zero_le h
    simp
  · obtain ⟨n, hn⟩ := Int.eq_ofNat_of_zero_le (Int.neg_nonneg_of_nonpos h)
    obtain rfl : e = -n := by omega
    simp [hb]

@[simp, push_cast] theorem cast_twoTo (n : ℕ) : ((twoTo n : ℕ) : ℚ) = 2 ^ n :=
  Nat.cast_pow 2 n

@[simp, push_cast] theorem cast_tenTo (n : ℕ) : ((tenTo n : ℕ) : ℚ) = 10 ^ n :=
  Nat.cast_pow 10 n

theorem zpow_two_pos (e : ℤ) : (0 : ℚ) < 2 ^ e :=
  zpow_pos two_pos e

theorem zpow_two_lt {a b : ℤ} : (2 : ℚ) ^ a < 2 ^ b ↔ a < b :=
  zpow_lt_zpow_iff_right₀ one_lt_two

theorem zpow_two_le {a b : ℤ} : (2 : ℚ) ^ a ≤ 2 ^ b ↔ a ≤ b :=
  zpow_le_zpow_iff_right₀ one_lt_two

theorem zpow_two_add (a b : ℤ) : (2 : ℚ) ^ (a + b) = 2 ^ a * 2 ^ b :=
  zpow_add₀ two_ne_zero a b

/-! ## Whole numbers -/

/-- `q` is the whole number nearest to `r`, an even one if there are two. -/
structure Nearest (q : ℕ) (r : ℚ) : Prop where
  low : q - 1 / 2 ≤ r
  high : r ≤ q + 1 / 2
  tie : q % 2 = 0 ∨ q - 1 / 2 < r ∧ r < q + 1 / 2

theorem roundHalfEven_eq {num den q : ℕ} (hden : 0 < den) (h : Nearest q (num / den)) :
    roundHalfEven num den = q := by
  have hden' : (0 : ℚ) < den := Nat.cast_pos.2 hden
  have hlow : 2 * q * den ≤ 2 * num + den := by
    have := (le_div_iff₀ hden').1 h.low
    have : (2 * q * den : ℚ) ≤ 2 * num + den := by linarith
    exact_mod_cast this
  have hhigh : 2 * num ≤ 2 * q * den + den := by
    have := (div_le_iff₀ hden').1 h.high
    have : (2 * num : ℚ) ≤ 2 * q * den + den := by linarith
    exact_mod_cast this
  have htie : q % 2 = 0 ∨ 2 * q * den < 2 * num + den ∧ 2 * num < 2 * q * den + den := by
    refine h.tie.imp id fun ⟨hl, hh⟩ => ⟨?_, ?_⟩
    · have := (lt_div_iff₀ hden').1 hl
      have : (2 * q * den : ℚ) < 2 * num + den := by linarith
      exact_mod_cast this
    · have := (div_lt_iff₀ hden').1 hh
      have : (2 * num : ℚ) < 2 * q * den + den := by linarith
      exact_mod_cast this
  have hmod := Nat.mod_lt num hden
  have hnum : num = num / den * den + num % den := (Nat.div_add_mod' num den).symm
  simp only [roundHalfEven]
  generalize num / den = a at *
  generalize num % den = r at *
  subst hnum
  -- the quotient is `q`, or the number below it
  have hle : a ≤ q := by
    have : 2 * a * den < (2 * q + 2) * den := by linarith
    have := Nat.lt_of_mul_lt_mul_right this
    omega
  have hge : q ≤ a + 1 := by
    have : 2 * q * den < (2 * a + 3) * den := by linarith
    have := Nat.lt_of_mul_lt_mul_right this
    omega
  obtain rfl | rfl : q = a ∨ q = a + 1 := by omega
  · have hr : 2 * r ≤ den := by linarith
    have hr' : q % 2 = 0 ∨ 2 * r < den := htie.imp id fun h => by linarith [h.2]
    rw [if_neg]
    simp only [Bool.or_eq_true, Bool.and_eq_true, decide_eq_true_eq, beq_iff_eq]
    omega
  · have hr : den ≤ 2 * r := by linarith
    have hr' : (a + 1) % 2 = 0 ∨ den < 2 * r := htie.imp id fun h => by linarith [h.1]
    rw [if_pos]
    simp only [Bool.or_eq_true, Bool.and_eq_true, decide_eq_true_eq, beq_iff_eq]
    omega

/-! ## Exponents -/

theorem log2_bounds {n : ℕ} (hn : 0 < n) :
    (2 : ℚ) ^ (n.log2 : ℤ) ≤ n ∧ (n : ℚ) < 2 ^ ((n.log2 : ℤ) + 1) := by
  constructor
  · rw [zpow_natCast]
    exact_mod_cast Nat.log2_self_le hn.ne'
  · have : n < 2 ^ (n.log2 + 1) := Nat.lt_log2_self
    exact_mod_cast this

/-- A fraction against a power of two, without fractions. -/
theorem lt_zpow_iff {num den : ℕ} (hden : 0 < den) (c : ℕ) (e : ℤ) :
    num * twoTo (-e).toNat < c * den * twoTo e.toNat ↔ (num / den : ℚ) < c * 2 ^ e := by
  have hden' : (0 : ℚ) < den := Nat.cast_pos.2 hden
  have hpos : (0 : ℚ) < 2 ^ (-e).toNat := by positivity
  rw [div_lt_iff₀ hden', ← mul_lt_mul_iff_left₀ hpos]
  have hright : (c * 2 ^ e * den * 2 ^ (-e).toNat : ℚ) = c * den * 2 ^ e.toNat := by
    rw [← zpow_mul_pow_toNat two_ne_zero e]
    ring
  rw [hright]
  exact_mod_cast Iff.rfl

/-- The power of two below a fraction. -/
theorem exponentFor_spec {num den : ℕ} (hnum : 0 < num) (hden : 0 < den) :
    ∃ e, exponentFor num den = max e (-1074) ∧
      (2 : ℚ) ^ (52 + e) ≤ num / den ∧ (num / den : ℚ) < 2 ^ (53 + e) := by
  have hden' : (0 : ℚ) < den := Nat.cast_pos.2 hden
  obtain ⟨hn, hn'⟩ := log2_bounds hnum
  obtain ⟨hd, hd'⟩ := log2_bounds hden
  obtain ⟨l, hl⟩ : ∃ l : ℤ, l = (num.log2 : ℤ) - den.log2 - 52 := ⟨_, rfl⟩
  have hlow : (2 : ℚ) ^ (51 + l) < num / den := by
    rw [lt_div_iff₀ hden']
    calc (2 : ℚ) ^ (51 + l) * den
        < 2 ^ (51 + l) * 2 ^ ((den.log2 : ℤ) + 1) := mul_lt_mul_of_pos_left hd' (zpow_two_pos _)
      _ = 2 ^ (num.log2 : ℤ) := by
        rw [← zpow_two_add]
        congr 1
        omega
      _ ≤ num := hn
  have hhigh : (num / den : ℚ) < 2 ^ (53 + l) := by
    rw [div_lt_iff₀ hden']
    calc (num : ℚ) < 2 ^ ((num.log2 : ℤ) + 1) := hn'
      _ = 2 ^ (53 + l) * 2 ^ (den.log2 : ℤ) := by
        rw [← zpow_two_add]
        congr 1
        omega
      _ ≤ 2 ^ (53 + l) * den := mul_le_mul_of_nonneg_left hd (zpow_two_pos _).le
  have hsplit : ((twoTo 52 : ℕ) : ℚ) * 2 ^ l = 2 ^ (52 + l) := by
    rw [zpow_two_add]
    norm_num [twoTo]
  simp only [exponentFor, ← hl]
  split
  next hless =>
    rw [lt_zpow_iff hden, hsplit] at hless
    refine ⟨l - 1, rfl, ?_, ?_⟩
    · rw [show 52 + (l - 1) = 51 + l by omega]
      exact hlow.le
    · rwa [show 53 + (l - 1) = 52 + l by omega]
  next hless =>
    rw [lt_zpow_iff hden, hsplit, not_lt] at hless
    exact ⟨l, rfl, hless, hhigh⟩

/-- The exponent is the one at which the significand has fifty-three bits, or the least one. -/
theorem exponentFor_eq {num den : ℕ} {e : ℤ} (hnum : 0 < num) (hden : 0 < den) (he : -1074 ≤ e)
    (hlow : (2 : ℚ) ^ (52 + e) ≤ num / den ∨ e = -1074) (hhigh : (num / den : ℚ) < 2 ^ (53 + e)) :
    exponentFor num den = e := by
  obtain ⟨l, hl, hlow', hhigh'⟩ := exponentFor_spec hnum hden
  have hle : l ≤ e := by
    have := zpow_two_lt.1 (hlow'.trans_lt hhigh)
    omega
  rcases hlow with hlow | rfl
  · have := zpow_two_lt.1 (hlow.trans_lt hhigh')
    omega
  · omega

/-! ## Fractions -/

/-- The rationals in an interval, the ends included if it is closed. -/
def Interval.Holds (i : Interval) (r : ℚ) : Prop :=
  if i.closed then i.low * 2 ^ i.exponent ≤ r ∧ r ≤ i.high * 2 ^ i.exponent
  else i.low * 2 ^ i.exponent < r ∧ r < i.high * 2 ^ i.exponent

section Holds

variable {m : ℕ} {e : ℤ} {r : ℚ}

theorem zpow_two_sub_two (e : ℤ) : (2 : ℚ) ^ (e - 2) = 2 ^ e / 4 := by
  rw [zpow_sub₀ two_ne_zero]
  norm_num

/-- The lower end lies half a unit of the last place below a double, or a quarter of it below a
power of two. -/
theorem Interval.low_around (hm : Regular m e) :
    ∃ gap : ℚ, ((Interval.around m e).low : ℚ) = 4 * m - gap ∧ 1 ≤ gap ∧ gap ≤ 2 ∧
      (m = 2 ^ 52 → -1074 < e → gap = 1) ∧ (m ≠ 2 ^ 52 → gap = 2) := by
  have hpos := hm.pos
  have hm' : twoTo 52 = 2 ^ 52 := rfl
  simp only [Interval.around, Bool.and_eq_true, beq_iff_eq, decide_eq_true_eq, hm']
  split
  next h =>
    refine ⟨1, ?_, le_refl _, by norm_num, fun _ _ => rfl, fun hne => absurd h.1 hne⟩
    rw [Nat.cast_sub (by omega)]
    push_cast
    ring
  next h =>
    refine ⟨2, ?_, by norm_num, le_refl _, fun heq he => absurd ⟨heq, he⟩ h, fun _ => rfl⟩
    rw [Nat.cast_sub (by omega)]
    push_cast
    ring

/-- What rounds to a double is nearest to it in units of its last place. -/
theorem Interval.Holds.nearest (hm : Regular m e) (h : (Interval.around m e).Holds r) :
    Nearest m (r / 2 ^ e) := by
  have hpos := zpow_two_pos e
  obtain ⟨gap, hlow, -, hgap, -⟩ := Interval.low_around hm
  unfold Interval.Holds at h
  rw [hlow] at h
  simp only [Interval.around, zpow_two_sub_two, Nat.cast_add, Nat.cast_mul, Nat.cast_ofNat] at h
  generalize (2 : ℚ) ^ e = p at *
  split at h
  next heven =>
    refine ⟨?_, ?_, .inl (beq_iff_eq.1 heven)⟩
    · rw [le_div_iff₀ hpos]
      nlinarith [h.1]
    · rw [div_le_iff₀ hpos]
      linarith [h.2]
  next =>
    have hlow : m - 1 / 2 < r / p := by
      rw [lt_div_iff₀ hpos]
      nlinarith [h.1]
    have hhigh : r / p < m + 1 / 2 := by
      rw [div_lt_iff₀ hpos]
      linarith [h.2]
    exact ⟨hlow.le, hhigh.le, .inr ⟨hlow, hhigh⟩⟩

/-- A double rounds to itself. -/
theorem Interval.holds_self (hm : Regular m e) : (Interval.around m e).Holds (m * 2 ^ e) := by
  have hpos := zpow_two_pos e
  obtain ⟨gap, hlow, hgap, -⟩ := Interval.low_around hm
  unfold Interval.Holds
  rw [hlow]
  simp only [Interval.around, zpow_two_sub_two, Nat.cast_add, Nat.cast_mul, Nat.cast_ofNat]
  have hbelow : (4 * m - gap) * (2 ^ e / 4) < m * 2 ^ e := by nlinarith
  have habove : (m * 2 ^ e : ℚ) < (4 * m + 2) * (2 ^ e / 4) := by linarith
  split
  · exact ⟨hbelow.le, habove.le⟩
  · exact ⟨hbelow, habove⟩

theorem Interval.Holds.pos (hm : Regular m e) (h : (Interval.around m e).Holds r) : 0 < r := by
  have hlow := (le_div_iff₀ (zpow_two_pos e)).1 (h.nearest hm).low
  have hone : (1 : ℚ) ≤ m := by exact_mod_cast hm.pos
  nlinarith [zpow_two_pos e]

theorem Interval.Holds.num_pos {num den : ℕ} (hm : Regular m e)
    (h : (Interval.around m e).Holds (num / den)) : 0 < num := by
  refine Nat.pos_of_ne_zero fun hzero => ?_
  have hpos := h.pos hm
  rw [hzero, Nat.cast_zero, zero_div] at hpos
  exact lt_irrefl _ hpos

/-- Below a power of two, doubles are twice as dense. -/
theorem Interval.Holds.quarter_le (hm : Regular (2 ^ 52) e) (he : -1074 < e)
    (h : (Interval.around (2 ^ 52) e).Holds r) : (2 ^ 52 - 1 / 4) * 2 ^ e ≤ r := by
  obtain ⟨gap, hlow, -, -, hgap, -⟩ := Interval.low_around hm
  unfold Interval.Holds at h
  rw [hlow, hgap rfl he] at h
  simp only [Interval.around, zpow_two_sub_two] at h
  push_cast at h
  split at h <;> linarith [h.1]

end Holds

/-- A fraction in units of a power of two, without fractions. -/
theorem scaled_eq {num den : ℕ} (hden : 0 < den) (e : ℤ) :
    ((num * twoTo (-e).toNat : ℕ) / (den * twoTo e.toNat : ℕ) : ℚ) = num / den / 2 ^ e := by
  have hden' : (den : ℚ) ≠ 0 := Nat.cast_ne_zero.2 hden.ne'
  have hpow := zpow_mul_pow_toNat (two_ne_zero : (2 : ℚ) ≠ 0) e
  push_cast
  rw [← hpow]
  field_simp

/-- The double with a given exponent and significand, of which the exponent is the right one and the
significand the nearest. -/
theorem ofRatio_eq {num den q : ℕ} {e : ℤ} (hnum : 0 < num) (hden : 0 < den)
    (he : exponentFor num den = e) (hq : Nearest q (num / den / 2 ^ e))
    (hfits : (e + 1074).toNat * twoTo 52 + q ≤ 2047 * twoTo 52) (negative : Bool) :
    ofRatio negative num den = Float.ofBits (UInt64.ofNat (bitsOf negative q e)) := by
  have hround : roundHalfEven (num * twoTo (-e).toNat) (den * twoTo e.toNat) = q :=
    roundHalfEven_eq (Nat.mul_pos hden (Nat.pow_pos two_pos)) (scaled_eq hden e ▸ hq)
  have hzero : (num == 0) = false := beq_eq_false_iff_ne.2 hnum.ne'
  simp only [ofRatio, he, hround, hzero, Bool.false_eq_true, if_false, bitsOf]
  rw [Nat.min_eq_left hfits]

/-- Among the denser doubles below a power of two, a fraction that rounds to this power is rounded
up to it. -/
theorem ofRatio_of_holds_below {num den : ℕ} {e : ℤ} (hm : Regular (2 ^ 52) e) (hden : 0 < den)
    (he : -1074 < e) (h : (Interval.around (2 ^ 52) e).Holds (num / den))
    (hbelow : (num / den : ℚ) < 2 ^ (52 + e)) (negative : Bool) :
    ofRatio negative num den = Float.ofBits (UInt64.ofNat (bitsOf negative (2 ^ 52) e)) := by
  have hquarter := h.quarter_le hm he
  have hbelow' : (num / den : ℚ) < 2 ^ 52 * 2 ^ e := by
    rwa [zpow_two_add] at hbelow
  have hexponent : exponentFor num den = e - 1 := by
    refine exponentFor_eq (h.num_pos hm) hden (by omega) (.inl ?_) ?_
    · rw [show 52 + (e - 1) = 51 + e by omega, zpow_two_add]
      norm_num at hquarter ⊢
      linarith [zpow_two_pos e]
    · rwa [show 53 + (e - 1) = 52 + e by omega]
  have hup : Nearest (2 ^ 53) (num / den / 2 ^ (e - 1)) := by
    have hhalf : (2 : ℚ) ^ (e - 1) = 2 ^ e / 2 := by
      rw [zpow_sub₀ two_ne_zero, zpow_one]
    refine ⟨?_, ?_, .inl (by norm_num)⟩
    · rw [le_div_iff₀ (zpow_two_pos _), hhalf]
      norm_num at hquarter ⊢
      linarith
    · rw [div_le_iff₀ (zpow_two_pos _), hhalf]
      norm_num at hbelow' ⊢
      linarith [zpow_two_pos e]
  have htwo : twoTo 52 = 4503599627370496 := rfl
  have hmost := hm.most
  have hbits : bitsOf negative (2 ^ 53) (e - 1) = bitsOf negative (2 ^ 52) e := by
    rw [bitsOf_carry negative (by omega), sub_add_cancel]
  rw [ofRatio_eq (h.num_pos hm) hden hexponent hup ?_ negative, hbits]
  rw [htwo]
  omega

/-- A fraction that rounds to a double is read as this double. -/
theorem ofRatio_of_holds {m num den : ℕ} {e : ℤ} (hm : Regular m e) (hden : 0 < den)
    (h : (Interval.around m e).Holds (num / den)) (negative : Bool) :
    ofRatio negative num den = Float.ofBits (UInt64.ofNat (bitsOf negative m e)) := by
  by_cases hbelow : m = 2 ^ 52 ∧ -1074 < e ∧ (num / den : ℚ) < 2 ^ (52 + e)
  · obtain ⟨rfl, he, hbelow⟩ := hbelow
    exact ofRatio_of_holds_below hm hden he h hbelow negative
  · have hpos := zpow_two_pos e
    have hnearest := h.nearest hm
    have hlow := (le_div_iff₀ hpos).1 hnearest.low
    have hhigh := (div_le_iff₀ hpos).1 hnearest.high
    have he : exponentFor num den = e := by
      refine exponentFor_eq (h.num_pos hm) hden hm.least ?_ ?_
      · rcases Nat.lt_trichotomy m (2 ^ 52) with hlt | heq | hgt
        · exact .inr (hm.normal hlt)
        · by_cases hleast : e = -1074
          · exact .inr hleast
          · have hleast' := hm.least
            exact .inl (not_lt.1 fun hlt => hbelow ⟨heq, by omega, hlt⟩)
        · have hgt' : (2 ^ 52 + 1 : ℚ) ≤ m := by exact_mod_cast hgt
          refine .inl (le_trans ?_ hlow)
          rw [zpow_two_add]
          exact mul_le_mul_of_nonneg_right (by norm_num; linarith) hpos.le
      · have hlt' : (m + 1 : ℚ) ≤ 2 ^ 53 := by exact_mod_cast hm.lt
        refine lt_of_le_of_lt hhigh ?_
        rw [zpow_two_add]
        exact mul_lt_mul_of_pos_right (by norm_num; linarith) hpos
    refine ofRatio_eq (h.num_pos hm) hden he hnearest ?_ negative
    have htwo : twoTo 52 = 4503599627370496 := rfl
    have hlt := hm.lt
    have hmost := hm.most
    rw [htwo]
    omega

end CardScript.Number
