import CardScript.Proofs.Number.Conversion
import CardScript.Proofs.Number.Numerals
import CardScript.Proofs.Number.Shortest

/-!
# Decimals that are read back

The shortest decimal of a double is written out positionally (`Decimal.exists_numeral`). Read again,
it is rounded to the double it came from (`readDecimal?_text`). What a number is written as is
therefore read as this number, or else as an integer (`Numeric.read?_text_real`) that becomes the
same double (`Numeric.toFloat_read?_text`).
-/

namespace CardScript.Number

/-! ## Reading decimals -/

/-- Doubles end far below and far above the powers of ten at which reading gives up. -/
theorem Interval.Holds.range {m : ℕ} {e : ℤ} {r : ℚ} (hm : Regular m e)
    (h : (Interval.around m e).Holds r) : (10 : ℚ) ^ (-400 : ℤ) ≤ r ∧ r < 10 ^ (401 : ℤ) := by
  have hnearest := h.nearest hm
  have hpos := zpow_two_pos e
  have hlow := (le_div_iff₀ hpos).1 hnearest.low
  have hhigh := (div_le_iff₀ hpos).1 hnearest.high
  have hone : (1 : ℚ) ≤ m := by exact_mod_cast hm.pos
  have hlt : (m + 1 : ℚ) ≤ 2 ^ 53 := by exact_mod_cast hm.lt
  have hleast : (2 : ℚ) ^ (-1074 : ℤ) ≤ 2 ^ e := zpow_two_le.2 hm.least
  have hmost : (2 : ℚ) ^ e ≤ 2 ^ (971 : ℤ) := zpow_two_le.2 hm.most
  constructor
  · calc (10 : ℚ) ^ (-400 : ℤ) ≤ 10 ^ (-1 + -325 : ℤ) :=
        zpow_le_zpow_right₀ (by norm_num) (by decide)
      _ = 10 ^ (-1 : ℤ) * 10 ^ (-325 : ℤ) := zpow_add₀ (by norm_num) _ _
      _ ≤ 1 / 2 * 2 ^ (-1074 : ℤ) :=
        mul_le_mul (by norm_num) (guess_le (le_refl _) (by decide)) (by positivity) (by norm_num)
      _ ≤ (m - 1 / 2) * 2 ^ e := mul_le_mul (by linarith) hleast (zpow_two_pos _).le (by linarith)
      _ ≤ r := hlow
  · calc r ≤ (m + 1 / 2) * 2 ^ e := hhigh
      _ ≤ 2 ^ (55 : ℤ) * 2 ^ (971 : ℤ) :=
        mul_le_mul (by norm_num; linarith) hmost hpos.le (by positivity)
      _ = (2 ^ 3) ^ (342 : ℤ) := by
        rw [← zpow_two_add, ← zpow_natCast, ← zpow_mul]
        rfl
      _ ≤ 10 ^ (342 : ℤ) := zpow_le_zpow_left₀ (by decide) (by norm_num) (by norm_num)
      _ < 10 ^ (401 : ℤ) := zpow_lt_zpow_right₀ (by norm_num) (by decide)

/-- The number of bits bounds the number of digits from both sides. -/
theorem digits_bounds {n : ℕ} (hn : 0 < n) :
    (10 : ℚ) ^ ((n.log2 / 4 : ℕ) : ℤ) ≤ n ∧ (n : ℚ) ≤ 10 ^ ((n.log2 / 3 + 1 : ℕ) : ℤ) := by
  have hleast : 10 ^ (n.log2 / 4) ≤ n :=
    calc 10 ^ (n.log2 / 4) ≤ 16 ^ (n.log2 / 4) := Nat.pow_le_pow_left (by decide) _
      _ = 2 ^ (4 * (n.log2 / 4)) := by rw [Nat.pow_mul]
      _ ≤ 2 ^ n.log2 := Nat.pow_le_pow_right (by decide) (by omega)
      _ ≤ n := Nat.log2_self_le hn.ne'
  have hmost : n ≤ 10 ^ (n.log2 / 3 + 1) :=
    calc n ≤ 2 ^ (n.log2 + 1) := Nat.lt_log2_self.le
      _ ≤ 2 ^ (3 * (n.log2 / 3 + 1)) := Nat.pow_le_pow_right (by decide) (by omega)
      _ = 8 ^ (n.log2 / 3 + 1) := by rw [Nat.pow_mul]
      _ ≤ 10 ^ (n.log2 / 3 + 1) := Nat.pow_le_pow_left (by decide) _
  exact ⟨by exact_mod_cast hleast, by exact_mod_cast hmost⟩

theorem decimal_eq_ratio (digits : ℕ) (exponent : ℤ) :
    ((digits * tenTo exponent.toNat : ℕ) / (tenTo (-exponent).toNat : ℕ) : ℚ) =
      digits * 10 ^ exponent := by
  have hpow := zpow_mul_pow_toNat (by norm_num : (10 : ℚ) ≠ 0) exponent
  push_cast
  rw [← hpow]
  field_simp

/-- A decimal that rounds to a double is read as this double. -/
theorem ofDecimal_of_holds {m digits : ℕ} {e exponent : ℤ} (hm : Regular m e)
    (h : (Interval.around m e).Holds (digits * 10 ^ exponent)) (negative : Bool) :
    ofDecimal negative digits exponent = Float.ofBits (UInt64.ofNat (bitsOf negative m e)) := by
  obtain ⟨hlow, hhigh⟩ := h.range hm
  have hpos (k : ℤ) : (0 : ℚ) < 10 ^ k := zpow_pos (by norm_num) k
  have hten {a b : ℤ} : (10 : ℚ) ^ a < 10 ^ b ↔ a < b := zpow_lt_zpow_iff_right₀ (by norm_num)
  have hdigits : 0 < digits := by
    refine Nat.pos_of_ne_zero fun hzero => ?_
    have hholds := h.pos hm
    rw [hzero, Nat.cast_zero, zero_mul] at hholds
    exact lt_irrefl _ hholds
  have hzero : (digits == 0) = false := beq_eq_false_iff_ne.2 hdigits.ne'
  obtain ⟨hleast, hmost⟩ := digits_bounds hdigits
  have hsmall : ¬ 400 < exponent + (digits.log2 / 4 : ℕ) := by
    have : (10 : ℚ) ^ (((digits.log2 / 4 : ℕ) : ℤ) + exponent) < 10 ^ (401 : ℤ) := by
      rw [zpow_add₀ (by norm_num)]
      exact lt_of_le_of_lt (mul_le_mul_of_nonneg_right hleast (hpos _).le) hhigh
    have := hten.1 this
    omega
  have hlarge : ¬ exponent + (digits.log2 / 3 + 1 : ℕ) < -400 := by
    have : (10 : ℚ) ^ (-401 : ℤ) < 10 ^ (((digits.log2 / 3 + 1 : ℕ) : ℤ) + exponent) := by
      rw [zpow_add₀ (by norm_num) _ exponent]
      refine lt_of_lt_of_le (hten.2 (by decide : (-401 : ℤ) < -400)) (hlow.trans ?_)
      exact mul_le_mul_of_nonneg_right hmost (hpos _).le
    have := hten.1 this
    omega
  simp only [ofDecimal, hzero, Bool.false_eq_true, if_false]
  rw [if_neg hsmall, if_neg hlarge]
  rw [← decimal_eq_ratio] at h
  exact ofRatio_of_holds hm (Nat.pow_pos (by decide)) h negative

/-! ## Numerals -/

/-- Digits, at least one of them, and the digits after the point. -/
structure Numeral where
  integral : List Char
  fraction : List Char
  ne_nil : integral ≠ []
  integral_digits : ∀ c ∈ integral, c.isDigit = true
  fraction_digits : ∀ c ∈ fraction, c.isDigit = true

namespace Numeral

/-- There is no point unless digits follow. -/
def chars (n : Numeral) : List Char :=
  n.integral ++ if n.fraction.isEmpty then [] else '.' :: n.fraction

def value (n : Numeral) : ℚ :=
  ofDigits (n.integral ++ n.fraction) * 10 ^ (-(n.fraction.length : ℤ))

theorem chars_of_nil {n : Numeral} (h : n.fraction = []) : n.chars = n.integral := by
  rw [chars, h, List.isEmpty_nil, if_pos rfl, List.append_nil]

theorem chars_of_ne_nil {n : Numeral} (h : n.fraction ≠ []) :
    n.chars = n.integral ++ '.' :: n.fraction := by
  rw [chars, if_neg (by simpa using h)]

theorem mem_chars {n : Numeral} {c : Char} (hc : c ∈ n.chars) : c.isDigit = true ∨ c = '.' := by
  by_cases h : n.fraction = []
  · rw [chars_of_nil h] at hc
    exact .inl (n.integral_digits c hc)
  · rw [chars_of_ne_nil h, List.mem_append, List.mem_cons] at hc
    rcases hc with hc | hc | hc
    · exact .inl (n.integral_digits c hc)
    · exact .inr hc
    · exact .inl (n.fraction_digits c hc)

theorem exists_digit (n : Numeral) : ∃ c ∈ n.chars, c.isDigit = true := by
  obtain ⟨c, hc⟩ := List.exists_mem_of_ne_nil _ n.ne_nil
  exact ⟨c, List.mem_append_left _ hc, n.integral_digits c hc⟩

theorem takeSign_chars (n : Numeral) (negative : Bool) :
    takeSign (withSign negative n.chars) = (negative, n.chars) := by
  refine takeSign_withSign negative (List.append_ne_nil_of_left_ne_nil n.ne_nil _) fun c hc => ?_
  rw [chars, List.head?_append_of_ne_nil _ n.ne_nil] at hc
  exact n.integral_digits c (List.mem_of_mem_head? hc)

end Numeral

theorem span_digits {digits : List Char} (hdigits : ∀ c ∈ digits, c.isDigit = true)
    (rest : List Char) (hrest : ∀ c ∈ rest.head?, c.isDigit = false) :
    (digits ++ rest).takeWhile Char.isDigit = digits ∧
      (digits ++ rest).dropWhile Char.isDigit = rest := by
  have hnone : rest.takeWhile Char.isDigit = [] ∧ rest.dropWhile Char.isDigit = rest := by
    cases rest with
    | nil => exact ⟨rfl, rfl⟩
    | cons c rest =>
      have hc : ¬ c.isDigit = true := ne_true_of_eq_false (hrest c rfl)
      exact ⟨List.takeWhile_cons_of_neg hc, List.dropWhile_cons_of_neg hc⟩
  rw [List.takeWhile_append_of_pos hdigits, List.dropWhile_append_of_pos hdigits, hnone.1,
    hnone.2, List.append_nil]
  exact ⟨rfl, rfl⟩

namespace Numeral

theorem readDecimal?_chars (n : Numeral) (negative : Bool) :
    readDecimal? (withSign negative n.chars) =
      some (ofDecimal negative (ofDigits (n.integral ++ n.fraction))
        (-(n.fraction.length : ℤ))) := by
  have hsign := n.takeSign_chars negative
  have hempty : n.integral.isEmpty = false := List.isEmpty_eq_false_iff.2 n.ne_nil
  by_cases h : n.fraction = []
  · obtain ⟨htake, hdrop⟩ := span_digits n.integral_digits [] nofun
    rw [chars_of_nil h] at hsign ⊢
    rw [List.append_nil] at htake hdrop
    simp only [readDecimal?, hsign, htake, hdrop, hempty, h, Bool.false_and, Bool.false_eq_true,
      if_false, readExponent?, Option.map_some, List.append_nil]
    rfl
  · obtain ⟨htake, hdrop⟩ := span_digits n.integral_digits ('.' :: n.fraction) (by simp)
    obtain ⟨htake', hdrop'⟩ := span_digits n.fraction_digits [] nofun
    rw [List.append_nil] at htake' hdrop'
    rw [chars_of_ne_nil h] at hsign ⊢
    simp only [readDecimal?, hsign, htake, hdrop, htake', hdrop', hempty, Bool.false_and,
      Bool.false_eq_true, if_false, readExponent?, Option.map_some, zero_sub]

/-- Digits with a point among them write no whole number. -/
theorem readWhole?_chars {n : Numeral} (h : n.fraction ≠ []) (negative : Bool) :
    readWhole? (withSign negative n.chars) = none := by
  have hpoint : '.' ∈ n.chars := by
    rw [chars_of_ne_nil h]
    exact List.mem_append_right _ List.mem_cons_self
  have hall : n.chars.all Char.isDigit = false := List.all_eq_false.2 ⟨'.', hpoint, by decide⟩
  simp only [readWhole?, takeSign_chars, hall, Bool.and_false, Bool.false_eq_true, if_false]

end Numeral

/-! ## Writing decimals -/

/-- A text without the zeros at its end. -/
theorem exists_zeros (cs : List Char) :
    ∃ k, cs = (cs.reverse.dropWhile (· == '0')).reverse ++ List.replicate k '0' := by
  refine ⟨(cs.reverse.takeWhile (· == '0')).length, ?_⟩
  have hzeros : cs.reverse.takeWhile (· == '0') =
      List.replicate (cs.reverse.takeWhile (· == '0')).length '0' := by
    refine List.eq_replicate_iff.2 ⟨rfl, fun c hc => ?_⟩
    exact beq_iff_eq.1 (List.mem_takeWhile_imp (p := (· == '0')) hc)
  rw [← List.reverse_replicate, ← hzeros, ← List.reverse_append, List.takeWhile_append_dropWhile,
    List.reverse_reverse]

theorem isDigit_append {ds es : List Char} (hds : ∀ c ∈ ds, c.isDigit = true)
    (hes : ∀ c ∈ es, c.isDigit = true) : ∀ c ∈ ds ++ es, c.isDigit = true :=
  List.forall_mem_append.2 ⟨hds, hes⟩

theorem isDigit_zeros (k : ℕ) : ∀ c ∈ List.replicate k '0', c.isDigit = true := by
  intro c hc
  rw [(List.mem_replicate.1 hc).2]
  rfl

/-- Digits with a point before the last few of them, and without the zeros at their end. -/
theorem exists_numeral {digits : List Char} {places : ℕ} (hlength : places < digits.length)
    (hdigits : ∀ c ∈ digits, c.isDigit = true) :
    let fraction := (digits.drop (digits.length - places)).reverse.dropWhile (· == '0')
    let integral := digits.take (digits.length - places)
    ∃ n : Numeral, n.value = ofDigits digits * 10 ^ (-(places : ℤ)) ∧
      (if fraction.isEmpty then integral else integral ++ '.' :: fraction.reverse) = n.chars := by
  intro fraction integral
  obtain ⟨k, hk⟩ : ∃ k, digits.drop (digits.length - places) =
      fraction.reverse ++ List.replicate k '0' := exists_zeros _
  have hsplit : digits = integral ++ fraction.reverse ++ List.replicate k '0' := by
    rw [List.append_assoc, ← hk, List.take_append_drop]
  have hplaces : places = fraction.reverse.length + k := by
    have := congrArg List.length hk
    rw [List.length_drop, List.length_append, List.length_replicate] at this
    omega
  have hparts : ∀ c ∈ integral ++ fraction.reverse, c.isDigit = true := fun c hc =>
    hdigits c (hsplit ▸ List.mem_append_left _ hc)
  obtain ⟨hintegral, hfraction⟩ := List.forall_mem_append.1 hparts
  have hne : integral ≠ [] := List.ne_nil_of_length_pos (by rw [List.length_take]; omega)
  refine ⟨⟨integral, fraction.reverse, hne, hintegral, hfraction⟩, ?_, ?_⟩
  · rw [Numeral.value, hplaces]
    conv_rhs => rw [hsplit, ofDigits_append_zeros]
    push_cast
    rw [neg_add, zpow_add₀ (by norm_num), zpow_neg _ (k : ℤ), zpow_natCast]
    field_simp
  · simp only [Numeral.chars, List.isEmpty_reverse]
    split
    · rw [List.append_nil]
    · rfl

/-- What a decimal is written as. -/
theorem Decimal.exists_numeral (d : Decimal) :
    ∃ n : Numeral, n.value = d.digits * 10 ^ d.exponent ∧ d.positional = n.chars := by
  have hdigits := isDigit_toDigits d.digits
  simp only [positional]
  split
  next hexponent =>
    refine ⟨⟨Nat.toDigits 10 d.digits ++ List.replicate d.exponent.toNat '0', [],
      List.append_ne_nil_of_left_ne_nil Nat.toDigits_ne_nil _,
      isDigit_append hdigits (isDigit_zeros _), nofun⟩, ?_, ?_⟩
    · obtain ⟨k, hk⟩ := Int.eq_ofNat_of_zero_le hexponent
      rw [Numeral.value, List.append_nil, ofDigits_append_zeros, ofDigits_toDigits]
      simp [hk]
    · rw [Numeral.chars_of_nil rfl]
  next hexponent =>
    obtain ⟨places, hplaces⟩ : ∃ places : ℕ, d.exponent = -places := ⟨(-d.exponent).toNat, by omega⟩
    have hplaces' : (-d.exponent).toNat = places := by omega
    rw [hplaces']
    generalize hpadded : List.replicate (places + 1 - (Nat.toDigits 10 d.digits).length) '0' ++
      Nat.toDigits 10 d.digits = padded
    have hlength : places < padded.length := by
      rw [← hpadded, List.length_append, List.length_replicate]
      omega
    have hall : ∀ c ∈ padded, c.isDigit = true := hpadded ▸ isDigit_append (isDigit_zeros _) hdigits
    have hvalue : ofDigits padded = d.digits := by
      rw [← hpadded, ofDigits_zeros_append, ofDigits_toDigits]
    obtain ⟨n, hn, hchars⟩ := Number.exists_numeral hlength hall
    exact ⟨n, by rw [hn, hvalue, hplaces], hchars⟩

/-- No whole number rounds to a double that is not whole: near such a double, whole numbers are
doubles themselves. -/
theorem not_holds_whole {x : Float} {negative : Bool} {m : ℕ} {e : ℤ}
    (h : parts x = .finite negative m e) (hm : m ≠ 0) (hwhole : whole? x = none) (n : ℕ) :
    ¬ (Interval.around m e).Holds n := by
  intro hholds
  have hnearest := hholds.nearest ((parts_eq_finite h).2 hm)
  simp only [whole?, h] at hwhole
  split at hwhole
  · cases hwhole
  next hnegative =>
    split at hwhole
    · cases hwhole
    next hfraction =>
      obtain ⟨k, rfl⟩ : ∃ k : ℕ, e = -k := ⟨(-e).toNat, by omega⟩
      have hscaled : (n : ℚ) / 2 ^ (-(k : ℤ)) = (n * 2 ^ k : ℕ) := by
        rw [zpow_neg, zpow_natCast, div_inv_eq_mul]
        push_cast
        rfl
      have hlow := hnearest.low
      have hhigh := hnearest.high
      rw [hscaled] at hlow hhigh
      have hlow' : 2 * m ≤ 2 * (n * 2 ^ k) + 1 := by
        have : (2 * m : ℚ) ≤ 2 * (n * 2 ^ k : ℕ) + 1 := by linarith
        exact_mod_cast this
      have hhigh' : 2 * (n * 2 ^ k) ≤ 2 * m + 1 := by
        have : (2 * (n * 2 ^ k : ℕ) : ℚ) ≤ 2 * m + 1 := by linarith
        exact_mod_cast this
      have heq : m = n * 2 ^ k := by omega
      apply hfraction
      simp [heq]

/-- The whole number that a double denotes rounds to this double. -/
theorem holds_whole {x : Float} {negative : Bool} {m : ℕ} {e : ℤ}
    (h : parts x = .finite negative m e) (hm : m ≠ 0) {n : ℤ} (hn : whole? x = some n) :
    ∃ k : ℕ, n = signed negative k ∧ (Interval.around m e).Holds k := by
  have hself := Interval.holds_self ((parts_eq_finite h).2 hm)
  simp only [whole?, h] at hn
  split at hn
  next he =>
    obtain ⟨j, rfl⟩ := Int.eq_ofNat_of_zero_le he
    refine ⟨m * 2 ^ j, (Option.some.inj hn).symm, ?_⟩
    rw [zpow_natCast] at hself
    exact_mod_cast hself
  next he =>
    split at hn
    next hdvd =>
      obtain ⟨j, rfl⟩ : ∃ j : ℕ, e = -j := ⟨(-e).toNat, by omega⟩
      rw [neg_neg, Int.toNat_natCast] at hn hdvd
      refine ⟨m / 2 ^ j, (Option.some.inj hn).symm, ?_⟩
      have hsplit : m = m / 2 ^ j * 2 ^ j :=
        (Nat.div_mul_cancel (Nat.dvd_of_mod_eq_zero (eq_of_beq hdvd))).symm
      have hvalue : (m * 2 ^ (-(j : ℤ)) : ℚ) = (m / 2 ^ j : ℕ) := by
        nth_rewrite 1 [hsplit]
        rw [zpow_neg, zpow_natCast]
        push_cast
        field_simp
      rwa [hvalue] at hself
    · cases hn

/-- The text of a double other than zero: a numeral that rounds to it. -/
theorem exists_numeral_text {x : Float} {negative : Bool} {m : ℕ} {e : ℤ}
    (h : parts x = .finite negative m e) (hm : m ≠ 0) :
    ∃ n : Numeral, (Interval.around m e).Holds n.value ∧
      (text x).toList = withSign negative n.chars := by
  obtain ⟨n, hvalue, hpositional⟩ := (shortest m e).exists_numeral
  have hzero : (m == 0) = false := beq_eq_false_iff_ne.2 hm
  refine ⟨n, hvalue ▸ shortest_holds ((parts_eq_finite h).2 hm), ?_⟩
  simp only [text, h, hzero, Bool.false_eq_true, if_false, String.toList_ofList, hpositional]
  rfl

/-- The text of a double other than zero is read as this very double. -/
theorem readDecimal?_text {x : Float} {negative : Bool} {m : ℕ} {e : ℤ}
    (h : parts x = .finite negative m e) (hm : m ≠ 0) : readDecimal? (text x).toList = some x := by
  obtain ⟨n, hholds, htext⟩ := exists_numeral_text h hm
  rw [htext, n.readDecimal?_chars, ofDecimal_of_holds ((parts_eq_finite h).2 hm) hholds,
    ofBits_bitsOf h]

/-- The text of a double that is not whole has a point in it. -/
theorem readWord?_text {x : Float} {negative : Bool} {m : ℕ} {e : ℤ}
    (h : parts x = .finite negative m e) (hm : m ≠ 0) (hwhole : whole? x = none) :
    readWord? (text x).toList = none := by
  obtain ⟨n, hholds, htext⟩ := exists_numeral_text h hm
  have hfraction : n.fraction ≠ [] := by
    intro hnil
    refine not_holds_whole h hm hwhole (ofDigits n.integral) ?_
    simpa [Numeral.value, hnil] using hholds
  rw [readWord?, htext, Numeral.readWhole?_chars hfraction, Option.bind_none]

end CardScript.Number

namespace CardScript.Numeric

open Number

/-- The text of a double other than zero is a word, or else is read as this very double. -/
theorem read?_numberText {x : Float} {negative : Bool} {m : ℕ} {e : ℤ}
    (h : parts x = .finite negative m e) (hm : m ≠ 0) :
    read? (Number.text x) =
      some (((readWord? (Number.text x).toList).map whole).getD (real x)) := by
  obtain ⟨n, -, htext⟩ := exists_numeral_text h hm
  have hchars : ∀ c ∈ (Number.text x).toList, isNumberChar c = true := by
    rw [htext]
    refine isNumberChar_withSign fun c hc => ?_
    rcases n.mem_chars hc with hdigit | rfl
    · exact isNumberChar_of_isDigit hdigit
    · rfl
  have hdigit : ∃ c ∈ (Number.text x).toList, c.isDigit = true := by
    obtain ⟨c, hc, hdigit⟩ := n.exists_digit
    rw [htext]
    exact ⟨c, mem_withSign hc, hdigit⟩
  have hfinite : isFinite x = true := by simp only [isFinite, h]
  rw [read?_of_numberChars hchars hdigit, readDecimal?_text h hm, Option.filter_some,
    if_pos hfinite]
  cases readWord? (Number.text x).toList with
  | none => rfl
  | some n => rfl

/-- Zero, of either sign, is whole. -/
theorem whole?_zero {x : Float} {negative : Bool} {e : ℤ} (h : parts x = .finite negative 0 e) :
    whole? x = some 0 := by
  simp [whole?, h]

/-- A double is written as an integer if it is whole and small, and as a decimal otherwise. -/
theorem text_real_cases (x : Float) :
    (∃ n : ℤ, whole? x = some n ∧ n.natAbs < 1000000000000000 ∧ text (real x) = toString n) ∨
      (∀ n, whole? x = some n → ¬ n.natAbs < 1000000000000000) ∧
        text (real x) = Number.text x := by
  simp only [text]
  split
  next n hn =>
    split
    next hsmall => exact .inl ⟨n, hn, hsmall, rfl⟩
    next hlarge =>
      refine .inr ⟨fun k hk => ?_, rfl⟩
      cases hn.symm.trans hk
      exact hlarge
  next hn =>
    refine .inr ⟨fun k hk => ?_, rfl⟩
    cases hn.symm.trans hk

theorem fitsWord_of_small {n : ℤ} (h : n.natAbs < 1000000000000000) : fitsWord n = true := by
  have hmin : wordMin = -9223372036854775808 := rfl
  have hmax : wordMax = 9223372036854775807 := rfl
  exact Bool.and_eq_true_iff.2 ⟨decide_eq_true (by omega), decide_eq_true (by omega)⟩

theorem parts_of_isFinite {x : Float} (h : isFinite x = true) :
    ∃ negative m e, parts x = .finite negative m e := by
  unfold isFinite at h
  split at h
  next negative m e hparts => exact ⟨negative, m, e, hparts⟩
  next => cases h

/-- What a finite double is written as is read as a word, or else as this very double. -/
theorem read?_text_real {x : Float} (hx : isFinite x = true) :
    read? (text (real x)) =
      some (((readWord? (text (real x)).toList).map whole).getD (real x)) := by
  obtain ⟨negative, m, e, hparts⟩ := parts_of_isFinite hx
  rcases text_real_cases x with ⟨n, -, hsmall, htext⟩ | ⟨hlarge, htext⟩
  · have hfits := fitsWord_of_small hsmall
    rw [htext, read?_toString hfits, readWord?, readWhole?_toString, Option.bind_some, word?,
      if_pos hfits, Option.map_some, Option.getD_some]
  · rw [htext]
    refine read?_numberText hparts fun hm => ?_
    exact absurd (hlarge 0 (whole?_zero (hm ▸ hparts))) (by decide)

/-- The words for what is no finite double are not read as numbers. -/
theorem read?_text_of_not_isFinite {x : Float} (hx : isFinite x = false) :
    read? (text (real x)) = none := by
  have hwhole : whole? x = none := by
    unfold isFinite at hx
    unfold whole?
    split
    next hparts => simp [hparts] at hx
    next => rfl
  simp only [text, hwhole, Number.text]
  split
  next => rfl
  next negative _ =>
    cases negative with
    | false => rfl
    | true => rfl
  next hparts => simp [isFinite, hparts] at hx

/-- What a double is written as denotes the same whole number as the double, or none like the
double, unless it is a long one. -/
theorem toWhole?_read?_text {x : Float}
    (hsmall : ∀ n, whole? x = some n → n.natAbs < 1000000000000000) :
    (read? (text (real x))).bind toWhole? = toWhole? (real x) := by
  rcases text_real_cases x with ⟨n, hn, hn', htext⟩ | ⟨hlarge, htext⟩
  · rw [htext, read?_toString (fitsWord_of_small hn'), toWhole?, hn, Option.bind_some,
      Option.filter_some, if_pos (decide_eq_true (by omega))]
    rfl
  · have hwhole : whole? x = none := by
      cases hn : whole? x with
      | none => rfl
      | some n => exact absurd (hsmall n hn) (hlarge n hn)
    cases hfinite : isFinite x with
    | false =>
      rw [read?_text_of_not_isFinite hfinite, toWhole?, hwhole]
      rfl
    | true =>
      obtain ⟨negative, m, e, hparts⟩ := parts_of_isFinite hfinite
      have hm : m ≠ 0 := by
        rintro rfl
        cases hwhole.symm.trans (whole?_zero hparts)
      have hword := readWord?_text hparts hm hwhole
      rw [← htext] at hword
      rw [read?_text_real hfinite, hword, Option.bind_some, Option.map_none, Option.getD_none]

/-- Zero, of either sign, is written without a sign. -/
theorem text_of_zero {x : Float} {negative : Bool} {e : ℤ} (h : parts x = .finite negative 0 e) :
    text (real x) = "0" := by
  simp only [text, whole?_zero h]
  rfl

theorem lt_of_fitsWord {negative : Bool} {k : ℕ} (h : fitsWord (signed negative k) = true) :
    k < 2 ^ 64 := by
  have hmin : wordMin = -9223372036854775808 := rfl
  have hmax : wordMax = 9223372036854775807 := rfl
  obtain ⟨hlow, hhigh⟩ := Bool.and_eq_true_iff.1 h
  have hlow := of_decide_eq_true hlow
  have hhigh := of_decide_eq_true hhigh
  cases negative with
  | false =>
    have hsigned : signed false k = k := rfl
    omega
  | true =>
    have hsigned : signed true k = -k := rfl
    omega

/-- A word that a double is written as, or is, rounds to this double. -/
theorem holds_readWord? {x : Float} {negative : Bool} {m : ℕ} {e : ℤ}
    (h : parts x = .finite negative m e) (hm : m ≠ 0) {n : ℤ}
    (hn : readWord? (text (real x)).toList = some n) :
    fitsWord n = true ∧ ∃ k : ℕ, n = signed negative k ∧ (Interval.around m e).Holds k := by
  obtain ⟨n', hread, hword⟩ := Option.bind_eq_some_iff.1 hn
  obtain ⟨hfits, rfl⟩ : fitsWord n' = true ∧ n' = n := by simpa [word?] using hword
  refine ⟨hfits, ?_⟩
  rcases text_real_cases x with ⟨k, hwhole, -, htext⟩ | ⟨-, htext⟩
  · rw [htext, readWhole?_toString] at hread
    exact holds_whole h hm (hwhole.trans hread)
  · obtain ⟨numeral, hholds, hchars⟩ := exists_numeral_text h hm
    rw [htext, hchars] at hread
    by_cases hfraction : numeral.fraction = []
    · rw [Numeral.chars_of_nil hfraction,
        readWhole?_withSign _ numeral.ne_nil numeral.integral_digits] at hread
      refine ⟨ofDigits numeral.integral, (Option.some.inj hread).symm, ?_⟩
      simpa [Numeral.value, hfraction] using hholds
    · rw [Numeral.readWhole?_chars hfraction] at hread
      cases hread

/-- What a finite double is written as denotes this very double, unless it is the negative zero. -/
theorem toFloat_read?_text {x : Float} (hx : isFinite x = true)
    (hzero : parts x ≠ .finite true 0 (-1074)) :
    (read? (text (real x))).map toFloat = some x := by
  obtain ⟨negative, m, e, hparts⟩ := parts_of_isFinite hx
  rw [read?_text_real hx, Option.map_some, Option.some.injEq]
  cases hword : readWord? (text (real x)).toList with
  | none => rfl
  | some n =>
    show Float.ofInt n = x
    rw [← ofBits_bitsOf hparts]
    by_cases hm : m = 0
    · subst hm
      obtain rfl := exponent_of_zero hparts
      have hpositive : negative = false := by
        cases negative with
        | false => rfl
        | true => exact absurd hparts hzero
      rw [text_of_zero hparts] at hword
      obtain rfl : 0 = n := Option.some.inj hword
      rw [hpositive]
      rfl
    · obtain ⟨hfits, k, rfl, hholds⟩ := holds_readWord? hparts hm hword
      exact ofInt_of_holds ((parts_eq_finite hparts).2 hm) (lt_of_fitsWord hfits) hholds negative

end CardScript.Numeric
