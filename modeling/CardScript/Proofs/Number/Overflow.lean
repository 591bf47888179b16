import CardScript.Proofs.Number.Nearest

/-!
# Words do not overflow as doubles

Sums, differences, products and quotients of words, computed as doubles, stay far below the largest
double (`isFinite_add` and so on). A word becomes zero or a double with a full significand and a
small exponent (`exists_wordSized`). What an operation on two such doubles has to round is not much
longer than both of them together, and rounding raises an exponent by little more than the number
of bits (`bounded_roundWithAccuracy`).
-/

namespace CardScript.Number

open Float.Model UnpackedFloat

/-! ## Finite doubles -/

/-- A number that is packed into a finite double. -/
def Bounded : UnpackedFloat → Prop
  | .zero _ => True
  | .finite _ _ e _ => e ≤ 971
  | _ => False

theorem isFinite_of_biased {x : Float} (h : x.toBits.toNat / twoTo 52 % twoTo 11 ≠ 2047) :
    isFinite x = true := by
  have hbiased : (x.toBits.toNat / twoTo 52 % twoTo 11 == 2047) = false :=
    beq_eq_false_iff_ne.2 h
  simp only [isFinite, parts, hbiased, Bool.false_eq_true, if_false]
  cases x.toBits.toNat / twoTo 52 % twoTo 11 == 0 with
  | false => rfl
  | true => rfl

theorem isFinite_packComponents {x : Float} (s : Sign) {exponent : BitVec 11}
    (mantissa : BitVec 52) (hexponent : exponent.toNat < 2047)
    (hx : x.toBits.toNat = (packComponents .binary64 s exponent mantissa).toNat) :
    isFinite x = true := by
  have h63 : twoTo 63 = 9223372036854775808 := rfl
  have h52 : twoTo 52 = 4503599627370496 := rfl
  have h11 : twoTo 11 = 2048 := rfl
  have hmantissa : mantissa.toNat < 2 ^ 52 := mantissa.isLt
  obtain ⟨negative, rfl⟩ : ∃ negative, s = signOf negative := by
    cases s with
    | positive => exact ⟨false, rfl⟩
    | negative => exact ⟨true, rfl⟩
  apply isFinite_of_biased
  rw [hx, toNat_packComponents, h63, h52, h11]
  cases negative with
  | false =>
    rw [if_neg Bool.false_ne_true]
    omega
  | true =>
    rw [if_pos rfl]
    omega

theorem isFinite_pack {u : UnpackedFloat} (h : Bounded u) :
    isFinite (Float.ofModel (Float.Model.pack u)) = true := by
  cases u with
  | notANumber => exact h.elim
  | infinity s => exact h.elim
  | zero s => exact isFinite_packComponents s 0#52 (by decide) rfl
  | finite s m e hpos =>
    have he : e ≤ 971 := h
    refine isFinite_packComponents s (BitVec.ofNat 52 m) ?_
      (congrArg BitVec.toNat (pack_finite s hpos he))
    split
    · rw [BitVec.toNat_ofNat]
      omega
    · decide

/-! ## Rounding -/

theorem mantissa_shiftRight_le (em : ExtendedMantissa) (k : ℕ) :
    (em >>> k).mantissa ≤ em.mantissa := by
  show (k.repeat ExtendedMantissa.shiftRightOne em).mantissa ≤ em.mantissa
  induction k with
  | zero => exact le_refl _
  | succ k ih => exact (Nat.div_le_self _ 2).trans ih

theorem roundedMantissa_le (em : ExtendedMantissa) : em.roundedMantissa ≤ em.mantissa + 1 := by
  unfold ExtendedMantissa.roundedMantissa
  cases em.accuracy with
  | exact => exact Nat.le_succ _
  | inexact side =>
    cases side with
    | lt => exact Nat.le_succ _
    | eq =>
      show em.mantissa + em.mantissa % 2 ≤ em.mantissa + 1
      omega
    | gt => exact le_refl _

theorem mantissa_ofMantissaAndAccuracy (m : ℕ) (accuracy : Accuracy) :
    (ExtendedMantissa.ofMantissaAndAccuracy m accuracy).mantissa = m := by
  unfold ExtendedMantissa.ofMantissaAndAccuracy
  split <;> rfl

theorem log2_le_of_lt {m k : ℕ} (h : m < 2 ^ k) : m.log2 ≤ k := by
  rcases Nat.eq_zero_or_pos m with rfl | hpos
  · exact Nat.zero_le k
  · exact ((Nat.log2_lt hpos.ne').2 h).le

/-- Shifting to the exponent of a double does not lengthen a significand, and raises the exponent by
no more than its length. -/
theorem shiftToTargetExponent_le {m k : ℕ} {e : ℤ} (hm : m < 2 ^ k) (he : -1074 ≤ e)
    (accuracy : Accuracy) :
    (shiftToTargetExponent .binary64 m e accuracy).1.mantissa ≤ m ∧
      (shiftToTargetExponent .binary64 m e accuracy).2 ≤ e + k := by
  have hbits : ((Format.binary64.mantissaBits : ℕ) : ℤ) = 53 := rfl
  have hmin : Format.binary64.minExponent = -1074 := rfl
  have hlog := log2_le_of_lt hm
  constructor
  · exact (mantissa_shiftRight_le _ _).trans (mantissa_ofMantissaAndAccuracy m accuracy).le
  · simp only [shiftToTargetExponent, shiftToExponent, Format.targetExponent, totalExponent, hbits,
      hmin]
    omega

theorem le_shiftToTargetExponent (m : ℕ) (e : ℤ) (accuracy : Accuracy) :
    e ≤ (shiftToTargetExponent .binary64 m e accuracy).2 := by
  simp only [shiftToTargetExponent, shiftToExponent]
  omega

/-- Rounding carries at most one bit. -/
theorem bounded_roundWithAccuracy {m k : ℕ} {e : ℤ} (hm : m < 2 ^ k) (he : -1074 ≤ e)
    (hbound : e + 2 * k + 1 ≤ 971) (s : Sign) (accuracy : Accuracy) :
    Bounded (roundWithAccuracy .binary64 s m e accuracy) := by
  obtain ⟨hmantissa, hexponent⟩ := shiftToTargetExponent_le hm he accuracy
  have hleast := le_shiftToTargetExponent m e accuracy
  rw [roundWithAccuracy]
  generalize shiftToTargetExponent .binary64 m e accuracy = first at *
  obtain ⟨em, e'⟩ := first
  have hrounded : em.roundedMantissa < 2 ^ (k + 1) := by
    have := roundedMantissa_le em
    rw [pow_succ]
    dsimp only at hmantissa
    omega
  have hthen := (shiftToTargetExponent_le hrounded (he.trans hleast) .exact).2
  dsimp only at hexponent hthen ⊢
  generalize shiftToTargetExponent .binary64 em.roundedMantissa e' .exact = second at hthen ⊢
  by_cases hzero : second.1.mantissa = 0
  · rw [dif_pos hzero]
    exact trivial
  · rw [dif_neg hzero]
    show second.2 ≤ 971
    push_cast at hthen
    omega

theorem bounded_round {m k : ℕ} {e : ℤ} (hm : m < 2 ^ k) (he : -1000 ≤ e)
    (hbound : e + 2 * k + 105 ≤ 971) (s : Sign) :
    Bounded (UnpackedFloat.round .binary64 s m e) := by
  have hbits : ((Format.binary64.mantissaBits : ℕ) : ℤ) = 53 := rfl
  have hmin : Format.binary64.minExponent = -1074 := rfl
  simp only [UnpackedFloat.round, Format.targetExponent, totalExponent, decreaseExponent, hbits,
    hmin]
  generalize hshift : (e - max ((m.log2 : ℤ) + 1 + e - 53) (-1074)).toNat = shift
  have hle : shift ≤ 52 := by omega
  refine bounded_roundWithAccuracy (k := k + 52) ?_ (by omega) (by push_cast; omega) s .exact
  rw [Nat.shiftLeft_eq, pow_add]
  exact Nat.mul_lt_mul_of_lt_of_le hm (Nat.pow_le_pow_right two_pos hle) (Nat.pow_pos two_pos)

theorem bounded_normalize {n : ℤ} {k : ℕ} {e : ℤ} (hn : n.natAbs < 2 ^ k) (he : -1000 ≤ e)
    (hbound : e + 2 * k + 105 ≤ 971) (s : Sign) :
    Bounded (UnpackedFloat.normalize .binary64 n e s) := by
  unfold UnpackedFloat.normalize
  split
  next => exact bounded_round (lt_of_le_of_lt (by omega) hn) he hbound _
  next => exact trivial
  next => exact bounded_round (lt_of_le_of_lt (by omega) hn) he hbound _

/-! ## Words -/

/-- Zero, or a full significand at an exponent that makes it about as large as a word. -/
def WordSized : UnpackedFloat → Prop
  | .zero _ => True
  | .finite _ m e _ => 2 ^ 52 ≤ m ∧ m < 2 ^ 53 ∧ -52 ≤ e ∧ e ≤ 12
  | _ => False

theorem WordSized.bounded {u : UnpackedFloat} (h : WordSized u) : Bounded u := by
  cases u with
  | notANumber => exact h
  | infinity s => exact h
  | zero s => exact trivial
  | finite s m e hpos => exact h.2.2.2.trans (by decide)

theorem unpack_pack_wordSized {u : UnpackedFloat} (h : WordSized u) :
    unpack .binary64 (pack .binary64 u) = u := by
  cases u with
  | notANumber => exact h.elim
  | infinity s => exact h.elim
  | zero s =>
    cases s with
    | positive => rfl
    | negative => rfl
  | finite s m e hpos =>
    obtain ⟨hlow, hhigh, hleast, hmost⟩ := h
    exact unpack_pack ⟨hpos, hhigh, by omega, by omega, by omega⟩ s

/-- The exponent of a positive word as a double. -/
theorem exponentFor_word {n : ℕ} (hpos : 0 < n) (hn : n < 2 ^ 64) :
    -52 ≤ exponentFor n 1 ∧ exponentFor n 1 ≤ 11 := by
  obtain ⟨l, hl, hlow, hhigh⟩ := exponentFor_spec hpos one_pos
  rw [Nat.cast_one, div_one] at hlow hhigh
  have hone : (2 : ℚ) ^ (0 : ℤ) ≤ n := by exact_mod_cast hpos
  have hlt : (n : ℚ) < 2 ^ (64 : ℤ) := by exact_mod_cast hn
  have hleast := zpow_two_lt.1 (hone.trans_lt hhigh)
  have hmost := zpow_two_lt.1 (hlow.trans_lt hlt)
  omega

/-- A positive word has a full significand. -/
theorem ofRatio_wordSized {n : ℕ} (hpos : 0 < n) (hn : n < 2 ^ 64) :
    ∃ m e, (2 ^ 52 ≤ m ∧ m < 2 ^ 53 ∧ -52 ≤ e ∧ e ≤ 12) ∧
      ∀ negative, ofRatio negative n 1 = Float.ofBits (UInt64.ofNat (bitsOf negative m e)) := by
  have hrounds := rounds_significandOf hpos one_pos
  obtain ⟨hleast, hmost⟩ := exponentFor_word hpos hn
  have hlow := hrounds.two_pow_le.resolve_right (by omega)
  have hhigh := hrounds.le_two_pow
  have htwo : twoTo 52 = 4503599627370496 := rfl
  have hbits (negative : Bool) : ofRatio negative n 1 =
      Float.ofBits (UInt64.ofNat (bitsOf negative (significandOf n 1) (exponentFor n 1))) := by
    rw [ofRatio_eq_significandOf hpos, Nat.min_eq_left (by rw [htwo]; omega)]
    rfl
  rcases hhigh.lt_or_eq with hlt | heq
  · exact ⟨_, _, ⟨hlow, hlt, hleast, by omega⟩, hbits⟩
  · refine ⟨2 ^ 52, exponentFor n 1 + 1, ⟨le_refl _, by decide, by omega, by omega⟩, ?_⟩
    intro negative
    rw [hbits, heq, bitsOf_carry negative (by omega)]

/-- A word becomes the nearest double, with its sign. -/
theorem ofInt_eq_ofRatio {n : ℤ} (hn : fitsWord n = true) :
    Float.ofInt n = ofRatio (decide (n < 0)) n.natAbs 1 := by
  by_cases hzero : n = 0
  · rw [hzero]
    rfl
  · have hpos : 0 < n.natAbs := Int.natAbs_pos.2 hzero
    have hlt : n.natAbs < 2 ^ 64 := by
      have := fitsWord_iff.1 hn
      omega
    obtain ⟨m, e, hsized, hbits⟩ := ofRatio_wordSized hpos hlt
    have hregular : Regular m e := ⟨by omega, hsized.2.1, by omega, by omega, by omega⟩
    conv_lhs => rw [← signed_natAbs n]
    rw [ofInt_signed hpos, ofNat_eq_ofRatio hpos hlt, hbits, hbits]
    cases decide (n < 0) with
    | false => rfl
    | true => exact neg_pack hregular

/-- A word as a double, and which word is zero. -/
theorem exists_wordSized {n : ℤ} (hn : fitsWord n = true) :
    ∃ u, WordSized u ∧ Float.ofInt n = Float.ofModel (Float.Model.pack u) ∧
      ((∃ s, u = .zero s) ↔ n = 0) := by
  by_cases hzero : n = 0
  · exact ⟨.zero .positive, trivial, by rw [hzero]; rfl, fun _ => hzero, fun _ => ⟨_, rfl⟩⟩
  · have hpos : 0 < n.natAbs := Int.natAbs_pos.2 hzero
    have hlt : n.natAbs < 2 ^ 64 := by
      have := fitsWord_iff.1 hn
      omega
    obtain ⟨m, e, hsized, hbits⟩ := ofRatio_wordSized hpos hlt
    have hregular : Regular m e := ⟨by omega, hsized.2.1, by omega, by omega, by omega⟩
    refine ⟨.finite (signOf (decide (n < 0))) m e hregular.pos, hsized, ?_, ?_⟩
    · rw [ofInt_eq_ofRatio hn, hbits, ofBits_eq_pack hregular]
    · exact ⟨fun ⟨s, hs⟩ => (nomatch hs), fun h => absurd h hzero⟩

/-! ## Arithmetic -/

theorem WordSized.cases {u : UnpackedFloat} (h : WordSized u) :
    (∃ s, u = .zero s) ∨ ∃ s m e hpos, u = .finite s m e hpos ∧
      2 ^ 52 ≤ m ∧ m < 2 ^ 53 ∧ -52 ≤ e ∧ e ≤ 12 := by
  cases u with
  | notANumber => exact h.elim
  | infinity s => exact h.elim
  | zero s => exact .inl ⟨s, rfl⟩
  | finite s m e hpos => exact .inr ⟨s, m, e, hpos, rfl, h⟩

theorem shiftLeft_lt {m j k : ℕ} (hm : m < 2 ^ 53) (hj : j ≤ k) : m <<< j < 2 ^ (53 + k) := by
  rw [Nat.shiftLeft_eq, pow_add]
  exact Nat.mul_lt_mul_of_lt_of_le hm (Nat.pow_le_pow_right two_pos hj) (Nat.pow_pos two_pos)

/-- What two significands add up to once they have been shifted to the smaller exponent. -/
theorem bounded_aligned {m n : ℕ} {e f k : ℤ} (hm : m < 2 ^ 53) (he : -52 ≤ e ∧ e ≤ 12)
    (hn : n < 2 ^ 53) (hf : -52 ≤ f ∧ f ≤ 12)
    (hk : k.natAbs ≤ m <<< (e - min e f).toNat + n <<< (f - min e f).toNat) :
    Bounded (UnpackedFloat.normalize .binary64 k (min e f) .positive) := by
  have hleft := shiftLeft_lt hm (by omega : (e - min e f).toNat ≤ 64)
  have hright := shiftLeft_lt hn (by omega : (f - min e f).toNat ≤ 64)
  refine bounded_normalize (k := 118) ?_ (by omega) (by omega) .positive
  omega

theorem natAbs_apply (s : Sign) (m : ℕ) : (s.apply (m : ℤ)).natAbs = m := by
  cases s with
  | positive => rfl
  | negative => exact Int.natAbs_neg m

section Operations

variable {u v : UnpackedFloat} (hu : WordSized u) (hv : WordSized v)
include hu hv

theorem bounded_add : Bounded (UnpackedFloat.add .binary64 u v) := by
  obtain ⟨s, rfl⟩ | ⟨s, m, e, hm, rfl, -, hm', hleast, hmost⟩ := hu.cases
  · obtain ⟨t, rfl⟩ | ⟨t, n, f, hn, rfl, -⟩ := hv.cases
    · cases s with
      | positive | negative =>
        cases t with
        | positive | negative => exact trivial
    · exact hv.bounded
  · obtain ⟨t, rfl⟩ | ⟨t, n, f, hn, rfl, -, hn', hleast', hmost'⟩ := hv.cases
    · exact hu.bounded
    · refine bounded_aligned hm' ⟨hleast, hmost⟩ hn' ⟨hleast', hmost'⟩ ?_
      refine (Int.natAbs_add_le _ _).trans ?_
      rw [natAbs_apply, natAbs_apply]

theorem bounded_sub : Bounded (UnpackedFloat.sub .binary64 u v) := by
  obtain ⟨s, rfl⟩ | ⟨s, m, e, hm, rfl, -, hm', hleast, hmost⟩ := hu.cases
  · obtain ⟨t, rfl⟩ | ⟨t, n, f, hn, rfl, -⟩ := hv.cases
    · cases s with
      | positive | negative =>
        cases t with
        | positive | negative => exact trivial
    · exact hv.bounded
  · obtain ⟨t, rfl⟩ | ⟨t, n, f, hn, rfl, -, hn', hleast', hmost'⟩ := hv.cases
    · exact hu.bounded
    · refine bounded_aligned hm' ⟨hleast, hmost⟩ hn' ⟨hleast', hmost'⟩ ?_
      refine (Int.natAbs_sub_le _ _).trans ?_
      rw [natAbs_apply, natAbs_apply]

theorem bounded_mul : Bounded (UnpackedFloat.mul .binary64 u v) := by
  obtain ⟨s, rfl⟩ | ⟨s, m, e, hm, rfl, -, hm', hleast, hmost⟩ := hu.cases
  · obtain ⟨t, rfl⟩ | ⟨t, n, f, hn, rfl, -⟩ := hv.cases
    · exact trivial
    · exact trivial
  · obtain ⟨t, rfl⟩ | ⟨t, n, f, hn, rfl, -, hn', hleast', hmost'⟩ := hv.cases
    · exact trivial
    · refine bounded_roundWithAccuracy (k := 53 + 53) ?_ (by omega) (by omega) _ _
      rw [pow_add]
      exact Nat.mul_lt_mul_of_lt_of_lt hm' hn'

/-- A quotient is computed to more bits than are kept, but not to many more. -/
theorem bounded_div (hzero : ¬ ∃ s, v = .zero s) : Bounded (UnpackedFloat.div .binary64 u v) := by
  have hbits : ((Format.binary64.mantissaBits : ℕ) : ℤ) = 53 := rfl
  have hmin : Format.binary64.minExponent = -1074 := rfl
  obtain hv | ⟨t, n, f, hn, rfl, hlow', hn', hleast', hmost'⟩ := hv.cases
  · exact absurd hv hzero
  obtain ⟨s, rfl⟩ | ⟨s, m, e, hm, rfl, hlow, hm', hleast, hmost⟩ := hu.cases
  · exact trivial
  · have hlog : m.log2 = 52 := (Nat.log2_eq_iff hm.ne').2 ⟨hlow, hm'⟩
    have hlog' : n.log2 = 52 := (Nat.log2_eq_iff hn.ne').2 ⟨hlow', hn'⟩
    obtain ⟨target, htarget⟩ : ∃ target, target = min (e - f)
        (Format.binary64.targetExponent (totalExponent m e - totalExponent n f)) := ⟨_, rfl⟩
    have hdiv : UnpackedFloat.div .binary64 (.finite s m e hm) (.finite t n f hn) =
        roundWithAccuracy .binary64 (s / t) (m <<< (e - f - target).toNat / n) target
          (accuracyOfFraction (m <<< (e - f - target).toNat % n) n) := by
      rw [htarget]
      rfl
    simp only [Format.targetExponent, totalExponent, hbits, hmin, hlog, hlog'] at htarget
    rw [hdiv]
    refine bounded_roundWithAccuracy (k := 53 + 53) ?_ (by omega) (by omega) _ _
    refine lt_of_le_of_lt (Nat.div_le_self _ n) (shiftLeft_lt hm' (by omega))

end Operations

/-- A double as small as a word does not count as zero unless it is. -/
theorem beq_zero_iff {n : ℤ} (hn : fitsWord n = true) :
    (Float.ofInt n == 0) = true ↔ n = 0 := by
  obtain ⟨u, hu, hfloat, hzero⟩ := exists_wordSized hn
  have hbeq : (Float.ofInt n == 0) = UnpackedFloat.beq u (.zero .positive) := by
    rw [hfloat]
    show UnpackedFloat.beq (unpack .binary64 (pack .binary64 u)) _ = _
    rw [unpack_pack_wordSized hu]
    rfl
  rw [hbeq, ← hzero]
  obtain ⟨s, rfl⟩ | ⟨s, m, e, hm, rfl, -⟩ := hu.cases
  · exact ⟨fun _ => ⟨s, rfl⟩, fun _ => rfl⟩
  · refine ⟨fun h => ?_, fun ⟨t, ht⟩ => (nomatch ht)⟩
    cases s with
    | positive => exact absurd h Bool.false_ne_true
    | negative => exact absurd h Bool.false_ne_true

section Words

variable {a b : ℤ} (ha : fitsWord a = true) (hb : fitsWord b = true)
include ha hb

/-- Operations on doubles unpack them, compute and pack the result again. -/
theorem isFinite_operation {operation : Float → Float → Float}
    {unpacked : UnpackedFloat → UnpackedFloat → UnpackedFloat}
    (hoperation : ∀ u v, operation (.ofModel (Float.Model.pack u)) (.ofModel (Float.Model.pack v)) =
      .ofModel (Float.Model.pack (unpacked (unpack .binary64 (pack .binary64 u))
        (unpack .binary64 (pack .binary64 v)))))
    (hbounded : ∀ {u v}, WordSized u → WordSized v → ((∃ s, v = .zero s) ↔ b = 0) →
      Bounded (unpacked u v)) :
    isFinite (operation (Float.ofInt a) (Float.ofInt b)) = true := by
  obtain ⟨u, hu, hfloat, -⟩ := exists_wordSized ha
  obtain ⟨v, hv, hfloat', hzero⟩ := exists_wordSized hb
  rw [hfloat, hfloat', hoperation, unpack_pack_wordSized hu, unpack_pack_wordSized hv]
  exact isFinite_pack (hbounded hu hv hzero)

theorem isFinite_add : isFinite (Float.ofInt a + Float.ofInt b) = true :=
  isFinite_operation ha hb (fun _ _ => rfl) fun hu hv _ => bounded_add hu hv

theorem isFinite_sub : isFinite (Float.ofInt a - Float.ofInt b) = true :=
  isFinite_operation ha hb (fun _ _ => rfl) fun hu hv _ => bounded_sub hu hv

theorem isFinite_mul : isFinite (Float.ofInt a * Float.ofInt b) = true :=
  isFinite_operation ha hb (fun _ _ => rfl) fun hu hv _ => bounded_mul hu hv

theorem isFinite_div (hzero : b ≠ 0) : isFinite (Float.ofInt a / Float.ofInt b) = true :=
  isFinite_operation ha hb (fun _ _ => rfl) fun hu hv hiff =>
    bounded_div hu hv fun h => hzero (hiff.1 h)

end Words

end CardScript.Number
