import CardScript.Number.Binary64
import Mathlib.Algebra.Group.Nat.Defs

/-!
# Doubles and their bits

A double is given back by its bits (`ofBits_toBits`), and a finite one by its sign, significand and
exponent as `parts` tells them (`ofBits_bitsOf`). Arithmetic packs and unpacks the same three
(`ofBits_eq_pack`, `unpack_pack`).
-/

namespace CardScript.Number

open Float.Model

/-! ## All bits -/

theorem toBitVec_ofBitVec (v : BitVec 1) : (UnpackedFloat.Sign.ofBitVec v).toBitVec = v := by
  obtain rfl | rfl : v = 0#1 ∨ v = 1#1 := by
    have := v.isLt
    simp only [BitVec.toNat_eq]
    simp
    omega
  · rfl
  · rfl

/-- Sixty-four bits are put together from sign, exponent and mantissa. -/
theorem packComponents_unpacked {b : BitVec Format.binary64.numBits}
    {exponent : BitVec Format.binary64.exponentBits}
    {mantissa : BitVec Format.binary64.mantissaBitsWithoutImplicit}
    (hexponent : UnpackedFloat.unpackExponent b = exponent)
    (hmantissa : UnpackedFloat.unpackMantissa b = mantissa) :
    UnpackedFloat.packComponents .binary64
      (UnpackedFloat.Sign.ofBitVec (UnpackedFloat.unpackSign b)) exponent mantissa = b := by
  subst hexponent hmantissa
  have hfront : b.extractLsb' 63 1 ++ b.extractLsb' 52 11 = b.extractLsb' 52 12 :=
    BitVec.extractLsb'_append_extractLsb'_eq_extractLsb' rfl
  have hwhole : b.extractLsb' 52 12 ++ b.extractLsb' 0 52 = b.extractLsb' 0 64 :=
    BitVec.extractLsb'_append_extractLsb'_eq_extractLsb' rfl
  show (UnpackedFloat.Sign.ofBitVec (b.extractLsb' 63 1)).toBitVec ++ b.extractLsb' 52 11 ++
    b.extractLsb' 0 52 = b
  rw [toBitVec_ofBitVec, hfront, hwhole]
  exact BitVec.extractLsb'_eq_self

/-- Where the bits of a finite double come from. -/
theorem pack_finite (sign : UnpackedFloat.Sign) {m : Nat} {e : Int} (hpos : 0 < m)
    (he : e ≤ 971) :
    UnpackedFloat.pack .binary64 (.finite sign m e hpos) =
      UnpackedFloat.packComponents .binary64 sign
        (if m.log2 = 52 then BitVec.ofNat 11 (e + 1075).toNat else 0#11) (BitVec.ofNat 52 m) := by
  have hexponent : e + 1023 + 52 = e + 1075 := by omega
  have hfinite : ¬ 2 ^ 11 ≤ (e + 1075).toNat + 1 := by omega
  show (if 2 ^ 11 ≤ (e + 1023 + 52).toNat + 1 then UnpackedFloat.packedInfinity .binary64 sign
    else if m.log2 + 1 = 53 then
      UnpackedFloat.packComponents .binary64 sign (BitVec.ofNat 11 (e + 1023 + 52).toNat)
        (BitVec.ofNat 52 m)
    else UnpackedFloat.packComponents .binary64 sign 0#11 (BitVec.ofNat 52 m)) = _
  rw [hexponent, if_neg hfinite]
  by_cases hlog : m.log2 = 52
  · rw [if_pos hlog, if_pos (congrArg (· + 1) hlog)]
  · rw [if_neg hlog, if_neg fun h => hlog (Nat.succ.inj h)]

theorem finite_congr {s s' : UnpackedFloat.Sign} {m m' : Nat} {e e' : Int} (hs : s = s')
    (hm : m = m') (he : e = e') (hpos : 0 < m) :
    UnpackedFloat.finite s m e hpos = .finite s' m' e' (hm ▸ hpos) := by
  subst hs hm he
  rfl

/-- The significand of a normal double has one bit more than are stored. -/
theorem unpack_normal {b : BitVec Format.binary64.numBits}
    (hones : UnpackedFloat.unpackExponent b ≠ -1#11)
    (hzero : UnpackedFloat.unpackExponent b ≠ 0#11) :
    UnpackedFloat.unpack .binary64 b =
      .finite (UnpackedFloat.Sign.ofBitVec (UnpackedFloat.unpackSign b))
        (2 ^ 52 + (UnpackedFloat.unpackMantissa b).toNat)
        ((UnpackedFloat.unpackExponent b).toNat - 1075) (Nat.add_pos_left (by decide) _) := by
  have hvalue : (1#1 ++ UnpackedFloat.unpackMantissa b).toNat =
      2 ^ 52 + (UnpackedFloat.unpackMantissa b).toNat := by
    rw [BitVec.toNat_append, ← Nat.shiftLeft_add_eq_or_of_lt (UnpackedFloat.unpackMantissa b).isLt,
      Nat.shiftLeft_eq]
    rfl
  exact (if_neg hones).trans ((if_neg hzero).trans (finite_congr rfl hvalue rfl _))

theorem unpack_subnormal {b : BitVec Format.binary64.numBits}
    (hzero : UnpackedFloat.unpackExponent b = 0#11)
    (hpos : 0 < (UnpackedFloat.unpackMantissa b).toNat) :
    UnpackedFloat.unpack .binary64 b =
      .finite (UnpackedFloat.Sign.ofBitVec (UnpackedFloat.unpackSign b))
        (UnpackedFloat.unpackMantissa b).toNat (-1074) hpos := by
  have hones : UnpackedFloat.unpackExponent b ≠ -1#11 := by
    rw [hzero]
    decide
  have hmantissa : UnpackedFloat.unpackMantissa b ≠ 0#52 := fun h => by
    rw [h] at hpos
    exact Nat.lt_irrefl 0 hpos
  have he : ((UnpackedFloat.unpackExponent b).toNat : Int) -
      ((Format.binary64.exponentBias : Nat) +
        (Format.binary64.mantissaBitsWithoutImplicit : Nat)) + 1 = -1074 := by
    rw [hzero]
    rfl
  exact (if_neg hones).trans ((if_pos hzero).trans
    ((dif_neg hmantissa).trans (finite_congr rfl rfl he _)))

theorem pack_unpack {b : BitVec Format.binary64.numBits} (hb : Format.binary64.Valid b) :
    UnpackedFloat.pack .binary64 (UnpackedFloat.unpack .binary64 b) = b := by
  have hmantissa : (UnpackedFloat.unpackMantissa b).toNat < 2 ^ 52 :=
    (UnpackedFloat.unpackMantissa b).isLt
  have hexponent : (UnpackedFloat.unpackExponent b).toNat < 2 ^ 11 :=
    (UnpackedFloat.unpackExponent b).isLt
  have hstored {n : Nat} (v : BitVec n) : v = BitVec.ofNat n v.toNat := by
    rw [BitVec.ofNat_toNat, BitVec.setWidth_eq]
  by_cases hones : UnpackedFloat.unpackExponent b = -1#11
  · have hunpack : UnpackedFloat.unpack .binary64 b =
        if UnpackedFloat.unpackMantissa b = 0#52 then
          .infinity (UnpackedFloat.Sign.ofBitVec (UnpackedFloat.unpackSign b))
        else .notANumber := if_pos hones
    rw [hunpack]
    by_cases hzero : UnpackedFloat.unpackMantissa b = 0#52
    · rw [if_pos hzero]
      exact packComponents_unpacked hones hzero
    · rw [if_neg hzero]
      exact (hb.eq_packedNaN hones hzero).symm
  by_cases hleast : UnpackedFloat.unpackExponent b = 0#11
  · by_cases hzero : UnpackedFloat.unpackMantissa b = 0#52
    · have hunpack : UnpackedFloat.unpack .binary64 b =
          .zero (UnpackedFloat.Sign.ofBitVec (UnpackedFloat.unpackSign b)) :=
        (if_neg hones).trans ((if_pos hleast).trans (dif_pos hzero))
      rw [hunpack]
      exact packComponents_unpacked hleast hzero
    · have hne : (UnpackedFloat.unpackMantissa b).toNat ≠ 0 :=
        fun h => hzero (BitVec.eq_of_toNat_eq h)
      have hlog : (UnpackedFloat.unpackMantissa b).toNat.log2 ≠ 52 := by
        rw [Ne, Nat.log2_eq_iff hne]
        omega
      rw [unpack_subnormal hleast (Nat.pos_of_ne_zero hne), pack_finite _ _ (by decide),
        if_neg hlog]
      exact packComponents_unpacked hleast (hstored _)
  · have hlog : (2 ^ 52 + (UnpackedFloat.unpackMantissa b).toNat).log2 = 52 := by
      rw [Nat.log2_eq_iff (by omega)]
      omega
    have hlt : (UnpackedFloat.unpackExponent b).toNat ≠ 2047 :=
      fun h => hones (BitVec.eq_of_toNat_eq h)
    rw [unpack_normal hones hleast, pack_finite _ _ (by omega), if_pos hlog, Int.sub_add_cancel,
      Int.toNat_natCast]
    refine packComponents_unpacked (hstored _) (BitVec.eq_of_toNat_eq ?_)
    rw [BitVec.toNat_ofNat]
    show _ = _ % 2 ^ 52
    omega

theorem ofBits_toBits (x : Float) : Float.ofBits x.toBits = x := by
  obtain ⟨⟨bits, hvalid⟩⟩ := x
  have hbits : UInt64.ofBitVec
      (UnpackedFloat.pack .binary64 (UnpackedFloat.unpack .binary64 bits.toBitVec)) = bits :=
    congrArg UInt64.ofBitVec (pack_unpack hvalid)
  exact congrArg Float.ofModel ((Float.Model.mk.injEq ..).mpr hbits)

/-! ## Finite doubles -/

/-- A double that is neither zero nor infinite, as a significand and an exponent. -/
structure Regular (m : Nat) (e : Int) : Prop where
  pos : 0 < m
  lt : m < 2 ^ 53
  least : -1074 ≤ e
  most : e ≤ 971
  normal : m < 2 ^ 52 → e = -1074

/-- The bits of a double. The significand of a normal one carries over into the exponent. -/
def bitsOf (negative : Bool) (m : Nat) (e : Int) : Nat :=
  (if negative then twoTo 63 else 0) + ((e + 1074).toNat * twoTo 52 + m)

/-- What it takes for a double to be finite. -/
theorem parts_eq_finite {x : Float} {negative : Bool} {m : Nat} {e : Int}
    (h : parts x = .finite negative m e) :
    x.toBits.toNat = bitsOf negative m e ∧ (m ≠ 0 → Regular m e) := by
  have hbits : x.toBits.toNat < 2 ^ 64 := x.toBits.toNat_lt
  have h63 : twoTo 63 = 9223372036854775808 := rfl
  have h52 : twoTo 52 = 4503599627370496 := rfl
  have h11 : twoTo 11 = 2048 := rfl
  simp only [parts, bitsOf, h63, h52, h11] at h ⊢
  generalize x.toBits.toNat = bits at h hbits ⊢
  have hsign : (if bits / 9223372036854775808 == 1 then 9223372036854775808 else 0) =
      bits / 9223372036854775808 * 9223372036854775808 := by
    split
    next h => rw [eq_of_beq h, Nat.one_mul]
    next h =>
      have : bits / 9223372036854775808 ≠ 1 := fun heq => h (beq_iff_eq.2 heq)
      omega
  split at h
  · split at h <;> cases h
  next hfinite =>
    have hfinite : bits / 4503599627370496 % 2048 ≠ 2047 := fun heq => hfinite (beq_iff_eq.2 heq)
    split at h
    next hleast =>
      have hleast := eq_of_beq hleast
      cases h
      rw [hsign]
      refine ⟨by omega, fun hne => ⟨by omega, by omega, by omega, by omega, fun _ => rfl⟩⟩
    next hleast =>
      have hleast : bits / 4503599627370496 % 2048 ≠ 0 := fun heq => hleast (beq_iff_eq.2 heq)
      cases h
      rw [hsign]
      refine ⟨by omega, fun hne => ⟨by omega, by omega, by omega, by omega, fun h => by omega⟩⟩

theorem ofBits_bitsOf {x : Float} {negative : Bool} {m : Nat} {e : Int}
    (h : parts x = .finite negative m e) :
    Float.ofBits (UInt64.ofNat (bitsOf negative m e)) = x := by
  rw [← (parts_eq_finite h).1, UInt64.ofNat_toNat, ofBits_toBits]

/-- A zero has the least exponent. -/
theorem exponent_of_zero {x : Float} {negative : Bool} {e : Int}
    (h : parts x = .finite negative 0 e) : e = -1074 := by
  have h52 : twoTo 52 = 4503599627370496 := rfl
  simp only [parts, h52] at h
  split at h
  · split at h <;> cases h
  · split at h
    · injection h with _ _ he
      exact he.symm
    · injection h with _ hm _
      omega

/-- Rounding a significand may carry it over to the next power of two. -/
theorem bitsOf_carry (negative : Bool) {e : Int} (he : -1074 ≤ e) :
    bitsOf negative (2 ^ 53) e = bitsOf negative (2 ^ 52) (e + 1) := by
  have hcarry : (e + 1 + 1074).toNat = (e + 1074).toNat + 1 := by omega
  have hdouble : 2 ^ 53 = twoTo 52 + 2 ^ 52 := by decide
  unfold bitsOf
  rw [hcarry, hdouble, Nat.add_mul, Nat.one_mul, Nat.add_assoc]

/-! ## Packed doubles -/

def signOf (negative : Bool) : UnpackedFloat.Sign :=
  if negative then .negative else .positive

theorem toNat_packComponents (negative : Bool) (exponent : BitVec 11) (mantissa : BitVec 52) :
    (UnpackedFloat.packComponents .binary64 (signOf negative) exponent mantissa).toNat =
      (if negative then twoTo 63 else 0) + (exponent.toNat * twoTo 52 + mantissa.toNat) := by
  show ((signOf negative).toBitVec ++ exponent ++ mantissa).toNat = _
  rw [BitVec.toNat_append, BitVec.toNat_append, ← Nat.shiftLeft_add_eq_or_of_lt exponent.isLt,
    ← Nat.shiftLeft_add_eq_or_of_lt mantissa.isLt, Nat.shiftLeft_eq, Nat.shiftLeft_eq]
  have h63 : twoTo 63 = 9223372036854775808 := rfl
  have h52 : twoTo 52 = 4503599627370496 := rfl
  rw [h63, h52]
  cases negative with
  | false =>
    show (0 * 2 ^ 11 + exponent.toNat) * 2 ^ 52 + mantissa.toNat = _
    rw [if_neg Bool.false_ne_true]
    omega
  | true =>
    show (1 * 2 ^ 11 + exponent.toNat) * 2 ^ 52 + mantissa.toNat = _
    rw [if_pos rfl]
    omega

theorem unpackSign_packComponents (s : UnpackedFloat.Sign) (exponent : BitVec 11)
    (mantissa : BitVec 52) :
    UnpackedFloat.Sign.ofBitVec
      (UnpackedFloat.unpackSign (UnpackedFloat.packComponents .binary64 s exponent mantissa)) =
        s := by
  have hsign : UnpackedFloat.unpackSign
      (UnpackedFloat.packComponents .binary64 s exponent mantissa) = s.toBitVec := by
    show (s.toBitVec ++ exponent ++ mantissa).extractLsb' 63 1 = s.toBitVec
    rw [BitVec.extractLsb'_append_eq_of_le (by decide)]
    exact BitVec.extractLsb'_append_eq_left
  rw [hsign]
  cases s with
  | positive | negative => rfl

theorem Regular.log2_eq_iff {m : Nat} {e : Int} (hm : Regular m e) :
    m.log2 = 52 ↔ 2 ^ 52 ≤ m := by
  have hlt := hm.lt
  rw [Nat.log2_eq_iff (Nat.ne_of_gt hm.pos)]
  omega

/-- A double is unpacked into the sign, significand and exponent it was packed from. -/
theorem unpack_pack {m : Nat} {e : Int} (hm : Regular m e) (s : UnpackedFloat.Sign) :
    UnpackedFloat.unpack .binary64
      (UnpackedFloat.pack .binary64 (.finite s m e hm.pos)) = .finite s m e hm.pos := by
  have hlt := hm.lt
  have hleast := hm.least
  have hmost := hm.most
  have hsign (exponent : BitVec 11) := unpackSign_packComponents s exponent (BitVec.ofNat 52 m)
  have hmantissa (exponent : BitVec 11) : UnpackedFloat.unpackMantissa
      (UnpackedFloat.packComponents .binary64 s exponent (BitVec.ofNat 52 m)) =
        BitVec.ofNat 52 m := UnpackedFloat.unpackMantissa_packComponents
  have hexponent (exponent : BitVec 11) : UnpackedFloat.unpackExponent
      (UnpackedFloat.packComponents .binary64 s exponent (BitVec.ofNat 52 m)) = exponent :=
    UnpackedFloat.unpackExponent_packComponents
  rw [pack_finite s hm.pos hmost]
  by_cases hnormal : 2 ^ 52 ≤ m
  · have hstored : (BitVec.ofNat 11 (e + 1075).toNat).toNat = (e + 1075).toNat := by
      rw [BitVec.toNat_ofNat]
      omega
    have hones : BitVec.ofNat 11 (e + 1075).toNat ≠ -1#11 := by
      rw [BitVec.toNat_ne, hstored]
      show (e + 1075).toNat ≠ 2047
      omega
    have hzero : BitVec.ofNat 11 (e + 1075).toNat ≠ 0#11 := by
      rw [BitVec.toNat_ne, hstored]
      show (e + 1075).toNat ≠ 0
      omega
    rw [if_pos (hm.log2_eq_iff.2 hnormal), unpack_normal (by rwa [hexponent]) (by rwa [hexponent])]
    refine finite_congr (hsign _) ?_ ?_ _
    · rw [hmantissa, BitVec.toNat_ofNat]
      show 2 ^ 52 + m % 2 ^ 52 = m
      omega
    · rw [hexponent, hstored]
      omega
  · have hvalue : (BitVec.ofNat 52 m).toNat = m := by
      rw [BitVec.toNat_ofNat]
      omega
    rw [if_neg fun h => hnormal (hm.log2_eq_iff.1 h),
      unpack_subnormal (hexponent _) (by rw [hmantissa, hvalue]; exact hm.pos)]
    refine finite_congr (hsign _) ?_ (hm.normal (by omega)).symm _
    rw [hmantissa, hvalue]

theorem toNat_pack {m : Nat} {e : Int} (hm : Regular m e) (negative : Bool) :
    (UnpackedFloat.pack .binary64 (.finite (signOf negative) m e hm.pos)).toNat =
      bitsOf negative m e := by
  have hlt := hm.lt
  have hleast := hm.least
  have hmost := hm.most
  have h52 : twoTo 52 = 4503599627370496 := rfl
  rw [pack_finite _ hm.pos hm.most]
  refine (toNat_packComponents ..).trans ?_
  rw [bitsOf, BitVec.toNat_ofNat, Nat.add_left_cancel_iff]
  by_cases hnormal : 2 ^ 52 ≤ m
  · rw [if_pos (hm.log2_eq_iff.2 hnormal), BitVec.toNat_ofNat, h52]
    omega
  · have he := hm.normal (by omega)
    rw [if_neg fun h => hnormal (hm.log2_eq_iff.1 h), h52, BitVec.toNat_ofNat]
    omega

theorem ofBits_eq_pack {m : Nat} {e : Int} (hm : Regular m e) (negative : Bool) :
    Float.ofBits (UInt64.ofNat (bitsOf negative m e)) =
      Float.ofModel (Float.Model.pack (.finite (signOf negative) m e hm.pos)) := by
  have hbits : (UInt64.ofNat (bitsOf negative m e)).toBitVec =
      UnpackedFloat.pack .binary64 (.finite (signOf negative) m e hm.pos) := by
    refine BitVec.eq_of_toNat_eq ?_
    rw [← toNat_pack hm negative]
    exact UInt64.toNat_ofNat_of_lt' (BitVec.isLt _)
  show Float.ofModel (Float.Model.pack (UnpackedFloat.unpack .binary64
    (UInt64.ofNat (bitsOf negative m e)).toBitVec)) = _
  rw [hbits, unpack_pack hm]

end CardScript.Number
