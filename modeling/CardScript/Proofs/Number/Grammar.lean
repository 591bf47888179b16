import CardScript.Proofs.Number.Nearest

/-!
# The grammar of numbers

A whole number is written as an optional sign and digits (`SignedDigits`), any other number as an
optional sign, digits with an optional point among them, and an optional exponent (`FloatNumeral`).
What is written so is read, and nothing else is (`readWhole?_eq_some_iff`,
`readDecimal?_eq_some_iff`). However a text is taken apart, it denotes the same number
(`FloatNumeral.magnitude_eq_of_chars_eq`).

An exponent stops growing at `exponentCap`. For this to make a difference, the digits have to make
up for what is missing, and the text has to be longer than `shortLength`
(`FloatNumeral.capped_lt_iff`).
-/

namespace CardScript.Number

/-! ## Signs -/

/-- What may stand before digits. -/
inductive SignMark where
  | none
  | plus
  | minus

namespace SignMark

def chars : SignMark → List Char
  | none => []
  | plus => ['+']
  | minus => ['-']

def isNegative : SignMark → Bool
  | minus => true
  | _ => false

theorem exists_takeSign (cs : List Char) :
    ∃ (s : SignMark) (rest : List Char), s.chars ++ rest = cs ∧
      takeSign cs = (s.isNegative, rest) := by
  unfold takeSign
  split
  next rest => exact ⟨minus, rest, rfl, rfl⟩
  next rest => exact ⟨plus, rest, rfl, rfl⟩
  next => exact ⟨none, cs, rfl, rfl⟩

theorem takeSign_append (s : SignMark) {cs : List Char}
    (hhead : ∀ c ∈ cs.head?, c ≠ '-' ∧ c ≠ '+') :
    takeSign (s.chars ++ cs) = (s.isNegative, cs) := by
  cases s with
  | plus => rfl
  | minus => rfl
  | none =>
    show takeSign cs = (false, cs)
    unfold takeSign
    split
    next => exact absurd rfl (hhead '-' rfl).1
    next => exact absurd rfl (hhead '+' rfl).2
    next => rfl

end SignMark

theorem ne_sign_of_isDigit {c : Char} (h : c.isDigit = true) : c ≠ '-' ∧ c ≠ '+' := by
  constructor
  · rintro rfl
    cases h
  · rintro rfl
    cases h

/-! ## Whole numbers -/

/-- An optional sign and digits, at least one of them. -/
structure SignedDigits where
  sign : SignMark
  digits : List Char
  ne_nil : digits ≠ []
  isDigit : ∀ c ∈ digits, c.isDigit = true

namespace SignedDigits

def chars (n : SignedDigits) : List Char :=
  n.sign.chars ++ n.digits

/-- The number denoted, by the number that the digits denote. -/
def value (size : List Char → ℕ) (n : SignedDigits) : ℤ :=
  signed n.sign.isNegative (size n.digits)

theorem takeSign_chars (n : SignedDigits) : takeSign n.chars = (n.sign.isNegative, n.digits) :=
  n.sign.takeSign_append fun c hc => ne_sign_of_isDigit (n.isDigit c (List.mem_of_mem_head? hc))

/-- The test that reading makes of what follows a sign. -/
theorem exists_of_test {cs : List Char}
    (h : (!(takeSign cs).2.isEmpty && (takeSign cs).2.all Char.isDigit) = true) :
    ∃ n : SignedDigits, n.chars = cs := by
  obtain ⟨s, rest, hchars, hsign⟩ := SignMark.exists_takeSign cs
  rw [hsign, Bool.and_eq_true, Bool.not_eq_true', List.isEmpty_eq_false_iff,
    List.all_eq_true] at h
  exact ⟨⟨s, rest, h.1, h.2⟩, hchars⟩

theorem test_chars (n : SignedDigits) :
    (!(takeSign n.chars).2.isEmpty && (takeSign n.chars).2.all Char.isDigit) = true := by
  rw [takeSign_chars, Bool.and_eq_true, Bool.not_eq_true', List.isEmpty_eq_false_iff,
    List.all_eq_true]
  exact ⟨n.ne_nil, n.isDigit⟩

end SignedDigits

/-- The number that digits write in the decimal system. -/
def decimalSize (ds : List Char) : ℕ :=
  Nat.ofDigitChars 10 ds 0

theorem ofDigits_eq_decimalSize : ofDigits = decimalSize :=
  funext ofDigits_eq_ofDigitChars

theorem readWhole?_eq_some_iff {cs : List Char} {k : ℤ} :
    readWhole? cs = some k ↔ ∃ n : SignedDigits, n.chars = cs ∧ n.value decimalSize = k := by
  rw [← ofDigits_eq_decimalSize]
  constructor
  · intro h
    simp only [readWhole?] at h
    split at h
    next htest =>
      obtain ⟨n, rfl⟩ := SignedDigits.exists_of_test htest
      rw [n.takeSign_chars] at h
      exact ⟨n, rfl, Option.some.inj h⟩
    next => cases h
  · rintro ⟨n, rfl, rfl⟩
    simp only [readWhole?]
    rw [if_pos n.test_chars, n.takeSign_chars]
    rfl

/-! ## Exponents -/

/-- The exponent, if there is one, after its mark; the mark may be a capital letter. -/
def exponentChars : Option (Bool × SignedDigits) → List Char
  | none => []
  | some (capital, n) => (if capital then 'E' else 'e') :: n.chars

def exponentValue (size : List Char → ℕ) (e : Option (Bool × SignedDigits)) : ℤ :=
  e.elim 0 fun part => part.2.value size

theorem head_exponentChars {e : Option (Bool × SignedDigits)} {c : Char}
    (hc : c ∈ (exponentChars e).head?) : c = 'e' ∨ c = 'E' := by
  rcases e with - | ⟨capital, n⟩
  · cases hc
  · obtain rfl : (if capital then 'E' else 'e') = c := Option.some.inj hc
    cases capital with
    | false => exact .inl rfl
    | true => exact .inr rfl

theorem readExponent?_exponentChars (e : Option (Bool × SignedDigits)) :
    readExponent? (exponentChars e) = some (exponentValue exponentOfDigits e) := by
  rcases e with - | ⟨capital, n⟩
  · rfl
  · have hmark : ((if capital then 'E' else 'e') == 'e' ||
        (if capital then 'E' else 'e') == 'E') = true := by
      cases capital with
      | false => rfl
      | true => rfl
    have htest := n.test_chars
    simp only [exponentChars, readExponent?, hmark, Bool.true_and]
    rw [if_pos htest, n.takeSign_chars]
    rfl

theorem exists_of_readExponent? {cs : List Char} {k : ℤ} (h : readExponent? cs = some k) :
    ∃ e, exponentChars e = cs := by
  unfold readExponent? at h
  split at h
  next => exact ⟨none, rfl⟩
  next c rest =>
    simp only [Bool.and_assoc] at h
    split at h
    next htest =>
      rw [Bool.and_eq_true, Bool.or_eq_true, beq_iff_eq, beq_iff_eq] at htest
      obtain ⟨n, rfl⟩ := SignedDigits.exists_of_test htest.2
      rcases htest.1 with rfl | rfl
      · exact ⟨some (false, n), rfl⟩
      · exact ⟨some (true, n), rfl⟩
    next => cases h

/-! ## Decimals -/

/-- Splits the digits after a point off, if there is a point. -/
def splitPoint (rest : List Char) : List Char × List Char :=
  match rest with
  | '.' :: rest => (rest.takeWhile Char.isDigit, rest.dropWhile Char.isDigit)
  | _ => ([], rest)

/-- The digits after an optional point. -/
def pointChars (fraction? : Option (List Char)) : List Char :=
  fraction?.elim [] ('.' :: ·)

theorem readDecimal?_eq (cs : List Char) :
    readDecimal? cs =
      let unsigned := (takeSign cs).2
      let integral := unsigned.takeWhile Char.isDigit
      let after := splitPoint (unsigned.dropWhile Char.isDigit)
      if integral.isEmpty && after.1.isEmpty then none
      else
        (readExponent? after.2).map fun exponent =>
          ofDecimal (takeSign cs).1 (ofDigits (integral ++ after.1)) (exponent - after.1.length) :=
  rfl

theorem isDigit_head_exponentChars (e : Option (Bool × SignedDigits)) :
    ∀ c ∈ (exponentChars e).head?, c.isDigit = false := by
  intro c hc
  rcases head_exponentChars hc with rfl | rfl <;> rfl

theorem splitPoint_append {fraction? : Option (List Char)} {e : Option (Bool × SignedDigits)}
    (h : ∀ c ∈ fraction?.getD [], c.isDigit = true) :
    splitPoint (pointChars fraction? ++ exponentChars e) =
      (fraction?.getD [], exponentChars e) := by
  cases fraction? with
  | none =>
    show splitPoint (exponentChars e) = ([], exponentChars e)
    unfold splitPoint
    split
    next rest hpoint =>
      have hhead : '.' ∈ (exponentChars e).head? := by
        rw [hpoint]
        rfl
      rcases head_exponentChars hhead with hmark | hmark <;> cases hmark
    next => rfl
  | some ds =>
    obtain ⟨htake, hdrop⟩ := span_digits h (exponentChars e) (isDigit_head_exponentChars e)
    exact Prod.ext htake hdrop

theorem exists_splitPoint (cs : List Char) :
    ∃ fraction? : Option (List Char), pointChars fraction? ++ (splitPoint cs).2 = cs ∧
      fraction?.getD [] = (splitPoint cs).1 ∧ ∀ c ∈ fraction?.getD [], c.isDigit = true := by
  unfold splitPoint
  split
  next rest =>
    exact ⟨some (rest.takeWhile Char.isDigit),
      congrArg ('.' :: ·) List.takeWhile_append_dropWhile, rfl,
      fun c hc => List.mem_takeWhile_imp hc⟩
  next => exact ⟨none, rfl, rfl, nofun⟩

/-- An optional sign, digits with an optional point, at least one digit, and an optional
exponent. -/
structure FloatNumeral where
  sign : SignMark
  integral : List Char
  fraction? : Option (List Char)
  exponent? : Option (Bool × SignedDigits)
  integral_digits : ∀ c ∈ integral, c.isDigit = true
  fraction_digits : ∀ c ∈ fraction?.getD [], c.isDigit = true
  ne_nil : integral ++ fraction?.getD [] ≠ []

namespace FloatNumeral

def digits (d : FloatNumeral) : List Char :=
  d.integral ++ d.fraction?.getD []

/-- What comes after the digits before the point. -/
def ending (d : FloatNumeral) : List Char :=
  pointChars d.fraction? ++ exponentChars d.exponent?

def chars (d : FloatNumeral) : List Char :=
  d.sign.chars ++ (d.integral ++ d.ending)

/-- The power of ten that the digits count, by the number that the digits of the exponent denote. -/
def power (size : List Char → ℕ) (d : FloatNumeral) : ℤ :=
  exponentValue size d.exponent? - (d.fraction?.getD []).length

/-- The number denoted, apart from its sign. -/
def magnitude (size : List Char → ℕ) (d : FloatNumeral) : ℚ :=
  decimalSize d.digits * 10 ^ d.power size

/-- The double that the numeral is read as. -/
def double (d : FloatNumeral) : Float :=
  ofDecimal d.sign.isNegative (decimalSize d.digits) (d.power exponentOfDigits)

variable (d : FloatNumeral)

theorem head_ending {c : Char} (hc : c ∈ d.ending.head?) : c = '.' ∨ c = 'e' ∨ c = 'E' := by
  unfold ending at hc
  cases h : d.fraction? with
  | none =>
    rw [h] at hc
    exact .inr (head_exponentChars hc)
  | some ds =>
    rw [h] at hc
    exact .inl (Option.some.inj hc).symm

theorem isDigit_head_ending : ∀ c ∈ d.ending.head?, c.isDigit = false := by
  intro c hc
  rcases d.head_ending hc with rfl | rfl | rfl <;> rfl

theorem takeSign_chars : takeSign d.chars = (d.sign.isNegative, d.integral ++ d.ending) := by
  refine d.sign.takeSign_append fun c hc => ?_
  cases h : d.integral with
  | nil =>
    rw [h, List.nil_append] at hc
    rcases d.head_ending hc with rfl | rfl | rfl <;> exact ⟨by decide, by decide⟩
  | cons b ds =>
    rw [h] at hc
    obtain rfl : b = c := Option.some.inj hc
    exact ne_sign_of_isDigit (d.integral_digits b (h ▸ List.mem_cons_self))

/-- A decimal is read from what it is written as. -/
theorem readDecimal?_chars : readDecimal? d.chars = some d.double := by
  obtain ⟨htake, hdrop⟩ := span_digits d.integral_digits d.ending d.isDigit_head_ending
  have hsplit : splitPoint d.ending = (d.fraction?.getD [], exponentChars d.exponent?) :=
    splitPoint_append d.fraction_digits
  have hempty : (d.integral.isEmpty && (d.fraction?.getD []).isEmpty) = false := by
    rw [← Bool.not_eq_true, Bool.and_eq_true, List.isEmpty_iff, List.isEmpty_iff]
    exact fun hnil => d.ne_nil (List.append_eq_nil_iff.2 hnil)
  simp only [readDecimal?_eq, d.takeSign_chars, htake, hdrop, hsplit, hempty, Bool.false_eq_true,
    if_false, readExponent?_exponentChars, Option.map_some, ofDigits_eq_decimalSize]
  rfl

theorem exists_of_readDecimal? {cs : List Char} {x : Float} (h : readDecimal? cs = some x) :
    ∃ d : FloatNumeral, d.chars = cs := by
  obtain ⟨s, unsigned, rfl, hsign⟩ := SignMark.exists_takeSign cs
  rw [readDecimal?_eq, hsign] at h
  simp only at h
  split at h
  next => cases h
  next hempty =>
    obtain ⟨k, hexponent, -⟩ := Option.map_eq_some_iff.1 h
    obtain ⟨e, he⟩ := exists_of_readExponent? hexponent
    obtain ⟨fraction?, hending, hfraction, hdigits⟩ :=
      exists_splitPoint (unsigned.dropWhile Char.isDigit)
    rw [Bool.and_eq_true, List.isEmpty_iff, List.isEmpty_iff, ← hfraction] at hempty
    refine ⟨⟨s, unsigned.takeWhile Char.isDigit, fraction?, e,
      fun c hc => List.mem_takeWhile_imp hc, hdigits, fun hnil => ?_⟩, ?_⟩
    · exact hempty (List.append_eq_nil_iff.1 hnil)
    · simp only [chars, ending, he, hending, List.takeWhile_append_dropWhile]

end FloatNumeral

theorem readDecimal?_eq_some_iff {cs : List Char} {x : Float} :
    readDecimal? cs = some x ↔ ∃ d : FloatNumeral, d.chars = cs ∧ d.double = x := by
  constructor
  · intro h
    obtain ⟨d, rfl⟩ := FloatNumeral.exists_of_readDecimal? h
    exact ⟨d, rfl, Option.some.inj (d.readDecimal?_chars.symm.trans h)⟩
  · rintro ⟨d, rfl, rfl⟩
    exact d.readDecimal?_chars

namespace FloatNumeral

theorem double_nearest {d : FloatNumeral} (h : d.magnitude exponentOfDigits < overflowBound) :
    IsNearest d.double d.sign.isNegative (d.magnitude exponentOfDigits) :=
  ofDecimal_nearest h _

theorem isFinite_double_iff (d : FloatNumeral) :
    isFinite d.double = true ↔ d.magnitude exponentOfDigits < overflowBound := by
  refine ⟨fun hfinite => not_le.1 fun hle => ?_, fun h => (double_nearest h).isFinite⟩
  simp [isFinite, double, ofDecimal_infinite hle] at hfinite

/-! ## One reading of a text -/

theorem exponentValue_eq_of_chars_eq {e e' : Option (Bool × SignedDigits)}
    (h : exponentChars e = exponentChars e') (size : List Char → ℕ) :
    exponentValue size e = exponentValue size e' := by
  rcases e with - | ⟨capital, n⟩ <;> rcases e' with - | ⟨capital', n'⟩
  · rfl
  · cases h
  · cases h
  · have hchars : n.chars = n'.chars := (List.cons.inj h).2
    have hsign := n.takeSign_chars
    rw [hchars, n'.takeSign_chars] at hsign
    obtain ⟨hnegative, hdigits⟩ := Prod.mk.inj hsign
    simp only [exponentValue, Option.elim_some, SignedDigits.value, hnegative, hdigits]

/-- What a text denotes does not depend on how it is taken apart. -/
theorem magnitude_eq_of_chars_eq {d d' : FloatNumeral} (h : d.chars = d'.chars)
    (size : List Char → ℕ) : d.magnitude size = d'.magnitude size := by
  have hsign := d.takeSign_chars
  rw [h, d'.takeSign_chars] at hsign
  have hunsigned := (Prod.mk.inj hsign).2
  obtain ⟨htake, hdrop⟩ := span_digits d.integral_digits d.ending d.isDigit_head_ending
  obtain ⟨htake', hdrop'⟩ := span_digits d'.integral_digits d'.ending d'.isDigit_head_ending
  rw [← hunsigned] at htake hdrop
  have hintegral : d.integral = d'.integral := htake.symm.trans htake'
  have hending : d.ending = d'.ending := hdrop.symm.trans hdrop'
  have hsplit : splitPoint d.ending = (d.fraction?.getD [], exponentChars d.exponent?) :=
    splitPoint_append d.fraction_digits
  have hsplit' : splitPoint d'.ending = (d'.fraction?.getD [], exponentChars d'.exponent?) :=
    splitPoint_append d'.fraction_digits
  rw [hending, hsplit'] at hsplit
  obtain ⟨hfraction, hexponent⟩ := Prod.mk.inj hsplit
  simp only [magnitude, power, digits, hintegral, hfraction,
    exponentValue_eq_of_chars_eq hexponent size]

end FloatNumeral

/-! ## Large exponents -/

theorem decimalSize_concat (ds : List Char) (c : Char) :
    decimalSize (ds ++ [c]) = appendDigit (decimalSize ds) c := by
  rw [decimalSize, Nat.ofDigitChars_append, Nat.ofDigitChars_cons, Nat.ofDigitChars_nil]
  rfl

theorem digitValue_le {c : Char} (h : c.isDigit = true) : digitValue c ≤ 9 := by
  have hhigh : c.toNat ≤ 57 := (Char.isDigit_iff_toNat.1 h).2
  have hzero : '0'.toNat = 48 := rfl
  unfold digitValue
  omega

theorem decimalSize_lt {ds : List Char} (h : ∀ c ∈ ds, c.isDigit = true) :
    decimalSize ds < 10 ^ ds.length := by
  induction ds using List.reverseRecOn with
  | nil => decide
  | append_singleton ds c ih =>
    obtain ⟨hds, hc⟩ := List.forall_mem_append.1 h
    have hlt := ih hds
    have hdigit := digitValue_le (hc c List.mem_cons_self)
    rw [decimalSize_concat, appendDigit, List.length_append, List.length_singleton, pow_succ]
    omega

theorem exponentOfDigits_concat (ds : List Char) (c : Char) :
    exponentOfDigits (ds ++ [c]) =
      if exponentOfDigits ds < exponentCap then appendDigit (exponentOfDigits ds) c
      else exponentOfDigits ds := by
  rw [exponentOfDigits, List.foldl_append]
  rfl

/-- An exponent is read exactly, or else both the number that it writes and the number that is read
are large. -/
theorem exponentOfDigits_cases (ds : List Char) :
    exponentOfDigits ds = decimalSize ds ∨
      exponentCap ≤ exponentOfDigits ds ∧ 10 * exponentCap ≤ decimalSize ds := by
  induction ds using List.reverseRecOn with
  | nil => exact .inl rfl
  | append_singleton ds c ih =>
    rw [exponentOfDigits_concat, decimalSize_concat]
    simp only [appendDigit]
    split
    next hless =>
      left
      rw [ih.resolve_right fun h => absurd hless (not_lt.2 h.1)]
    next hlarge =>
      right
      rcases ih with heq | ⟨hread, hwritten⟩
      · rw [heq] at hlarge ⊢
        omega
      · omega

/-- In texts up to this length, exponents are never large enough to be cut off and yet small enough
to be made up for by digits. -/
def shortLength : ℕ := 65000

namespace FloatNumeral

variable {d : FloatNumeral}

theorem length_digits_le (d : FloatNumeral) : d.digits.length ≤ d.chars.length := by
  have hpoint : (d.fraction?.getD []).length ≤ (pointChars d.fraction?).length := by
    cases d.fraction? with
    | none => exact le_refl _
    | some ds => exact Nat.le_succ _
  simp only [digits, chars, ending, List.length_append]
  omega

theorem isDigit_digits (d : FloatNumeral) : ∀ c ∈ d.digits, c.isDigit = true :=
  isDigit_append d.integral_digits d.fraction_digits

/-- A large exponent settles by its sign whether a number is too large. -/
theorem magnitude_lt_iff {size : List Char → ℕ} {capital : Bool} {n : SignedDigits}
    (he : d.exponent? = some (capital, n)) (hsize : exponentCap ≤ size n.digits)
    (hshort : d.chars.length ≤ shortLength) :
    d.magnitude size < overflowBound ↔ decimalSize d.digits = 0 ∨ n.sign.isNegative = true := by
  have hten {a b : ℤ} (h : a ≤ b) : (10 : ℚ) ^ a ≤ 10 ^ b := zpow_le_zpow_right₀ (by norm_num) h
  have hcap : exponentCap = 65536 := rfl
  have hbound : shortLength = 65000 := rfl
  have hlength := d.length_digits_le
  have hfraction : (d.fraction?.getD []).length ≤ d.digits.length := by
    rw [digits, List.length_append]
    omega
  have hpower : d.power size = signed n.sign.isNegative (size n.digits) -
      (d.fraction?.getD []).length := by
    rw [power, he]
    rfl
  unfold magnitude
  rcases Nat.eq_zero_or_pos (decimalSize d.digits) with hzero | hpos
  · rw [hzero, Nat.cast_zero, zero_mul]
    exact ⟨fun _ => .inl rfl, fun _ => overflowBound_pos⟩
  · have hone : (1 : ℚ) ≤ decimalSize d.digits := by exact_mod_cast hpos
    have hpowerPos := zpow_ten_pos (d.power size)
    cases hsign : n.sign.isNegative with
    | true =>
      rw [hsign] at hpower
      have hsigned : signed true (size n.digits) = -(size n.digits : ℤ) := rfl
      have hlt : (decimalSize d.digits : ℚ) < 10 ^ (d.digits.length : ℤ) := by
        rw [zpow_natCast]
        exact_mod_cast decimalSize_lt d.isDigit_digits
      refine ⟨fun _ => .inr rfl, fun _ => ?_⟩
      calc decimalSize d.digits * (10 : ℚ) ^ d.power size
          < 10 ^ (d.digits.length : ℤ) * 10 ^ d.power size :=
            mul_lt_mul_of_pos_right hlt hpowerPos
        _ = 10 ^ ((d.digits.length : ℤ) + d.power size) := (zpow_add₀ (by norm_num) _ _).symm
        _ ≤ 10 ^ (-400 : ℤ) := hten (by omega)
        _ ≤ overflowBound := (zpow_ten_lt_least.trans least_lt_overflowBound).le
    | false =>
      rw [hsign] at hpower
      have hsigned : signed false (size n.digits) = (size n.digits : ℤ) := rfl
      have hlarge : overflowBound ≤ decimalSize d.digits * 10 ^ d.power size :=
        calc overflowBound ≤ 10 ^ (400 : ℤ) := overflowBound_lt_zpow_ten.le
          _ ≤ 10 ^ d.power size := hten (by omega)
          _ = 1 * 10 ^ d.power size := (one_mul _).symm
          _ ≤ decimalSize d.digits * 10 ^ d.power size :=
            mul_le_mul_of_nonneg_right hone hpowerPos.le
      refine ⟨fun h => absurd h (not_lt.2 hlarge), fun h => ?_⟩
      rcases h with hzero | hfalse
      · exact absurd hzero hpos.ne'
      · cases hfalse

/-- In a text that is not very long, the number that is read is finite just when the number that is
written is. -/
theorem capped_lt_iff (hshort : d.chars.length ≤ shortLength) :
    d.magnitude exponentOfDigits < overflowBound ↔ d.magnitude decimalSize < overflowBound := by
  cases he : d.exponent? with
  | none =>
    have heq : d.magnitude exponentOfDigits = d.magnitude decimalSize := by
      simp only [magnitude, power, he, exponentValue, Option.elim_none]
    rw [heq]
  | some part =>
    obtain ⟨capital, n⟩ := part
    rcases exponentOfDigits_cases n.digits with heq | ⟨hread, hwritten⟩
    · have heq : d.magnitude exponentOfDigits = d.magnitude decimalSize := by
        simp only [magnitude, power, he, exponentValue, Option.elim_some, SignedDigits.value, heq]
      rw [heq]
    · rw [magnitude_lt_iff he hread hshort, magnitude_lt_iff he (by omega) hshort]

end FloatNumeral

end CardScript.Number
