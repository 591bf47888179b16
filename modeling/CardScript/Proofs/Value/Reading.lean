import CardScript.Proofs.Number.Grammar

/-!
# Texts that are read as numbers

A text is read as a number by its grammar (`Value.reading_by_grammar`): as an integer if it writes
one that fits a word (`Number.WritesWord`), or else as a double if it writes a number that some
finite double is nearest to (`Number.WritesReal`). Only the exponent of a very long text may count
for less than it writes (`Value.reading_of_large_exponent`).
-/

namespace CardScript

namespace Number

/-- A text is an integer that fits a word. -/
def WritesWord (cs : List Char) (n : ℤ) : Prop :=
  (∃ w : SignedDigits, w.chars = cs ∧ w.value decimalSize = n) ∧ fitsWord n = true

/-- A text is no such integer but a number whose nearest double is finite; `size` tells how large
the exponent is. -/
def WritesReal (size : List Char → ℕ) (cs : List Char) : Prop :=
  (¬ ∃ n, WritesWord cs n) ∧
    ∃ d : FloatNumeral, d.chars = cs ∧ d.magnitude size < overflowBound

theorem readWord?_eq_some_iff {cs : List Char} {n : ℤ} :
    readWord? cs = some n ↔ WritesWord cs n := by
  rw [readWord?, Option.bind_eq_some_iff]
  constructor
  · rintro ⟨k, hread, hword⟩
    obtain ⟨hfits, rfl⟩ := word?_eq_some_iff.1 hword
    exact ⟨readWhole?_eq_some_iff.1 hread, hfits⟩
  · rintro ⟨hread, hfits⟩
    exact ⟨n, readWhole?_eq_some_iff.2 hread, word?_of_fitsWord hfits⟩

theorem readWord?_eq_none_iff {cs : List Char} : readWord? cs = none ↔ ¬ ∃ n, WritesWord cs n := by
  simp only [← readWord?_eq_some_iff, Option.eq_none_iff_forall_ne_some, not_exists, ne_eq]

/-- In a text that is not very long, exponents count for what they write. -/
theorem writesReal_iff {cs : List Char} (hshort : cs.length ≤ shortLength) :
    WritesReal exponentOfDigits cs ↔ WritesReal decimalSize cs := by
  refine and_congr_right fun _ => exists_congr fun d => and_congr_right fun hchars => ?_
  rw [← hchars] at hshort
  exact FloatNumeral.capped_lt_iff hshort

/-- A whole number without a point or an exponent. -/
def SignedDigits.toFloatNumeral (w : SignedDigits) : FloatNumeral where
  sign := w.sign
  integral := w.digits
  fraction? := none
  exponent? := none
  integral_digits := w.isDigit
  fraction_digits := nofun
  ne_nil := List.append_ne_nil_of_left_ne_nil w.ne_nil _

theorem SignedDigits.chars_toFloatNumeral (w : SignedDigits) :
    w.toFloatNumeral.chars = w.chars :=
  congrArg (w.sign.chars ++ ·) (List.append_nil _)

end Number

namespace Numeric

open Number

/-! ## The characters of a number -/

theorem isNumberChar_signMark (s : SignMark) : ∀ c ∈ s.chars, isNumberChar c = true := by
  cases s with
  | none => exact nofun
  | plus => simp [SignMark.chars, isNumberChar]
  | minus => simp [SignMark.chars, isNumberChar]

theorem isNumberChar_exponentChars (e : Option (Bool × SignedDigits)) :
    ∀ c ∈ exponentChars e, isNumberChar c = true := by
  rcases e with - | ⟨capital, n⟩
  · exact nofun
  · intro c hc
    rcases List.mem_cons.1 hc with rfl | hc
    · cases capital with
      | false => rfl
      | true => rfl
    · rcases List.mem_append.1 hc with hc | hc
      · exact isNumberChar_signMark n.sign c hc
      · exact isNumberChar_of_isDigit (n.isDigit c hc)

theorem isNumberChar_pointChars {fraction? : Option (List Char)}
    (h : ∀ c ∈ fraction?.getD [], c.isDigit = true) :
    ∀ c ∈ pointChars fraction?, isNumberChar c = true := by
  cases fraction? with
  | none => exact nofun
  | some ds =>
    intro c hc
    rcases List.mem_cons.1 hc with rfl | hc
    · rfl
    · exact isNumberChar_of_isDigit (h c hc)

theorem isNumberChar_chars (d : FloatNumeral) : ∀ c ∈ d.chars, isNumberChar c = true := by
  refine List.forall_mem_append.2 ⟨isNumberChar_signMark d.sign, List.forall_mem_append.2 ⟨?_, ?_⟩⟩
  · exact fun c hc => isNumberChar_of_isDigit (d.integral_digits c hc)
  · exact List.forall_mem_append.2
      ⟨isNumberChar_pointChars d.fraction_digits, isNumberChar_exponentChars d.exponent?⟩

theorem exists_digit_chars (d : FloatNumeral) : ∃ c ∈ d.chars, c.isDigit = true := by
  obtain ⟨c, hc⟩ := List.exists_mem_of_ne_nil _ d.ne_nil
  refine ⟨c, List.mem_append_right _ ?_, d.isDigit_digits c hc⟩
  rcases List.mem_append.1 hc with hc | hc
  · exact List.mem_append_left _ hc
  · refine List.mem_append_right _ (List.mem_append_left _ ?_)
    cases h : d.fraction? with
    | none =>
      rw [h] at hc
      cases hc
    | some ds =>
      rw [h] at hc
      exact List.mem_cons_of_mem _ hc

/-- The characters are looked at only to spare the reading: numbers pass. -/
theorem read?_eq (s : String) :
    read? s = ((readWord? (Text.trim s.toList)).map whole).or
      (((readDecimal? (Text.trim s.toList)).filter isFinite).map real) := by
  have htest {d : FloatNumeral} (h : d.chars = Text.trim s.toList) :
      ((Text.trim s.toList).any Char.isDigit && (Text.trim s.toList).all isNumberChar) = true := by
    rw [← h, Bool.and_eq_true, List.any_eq_true, List.all_eq_true]
    exact ⟨exists_digit_chars d, isNumberChar_chars d⟩
  simp only [read?]
  split
  next =>
    cases readWord? (Text.trim s.toList) with
    | none => rfl
    | some n => rfl
  next hfails =>
    have hword : readWord? (Text.trim s.toList) = none := by
      rw [readWord?_eq_none_iff]
      rintro ⟨n, ⟨w, hw, -⟩, -⟩
      exact hfails (htest (w.chars_toFloatNumeral.trans hw))
    have hdecimal : readDecimal? (Text.trim s.toList) = none := by
      refine Option.eq_none_iff_forall_ne_some.2 fun x hx => ?_
      obtain ⟨d, hd⟩ := FloatNumeral.exists_of_readDecimal? hx
      exact hfails (htest hd)
    rw [hword, hdecimal]
    rfl

theorem read?_eq_whole_iff {s : String} {n : ℤ} :
    read? s = some (whole n) ↔ WritesWord (Text.trim s.toList) n := by
  rw [read?_eq, ← readWord?_eq_some_iff]
  cases readWord? (Text.trim s.toList) with
  | none => simp
  | some k => simp

theorem read?_eq_real_iff {s : String} {x : Float} :
    read? s = some (real x) ↔ (¬ ∃ n, WritesWord (Text.trim s.toList) n) ∧
      ∃ d : FloatNumeral, d.chars = Text.trim s.toList ∧ d.double = x ∧ isFinite x = true := by
  rw [read?_eq, ← readWord?_eq_none_iff]
  cases readWord? (Text.trim s.toList) with
  | some k => simp
  | none =>
    simp only [Option.map_none, Option.none_or, Option.map_eq_some_iff, Option.filter_eq_some_iff,
      real.injEq, true_and, readDecimal?_eq_some_iff]
    constructor
    · rintro ⟨y, ⟨⟨d, hchars, hdouble⟩, hfinite⟩, rfl⟩
      exact ⟨d, hchars, hdouble, hfinite⟩
    · rintro ⟨d, hchars, hdouble, hfinite⟩
      exact ⟨x, ⟨⟨d, hchars, hdouble⟩, hfinite⟩, rfl⟩

theorem exists_read?_eq_real_iff {s : String} :
    (∃ x, read? s = some (real x)) ↔ WritesReal exponentOfDigits (Text.trim s.toList) := by
  simp only [read?_eq_real_iff, exists_and_left, WritesReal]
  refine and_congr_right fun _ => ⟨?_, ?_⟩
  · rintro ⟨x, d, hchars, rfl, hfinite⟩
    exact ⟨d, hchars, d.isFinite_double_iff.1 hfinite⟩
  · rintro ⟨d, hchars, hlt⟩
    exact ⟨d.double, d, hchars, rfl, d.isFinite_double_iff.2 hlt⟩

theorem nearest_of_read? {s : String} {x : Float} (h : read? s = some (real x)) {d : FloatNumeral}
    (hd : d.chars = Text.trim s.toList) :
    IsNearest x d.sign.isNegative (d.magnitude exponentOfDigits) := by
  obtain ⟨-, d', hd', rfl, hfinite⟩ := read?_eq_real_iff.1 h
  have hdouble : d.double = d'.double := by
    have hread := d.readDecimal?_chars
    rw [hd, ← hd', d'.readDecimal?_chars] at hread
    exact (Option.some.inj hread).symm
  rw [← hdouble] at hfinite ⊢
  exact FloatNumeral.double_nearest (d.isFinite_double_iff.1 hfinite)

theorem read?_eq_none_iff {s : String} :
    read? s = none ↔ (¬ ∃ n, WritesWord (Text.trim s.toList) n) ∧
      ¬ WritesReal exponentOfDigits (Text.trim s.toList) := by
  simp only [← exists_read?_eq_real_iff, ← read?_eq_whole_iff]
  rcases read? s with - | (n | x) <;> simp

end Numeric

namespace Value

open Number

/-- **A text is read by the grammar of numbers.** It is read as an integer if it writes one that
fits a word, as a double if it writes another number that a finite double is nearest to, and not as
a number otherwise. The double is the nearest one. What an exponent writes counts up to its cap, and
in a text of usual length it counts in full. The text of an integer is read as this integer. -/
theorem reading_by_grammar :
    (∀ s : String,
      (∀ n, (ofText s).numeric? = some (.whole n) ↔ WritesWord (Text.trim s.toList) n) ∧
      ((∃ x, (ofText s).numeric? = some (.real x)) ↔
        WritesReal exponentOfDigits (Text.trim s.toList)) ∧
      ((Text.trim s.toList).length ≤ shortLength →
        ((∃ x, (ofText s).numeric? = some (.real x)) ↔
          WritesReal decimalSize (Text.trim s.toList))) ∧
      (∀ x (d : FloatNumeral), (ofText s).numeric? = some (.real x) →
        d.chars = Text.trim s.toList →
          IsNearest x d.sign.isNegative (d.magnitude exponentOfDigits)) ∧
      ((ofText s).numeric? = none ↔ (¬ ∃ n, WritesWord (Text.trim s.toList) n) ∧
        ¬ WritesReal exponentOfDigits (Text.trim s.toList))) ∧
    ∀ n, fitsWord n = true → (ofText (ofInt n).text).numeric? = some (.whole n) := by
  refine ⟨fun s => ⟨fun n => ?_, ?_, fun hshort => ?_, fun x d hread hd => ?_, ?_⟩, fun n hn => ?_⟩
  · exact Numeric.read?_eq_whole_iff
  · exact Numeric.exists_read?_eq_real_iff
  · rw [← writesReal_iff hshort]
    exact Numeric.exists_read?_eq_real_iff
  · exact Numeric.nearest_of_read? hread hd
  · exact Numeric.read?_eq_none_iff
  · exact Numeric.read?_toString hn

/-- A one behind many zeros, and an exponent that moves it far before the point. -/
def behindZeros (zeros : ℕ) : FloatNumeral where
  sign := .none
  integral := ['0']
  fraction? := some (List.replicate zeros '0' ++ ['1'])
  exponent? := some (false, ⟨.none, ['6', '5', '5', '3', '7', '0'], List.cons_ne_nil _ _, by simp⟩)
  integral_digits := by simp
  fraction_digits := isDigit_append (isDigit_zeros zeros) (by simp)
  ne_nil := List.append_ne_nil_of_left_ne_nil (List.cons_ne_nil _ _) _

theorem magnitude_behindZeros (size : List Char → ℕ) (zeros : ℕ) :
    (behindZeros zeros).magnitude size =
      10 ^ ((size ['6', '5', '5', '3', '7', '0'] : ℤ) - (zeros + 1 : ℕ)) := by
  have hdigits : decimalSize (behindZeros zeros).digits = 1 := by
    show Nat.ofDigitChars 10 (['0'] ++ (List.replicate zeros '0' ++ ['1'])) 0 = 1
    rw [Nat.ofDigitChars_append, Nat.ofDigitChars_append, Nat.ofDigitChars_replicate_zero]
    rfl
  have hpower : (behindZeros zeros).power size =
      (size ['6', '5', '5', '3', '7', '0'] : ℤ) - (zeros + 1 : ℕ) := by
    show (size ['6', '5', '5', '3', '7', '0'] : ℤ) - (List.replicate zeros '0' ++ ['1']).length = _
    rw [List.length_append, List.length_replicate, List.length_singleton]
  rw [FloatNumeral.magnitude, hdigits, hpower, Nat.cast_one, one_mul]

theorem trim_behindZeros (zeros : ℕ) :
    Text.trim (String.ofList (behindZeros zeros).chars).toList = (behindZeros zeros).chars := by
  rw [String.toList_ofList]
  exact Text.trim_eq_self fun c hc =>
    Numeric.isBlank_of_isNumberChar (Numeric.isNumberChar_chars _ c hc)

theorem not_writesReal_behindZeros {zeros : ℕ} (h : zeros ≤ 600000) :
    ¬ WritesReal decimalSize (behindZeros zeros).chars := by
  have hsize : decimalSize ['6', '5', '5', '3', '7', '0'] = 655370 := by decide
  rintro ⟨-, d, hchars, hlt⟩
  rw [FloatNumeral.magnitude_eq_of_chars_eq hchars, magnitude_behindZeros, hsize] at hlt
  refine absurd hlt (not_lt.2 (overflowBound_lt_zpow_ten.le.trans ?_))
  exact zpow_le_zpow_right₀ (by norm_num) (by omega)

theorem writesReal_behindZeros {zeros : ℕ} (h : 65536 ≤ zeros) :
    WritesReal exponentOfDigits (behindZeros zeros).chars := by
  have hsize : exponentOfDigits ['6', '5', '5', '3', '7', '0'] = 65537 := by decide
  refine ⟨?_, behindZeros zeros, rfl, ?_⟩
  · rintro ⟨n, ⟨w, hw, -⟩, -⟩
    have hsign := w.takeSign_chars
    rw [hw, (behindZeros zeros).takeSign_chars] at hsign
    have hpoint : '.' ∈ w.digits := by
      rw [← (Prod.mk.inj hsign).2]
      exact List.mem_append_right _ List.mem_cons_self
    exact absurd (w.isDigit '.' hpoint) (by decide)
  · rw [magnitude_behindZeros, hsize]
    calc (10 : ℚ) ^ ((65537 : ℕ) - (zeros + 1 : ℕ) : ℤ) ≤ 10 ^ (0 : ℤ) :=
          zpow_le_zpow_right₀ (by norm_num) (by omega)
      _ = 1 := zpow_zero _
      _ < overflowBound := one_lt_overflowBound

/-- With enough zeros a number far beyond all doubles is read as a double: its exponent is cut
off. -/
theorem reading_behindZeros {zeros : ℕ} (hleast : 65536 ≤ zeros) (hmost : zeros ≤ 600000) :
    (∃ x, (ofText (String.ofList (behindZeros zeros).chars)).numeric? = some (.real x)) ∧
      ¬ WritesReal decimalSize
        (Text.trim (String.ofList (behindZeros zeros).chars).toList) := by
  have hread := writesReal_behindZeros hleast
  rw [← trim_behindZeros] at hread
  refine ⟨Numeric.exists_read?_eq_real_iff.2 hread, ?_⟩
  rw [trim_behindZeros]
  exact not_writesReal_behindZeros hmost

theorem reading_of_large_exponent :
    (∃ x, (ofText (String.ofList (behindZeros 65536).chars)).numeric? = some (.real x)) ∧
      ¬ WritesReal decimalSize
        (Text.trim (String.ofList (behindZeros 65536).chars).toList) :=
  reading_behindZeros (le_refl _) (by norm_num)

end Value

end CardScript
