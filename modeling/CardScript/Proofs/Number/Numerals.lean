import CardScript.Value.Basic
import Mathlib.Algebra.Group.Nat.Defs
import Mathlib.Data.List.TakeWhile

/-!
# Numerals that are read back

The digits of a number write that number, zeros before them change nothing, and zeros after them
multiply by powers of ten. So the text of an integer is read as this very integer
(`Numeric.read?_toString`). A text of digits, signs and points has no blanks to be trimmed, and is
read as a word or, failing that, as a decimal (`Numeric.read?_of_numberChars`).
-/

namespace CardScript

namespace Number

/-! ## Digits -/

theorem ofDigits_eq_ofDigitChars (ds : List Char) : ofDigits ds = Nat.ofDigitChars 10 ds 0 := by
  rw [ofDigits_eq, Nat.ofDigitChars_eq_foldl]
  rfl

theorem ofDigits_toDigits (n : Nat) : ofDigits (Nat.toDigits 10 n) = n := by
  rw [ofDigits_eq_ofDigitChars, Nat.ofDigitChars_ten_toDigits]

theorem ofDigits_zeros_append (k : Nat) (ds : List Char) :
    ofDigits (List.replicate k '0' ++ ds) = ofDigits ds := by
  simp only [ofDigits_eq_ofDigitChars, Nat.ofDigitChars_append, Nat.ofDigitChars_replicate_zero,
    Nat.mul_zero]

theorem ofDigits_append_zeros (ds : List Char) (k : Nat) :
    ofDigits (ds ++ List.replicate k '0') = ofDigits ds * 10 ^ k := by
  simp only [ofDigits_eq_ofDigitChars, Nat.ofDigitChars_append, Nat.ofDigitChars_replicate_zero,
    Nat.mul_comm]

theorem isDigit_toDigits (n : Nat) : ∀ c ∈ Nat.toDigits 10 n, c.isDigit = true :=
  fun _ hc => Nat.isDigit_of_mem_toDigits (by decide) (by decide) hc

/-! ## Signs -/

/-- A text with a minus before it, if the number is negative. -/
def withSign (negative : Bool) (cs : List Char) : List Char :=
  if negative then '-' :: cs else cs

theorem mem_withSign {negative : Bool} {cs : List Char} {c : Char} (h : c ∈ cs) :
    c ∈ withSign negative cs := by
  cases negative with
  | false => exact h
  | true => exact List.mem_cons_of_mem _ h

/-- A text that starts with a digit has no sign. -/
theorem takeSign_withSign (negative : Bool) {cs : List Char} (hne : cs ≠ [])
    (hhead : ∀ c ∈ cs.head?, c.isDigit = true) :
    takeSign (withSign negative cs) = (negative, cs) := by
  cases negative with
  | true => rfl
  | false =>
    obtain ⟨c, rest, rfl⟩ := List.exists_cons_of_ne_nil hne
    have hc : c.isDigit = true := hhead c rfl
    simp only [withSign, Bool.false_eq_true, if_false]
    unfold takeSign
    split
    next h =>
      cases h
      cases hc
    next h =>
      cases h
      cases hc
    next => rfl

theorem readWhole?_withSign (negative : Bool) {ds : List Char} (hne : ds ≠ [])
    (hdigits : ∀ c ∈ ds, c.isDigit = true) :
    readWhole? (withSign negative ds) = some (signed negative (ofDigits ds)) := by
  have hsign := takeSign_withSign negative hne fun c hc => hdigits c (List.mem_of_mem_head? hc)
  have hall : ds.all Char.isDigit = true := List.all_eq_true.2 hdigits
  simp [readWhole?, hsign, hne, hall]

theorem toList_toString (n : Int) :
    (toString n).toList = withSign (decide (n < 0)) (Nat.toDigits 10 n.natAbs) := by
  cases n with
  | ofNat m =>
    show (toString m).toList = _
    rw [Nat.toString_eq_ofList_toDigits, String.toList_ofList]
    simp [withSign]
  | negSucc m =>
    show ("-" ++ toString (m + 1)).toList = _
    rw [Nat.toString_eq_ofList_toDigits, String.toList_append, String.toList_ofList]
    simp [withSign, Int.negSucc_lt_zero]

theorem signed_natAbs (n : Int) : signed (decide (n < 0)) n.natAbs = n := by
  unfold signed
  split
  next h =>
    have := of_decide_eq_true h
    omega
  next h =>
    have := of_decide_eq_false (Bool.eq_false_iff.2 h)
    omega

/-- The text of an integer is read as this integer. -/
theorem readWhole?_toString (n : Int) : readWhole? (toString n).toList = some n := by
  rw [toList_toString, readWhole?_withSign _ Nat.toDigits_ne_nil (isDigit_toDigits _),
    ofDigits_toDigits, signed_natAbs]

end Number

/-! ## Texts of numbers -/

theorem Text.trim_eq_self {cs : List Char} (h : ∀ c ∈ cs, isBlank c = false) : trim cs = cs := by
  have hdrop {ds : List Char} (hds : ∀ c ∈ ds, isBlank c = false) : ds.dropWhile isBlank = ds := by
    cases ds with
    | nil => rfl
    | cons c rest => exact List.dropWhile_cons_of_neg (by simp [hds c List.mem_cons_self])
  rw [trim, hdrop h, trimEnd, hdrop fun c hc => h c (List.mem_reverse.1 hc), List.reverse_reverse]

namespace Numeric

theorem isBlank_of_isNumberChar {c : Char} (h : isNumberChar c = true) :
    Text.isBlank c = false := by
  simp only [isNumberChar, Bool.or_eq_true, beq_iff_eq] at h
  rcases h with ((((hdigit | rfl) | rfl) | rfl) | rfl) | rfl
  · have hrange := Char.isDigit_iff_toNat.1 hdigit
    have hlow : 48 ≤ c.toNat := hrange.1
    have hhigh : c.toNat ≤ 57 := hrange.2
    simp only [Text.isBlank, Bool.or_eq_false_iff, Bool.and_eq_false_iff, beq_eq_false_iff_ne,
      decide_eq_false_iff_not]
    omega
  all_goals rfl

theorem isNumberChar_of_isDigit {c : Char} (h : c.isDigit = true) : isNumberChar c = true := by
  simp [isNumberChar, h]

/-- A text of digits, signs, points and exponent marks is read as a word or as a decimal. -/
theorem read?_of_numberChars {s : String} (hchars : ∀ c ∈ s.toList, isNumberChar c = true)
    (hdigit : ∃ c ∈ s.toList, c.isDigit = true) :
    read? s = ((Number.readWord? s.toList).map whole).or
      (((Number.readDecimal? s.toList).filter Number.isFinite).map real) := by
  have htrim : Text.trim s.toList = s.toList :=
    Text.trim_eq_self fun c hc => isBlank_of_isNumberChar (hchars c hc)
  have hany : s.toList.any Char.isDigit = true := List.any_eq_true.2 hdigit
  have hall : s.toList.all isNumberChar = true := List.all_eq_true.2 hchars
  simp only [read?, htrim, hany, hall, Bool.and_self, if_true]
  cases Number.readWord? s.toList with
  | none => rfl
  | some n => rfl

theorem isNumberChar_withSign {negative : Bool} {cs : List Char}
    (h : ∀ c ∈ cs, isNumberChar c = true) :
    ∀ c ∈ Number.withSign negative cs, isNumberChar c = true := by
  cases negative with
  | false => exact h
  | true =>
    intro c hc
    rcases List.mem_cons.1 hc with rfl | hc
    · rfl
    · exact h c hc

/-- The text of an integer that fits a word is read as this integer. -/
theorem read?_toString {n : Int} (h : Number.fitsWord n) : read? (toString n) = some (whole n) := by
  have hchars : ∀ c ∈ (toString n).toList, isNumberChar c = true := by
    rw [Number.toList_toString]
    exact isNumberChar_withSign fun c hc =>
      isNumberChar_of_isDigit (Number.isDigit_toDigits _ c hc)
  have hdigit : ∃ c ∈ (toString n).toList, c.isDigit = true := by
    obtain ⟨c, hc⟩ := List.exists_mem_of_ne_nil _ (Nat.toDigits_ne_nil (n := n.natAbs) (b := 10))
    refine ⟨c, ?_, Number.isDigit_toDigits _ c hc⟩
    rw [Number.toList_toString]
    exact Number.mem_withSign hc
  rw [read?_of_numberChars hchars hdigit, Number.readWord?, Number.readWhole?_toString,
    Option.bind_some, Number.word?, if_pos h, Option.map_some, Option.some_or]

end Numeric

end CardScript
