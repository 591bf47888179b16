import CardScript.Value.Arithmetic
import CardScript.Proofs.Number.Overflow
import CardScript.Proofs.Value.Reading

/-!
# Exact arithmetic

Two values that count as integers are added, subtracted and multiplied exactly while the result
fits a word, and become a finite double otherwise (`arithmetic_exact`). Division by anything but
zero succeeds, and is exact but for the one quotient of words that fits no word
(`fitsWord_tdiv`). All of this is put together in `integer_arithmetic`.
-/

namespace CardScript.Value

open Number

/-! ## Operands -/

/-- The integer that a value stands for in arithmetic: a blank text stands for zero. -/
inductive CountsAs (v : Value) : ℤ → Prop where
  | blank (h : Text.trim v.text.toList = []) : CountsAs v 0
  | whole {n : ℤ} (h : Text.trim v.text.toList ≠ []) (hn : v.numeric? = some (.whole n)) :
    CountsAs v n

theorem countsAs_ofText {s : String} {n : ℤ} (h : WritesWord (Text.trim s.toList) n) :
    CountsAs (ofText s) n := by
  refine .whole ?_ (Numeric.read?_eq_whole_iff.2 h)
  obtain ⟨⟨w, hchars, -⟩, -⟩ := h
  show Text.trim s.toList ≠ []
  rw [← hchars]
  exact List.append_ne_nil_of_right_ne_nil _ w.ne_nil

theorem countsAs_ofInt {n : ℤ} (hn : fitsWord n = true) : CountsAs (ofInt n) n := by
  have hwrites : WritesWord (Text.trim (toString n).toList) n :=
    Numeric.read?_eq_whole_iff.1 (Numeric.read?_toString hn)
  cases countsAs_ofText hwrites with
  | blank h => exact .blank h
  | whole h _ => exact .whole h rfl

section

variable {v w : Value} {a b : ℤ}

theorem CountsAs.operand_eq (hv : v.CountsAs a) (operator : String) (side : Side) :
    operand operator side v = .ok (.whole a) := by
  unfold operand
  cases hv with
  | blank h => rw [h, List.isEmpty_nil, if_pos rfl]
  | whole h hn => rw [if_neg (by rwa [List.isEmpty_iff]), hn]

theorem operands_eq (hv : v.CountsAs a) (hw : w.CountsAs b) (operator : String) :
    operands operator v w = .ok (.whole a, .whole b) := by
  rw [operands, hv.operand_eq, hw.operand_eq]
  rfl

theorem divisionOperands_eq (hv : v.CountsAs a) (hw : w.CountsAs b) (hb : fitsWord b = true)
    (operator : String) :
    divisionOperands operator v w =
      if b = 0 then .error (.semantic .divisionByZero) else .ok (.whole a, .whole b) := by
  have hzero := beq_zero_iff hb
  rw [divisionOperands, operands_eq hv hw]
  show (if (Float.ofInt b == 0) = true then _ else _) = _
  simp only [hzero]
  rfl

/-! ## Results -/

/-- An operation gives the value of an integer. -/
def GivesInteger (result : Except Failure Value) (n : ℤ) : Prop :=
  ∃ u, result = .ok u ∧ u.text = toString n ∧ u.numeric? = some (.whole n)

/-- An operation gives the value of a finite double. -/
def GivesReal (result : Except Failure Value) : Prop :=
  ∃ u x, result = .ok u ∧ u.numeric? = some (.real x) ∧ isFinite x = true

/-- An operation gives an integer exactly if it fits a word, and a double otherwise. -/
def GivesExactly (result : Except Failure Value) (n : ℤ) : Prop :=
  (fitsWord n = true → GivesInteger result n) ∧ (fitsWord n = false → GivesReal result)

theorem givesInteger_ofInt (n : ℤ) : GivesInteger (.ok (ofInt n)) n :=
  ⟨_, rfl, rfl, rfl⟩

theorem givesReal_ofFinite {x : Float} (h : isFinite x = true) (operator : String) :
    GivesReal (ofFinite operator x) :=
  ⟨ofFloat x, x, if_pos h, rfl, h⟩

/-- Exact on integers whose result fits a word, and finite otherwise. -/
theorem arithmetic_exact (hv : v.CountsAs a) (hw : w.CountsAs b) (operator : String)
    (exact : ℤ → ℤ → ℤ) {real : Float → Float → Float}
    (hreal : isFinite (real (Float.ofInt a) (Float.ofInt b)) = true) :
    GivesExactly (arithmetic operator exact real v w) (exact a b) := by
  constructor
  · intro hfits
    have hresult : arithmetic operator exact real v w = .ok (ofInt (exact a b)) := by
      rw [arithmetic, operands_eq hv hw]
      simp only [bind, Except.bind, word?_of_fitsWord hfits]
      rfl
    rw [hresult]
    exact givesInteger_ofInt _
  · intro hfits
    have hresult : arithmetic operator exact real v w =
        ofFinite operator (real (Float.ofInt a) (Float.ofInt b)) := by
      rw [arithmetic, operands_eq hv hw]
      simp only [bind, Except.bind, word?_eq_none_iff.2 hfits]
      rfl
    rw [hresult]
    exact givesReal_ofFinite hreal operator

/-! ## Division -/

/-- The quotient of two words fits a word but for one pair. -/
theorem fitsWord_tdiv (ha : fitsWord a = true) (hzero : b ≠ 0)
    (hpair : ¬ (a = wordMin ∧ b = -1)) : fitsWord (a.tdiv b) = true := by
  have hmin : wordMin = -9223372036854775808 := rfl
  rw [fitsWord_iff] at ha ⊢
  by_cases hone : b.natAbs = 1
  · obtain rfl | rfl : b = 1 ∨ b = -1 := by omega
    · rwa [Int.tdiv_one]
    · rw [Int.tdiv_neg, Int.tdiv_one]
      omega
  · have hhalf : (a.tdiv b).natAbs ≤ a.natAbs / 2 := by
      rw [Int.natAbs_tdiv]
      exact Nat.div_le_div_left (by omega) two_pos
    omega

theorem tdiv_cases (ha : fitsWord a = true) (hzero : b ≠ 0) :
    word? (a.tdiv b) = some (a.tdiv b) ∨ a = wordMin ∧ b = -1 := by
  by_cases hpair : a = wordMin ∧ b = -1
  · exact .inr hpair
  · exact .inl (word?_of_fitsWord (fitsWord_tdiv ha hzero hpair))

/-- What follows from the quotient is exact, but for the pair whose quotient fits no word. -/
theorem exact_or_real (ha : fitsWord a = true) (hzero : b ≠ 0) {result : Except Failure Value}
    {n : ℤ} (operator : String) (x : Float)
    (hsome : word? (a.tdiv b) = some (a.tdiv b) → result = .ok (ofInt n))
    (hnone : word? (a.tdiv b) = none → result = ofFinite operator x)
    (hx : a = wordMin → b = -1 → isFinite x = true) :
    result = .ok (ofInt n) ∨ (a = wordMin ∧ b = -1) ∧ GivesReal result := by
  rcases tdiv_cases ha hzero with hword | ⟨hfirst, hsecond⟩
  · exact .inl (hsome hword)
  · have hword : word? (a.tdiv b) = none := by
      rw [hfirst, hsecond]
      decide
    rw [hnone hword]
    exact .inr ⟨⟨hfirst, hsecond⟩, givesReal_ofFinite (hx hfirst hsecond) operator⟩

/-- Division by zero fails, whichever way the operation goes on. -/
theorem error_of_zero {α : Type} (hv : v.CountsAs a) (hw : w.CountsAs 0) (operator : String)
    (next : Numeric × Numeric → Except Failure α) :
    divisionOperands operator v w >>= next = .error (.semantic .divisionByZero) := by
  rw [divisionOperands_eq hv hw (by decide), if_pos rfl]
  rfl

section

variable (hv : v.CountsAs a) (ha : fitsWord a = true) (hw : w.CountsAs b) (hb : fitsWord b = true)
  (hzero : b ≠ 0)
include hv ha hw hb hzero

theorem div_cases :
    v.div w = .ok (ofInt (a.tdiv b)) ∨ (a = wordMin ∧ b = -1) ∧ GivesReal (v.div w) := by
  rw [div, divisionOperands_eq hv hw hb, if_neg hzero]
  refine exact_or_real ha hzero "div" (truncate (Float.ofInt a / Float.ofInt b)) ?_ ?_ ?_
  · intro hword
    simp only [bind, Except.bind, hword]
    rfl
  · intro hword
    simp only [bind, Except.bind, hword]
    rfl
  · rintro rfl rfl
    decide +kernel

theorem mod_cases :
    v.mod w = .ok (ofInt (a.tmod b)) ∨ (a = wordMin ∧ b = -1) ∧ GivesReal (v.mod w) := by
  rw [mod, divisionOperands_eq hv hw hb, if_neg hzero]
  refine exact_or_real ha hzero "mod" (remainder (Float.ofInt a) (Float.ofInt b)) ?_ ?_ ?_
  · intro hword
    simp only [bind, Except.bind, hword]
    rfl
  · intro hword
    simp only [bind, Except.bind, hword]
    rfl
  · rintro rfl rfl
    decide +kernel

theorem divide_cases :
    (a.tmod b = 0 ∧ v.divide w = .ok (ofInt (a.tdiv b))) ∨
      (a.tmod b ≠ 0 ∨ a = wordMin ∧ b = -1) ∧ GivesReal (v.divide w) := by
  have hfinite := isFinite_div ha hb hzero
  rw [divide, divisionOperands_eq hv hw hb, if_neg hzero]
  by_cases heven : a.tmod b = 0
  · refine Or.imp (fun hok => ⟨heven, hok⟩) (fun h => ⟨.inr h.1, h.2⟩)
      (exact_or_real ha hzero "divide" (Float.ofInt a / Float.ofInt b) ?_ ?_ fun _ _ => hfinite)
    · intro hword
      simp only [bind, Except.bind, hword, heven]
      rfl
    · intro hword
      simp only [bind, Except.bind, hword]
      rfl
  · refine .inr ⟨.inl heven, ?_⟩
    have hodd : (a.tmod b == 0) = false := beq_eq_false_iff_ne.2 heven
    have hresult := givesReal_ofFinite hfinite "divide"
    cases hword : word? (a.tdiv b) with
    | none =>
      simp only [bind, Except.bind, hword]
      exact hresult
    | some q =>
      simp only [bind, Except.bind, hword, hodd]
      exact hresult

end

/-- An operation that gives a value unless something is zero fails just when it is. -/
theorem exists_error_iff {result : Except Failure Value} {failure : Failure}
    (hzero : b = 0 → result = .error failure) (hvalue : b ≠ 0 → ∃ u, result = .ok u) :
    (∃ failure, result = .error failure) ↔ b = 0 := by
  refine ⟨fun ⟨failure, herror⟩ => ?_, fun h => ⟨failure, hzero h⟩⟩
  by_contra hne
  obtain ⟨u, hu⟩ := hvalue hne
  cases herror.symm.trans hu

end

/-- **Arithmetic on integers is exact while it can be.** Sums, differences and products of words are
exact if they fit a word, and finite doubles otherwise. Division fails for a divisor of zero and
for no other. But for the one pair whose quotient fits no word, `div` and `mod` give a quotient and
a remainder with the sign of the dividend, and `divide` gives the exact quotient if there is one. -/
theorem integer_arithmetic {v w : Value} {a b : ℤ} (hv : v.CountsAs a) (ha : fitsWord a = true)
    (hw : w.CountsAs b) (hb : fitsWord b = true) :
    GivesExactly (v.add w) (a + b) ∧ GivesExactly (v.subtract w) (a - b) ∧
    GivesExactly (v.multiply w) (a * b) ∧
    ((∃ failure, v.divide w = .error failure) ↔ b = 0) ∧
    ((∃ failure, v.div w = .error failure) ↔ b = 0) ∧
    ((∃ failure, v.mod w = .error failure) ↔ b = 0) ∧
    (b ≠ 0 → ¬ (a = wordMin ∧ b = -1) →
      (∃ q r, GivesInteger (v.div w) q ∧ GivesInteger (v.mod w) r ∧ a = q * b + r ∧ |r| < |b| ∧
        (r = 0 ∨ r.sign = a.sign)) ∧
      ∀ q, a = q * b → GivesInteger (v.divide w) q) := by
  refine ⟨?_, ?_, ?_, ?_, ?_, ?_, fun hzero hpair => ⟨?_, ?_⟩⟩
  · exact arithmetic_exact hv hw "add" (· + ·) (isFinite_add ha hb)
  · exact arithmetic_exact hv hw "subtract" (· - ·) (isFinite_sub ha hb)
  · exact arithmetic_exact hv hw "multiply" (· * ·) (isFinite_mul ha hb)
  · refine exists_error_iff (fun h => error_of_zero hv (h ▸ hw) "divide" _) fun hzero => ?_
    rcases divide_cases hv ha hw hb hzero with ⟨-, hok⟩ | ⟨-, u, x, hok, -⟩
    · exact ⟨_, hok⟩
    · exact ⟨u, hok⟩
  · refine exists_error_iff (fun h => error_of_zero hv (h ▸ hw) "div" _) fun hzero => ?_
    rcases div_cases hv ha hw hb hzero with hok | ⟨-, u, x, hok, -⟩
    · exact ⟨_, hok⟩
    · exact ⟨u, hok⟩
  · refine exists_error_iff (fun h => error_of_zero hv (h ▸ hw) "mod" _) fun hzero => ?_
    rcases mod_cases hv ha hw hb hzero with hok | ⟨-, u, x, hok, -⟩
    · exact ⟨_, hok⟩
    · exact ⟨u, hok⟩
  · have hdiv := (div_cases hv ha hw hb hzero).resolve_right fun h => hpair h.1
    have hmod := (mod_cases hv ha hw hb hzero).resolve_right fun h => hpair h.1
    refine ⟨a.tdiv b, a.tmod b, hdiv ▸ givesInteger_ofInt _, hmod ▸ givesInteger_ofInt _, ?_, ?_,
      ?_⟩
    · rw [Int.mul_comm]
      exact (Int.mul_tdiv_add_tmod a b).symm
    · rw [Int.abs_eq_natAbs, Int.abs_eq_natAbs, Int.natAbs_tmod]
      exact_mod_cast Nat.mod_lt _ (Int.natAbs_pos.2 hzero)
    · have hsign := Int.sign_tmod a b
      split at hsign
      · exact .inl (Int.sign_eq_zero_iff_zero.1 hsign)
      · exact .inr hsign
  · rintro q rfl
    rcases divide_cases hv ha hw hb hzero with ⟨-, hok⟩ | ⟨hodd | hfirst, -⟩
    · rw [hok, Int.mul_tdiv_cancel q hzero]
      exact givesInteger_ofInt q
    · exact absurd (Int.mul_tmod_left q b) hodd
    · exact absurd hfirst hpair

/-- The largest word and a blank-padded one: their sum is a double, their quotient the word. -/
theorem integer_arithmetic_largestWord :
    GivesReal ((ofInt wordMax).add (ofText " 1 ")) ∧
      GivesInteger ((ofInt wordMax).divide (ofText " 1 ")) wordMax := by
  have hone : (ofText " 1 ").CountsAs 1 := .whole (by decide) rfl
  have hmax : fitsWord wordMax = true := by decide
  have hfacts := integer_arithmetic (countsAs_ofInt hmax) hmax hone (by decide)
  exact ⟨hfacts.1.2 (by decide), (hfacts.2.2.2.2.2.2 (by decide) (by decide)).2 wordMax (by decide)⟩

end CardScript.Value
