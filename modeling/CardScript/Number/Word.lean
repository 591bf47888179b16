/-!
# Word-sized integers

Whole numbers are exact while they fit a signed word of sixty-four bits.
-/

namespace CardScript.Number

/-- A power of two. -/
abbrev twoTo (n : Nat) : Nat := Nat.pow 2 n

/-- A power of ten. -/
abbrev tenTo (n : Nat) : Nat := Nat.pow 10 n

def wordMin : Int := -9223372036854775808

def wordMax : Int := 9223372036854775807

/-- The number of words of sixty-four bits: the first number that does not fit an unsigned one. -/
def wordCount : Nat := 18446744073709551616

/-- The number of words of thirty-two bits. -/
def halfWordCount : Nat := 4294967296

def fitsWord (n : Int) : Bool :=
  wordMin ≤ n && n ≤ wordMax

/-- `n` itself if it fits a word. -/
def word? (n : Int) : Option Int :=
  if fitsWord n then some n else none

theorem fitsWord_iff {n : Int} :
    fitsWord n = true ↔ -9223372036854775808 ≤ n ∧ n ≤ 9223372036854775807 := by
  rw [fitsWord, Bool.and_eq_true, decide_eq_true_eq, decide_eq_true_eq, wordMin, wordMax]

theorem word?_of_fitsWord {n : Int} (h : fitsWord n = true) : word? n = some n :=
  if_pos h

theorem word?_eq_none_iff {n : Int} : word? n = none ↔ fitsWord n = false := by
  cases h : fitsWord n <;> simp [word?, h]

theorem word?_eq_some_iff {n k : Int} : word? n = some k ↔ fitsWord n = true ∧ n = k := by
  cases h : fitsWord n <;> simp [word?, h]

end CardScript.Number
