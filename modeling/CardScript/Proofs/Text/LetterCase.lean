import CardScript.Text.Lowercase

/-!
# Letter case of names

Names are looked up by their lower-cased form, and compared with a few fixed names up to the case
of ASCII letters. The two agree on names of ASCII letters other than `k`
(`sameIgnoringAsciiCase_of_lowerString`): the Kelvin sign is the only character beyond ASCII whose
lower case is an ASCII letter alone.
-/

namespace CardScript.Text

/-- An ASCII letter in lower case that is the lower case of no character beyond ASCII. -/
def isPlainLetter (c : Char) : Bool :=
  c.isLower && c != 'k'

theorem isPlainLetter_iff {c : Char} :
    isPlainLetter c = true ↔ (97 ≤ c.toNat ∧ c.toNat ≤ 122) ∧ c ≠ 'k' := by
  have hlower : c.isLower = (decide (97 ≤ c.toNat) && decide (c.toNat ≤ 122)) := rfl
  rw [isPlainLetter, hlower, Bool.and_eq_true, Bool.and_eq_true, decide_eq_true_iff,
    decide_eq_true_iff, bne_iff_ne]

/-- Beyond ASCII, lower-casing stays there, but for the Kelvin sign. -/
theorem lowerRuns_beyond_ascii : ∀ run ∈ lowerRuns,
    128 ≤ (run.first : Int) + run.shift ∨
      run.first = run.last ∧ (run.first : Int) + run.shift = 107 := by
  decide +kernel

theorem lowerChar_beyond_ascii {c : Char} (h : 128 ≤ c.toNat) :
    isPlainLetter (lowerChar c) = false := by
  rw [Bool.eq_false_iff, Ne, isPlainLetter_iff, lowerChar, if_neg (by omega)]
  rintro ⟨⟨hleast, hmost⟩, hk⟩
  split at hleast
  next run hrun =>
    have hfound := List.find?_some hrun
    simp only [hrun] at hmost hk
    simp only [Bool.and_eq_true, decide_eq_true_eq, beq_iff_eq] at hfound
    obtain ⟨⟨hfirst, hlast⟩, -⟩ := hfound
    rcases lowerRuns_beyond_ascii run (List.mem_of_find?_eq_some hrun) with hfar | ⟨hone, hkelvin⟩
    · have hcode (n : Nat) : (Char.ofNat n).toNat = n ∨ (Char.ofNat n).toNat = 0 := by
        by_cases hvalid : n.isValidChar
        · exact .inl (congrArg Char.toNat (dif_pos hvalid))
        · exact .inr (congrArg Char.toNat (dif_neg hvalid))
      rcases hcode ((c.toNat : Int) + run.shift).toNat with hvalid | hinvalid <;> omega
    · have hcode : ((c.toNat : Int) + run.shift).toNat = 107 := by omega
      rw [hcode] at hk
      exact hk rfl
  next hnone =>
    simp only [hnone] at hmost
    omega

theorem toLower_of_lowerChar {c d : Char} (hd : isPlainLetter d = true) (h : lowerChar c = d) :
    c.toLower = d := by
  rcases Nat.lt_or_ge c.toNat 128 with hascii | hbeyond
  · rwa [lowerChar, if_pos hascii] at h
  · rw [← h, lowerChar_beyond_ascii hbeyond] at hd
    cases hd

theorem map_toLower_of_lowerFrom (before : List Char) {cs key : List Char}
    (hkey : ∀ d ∈ key, isPlainLetter d = true) (h : lowerFrom before cs = key) :
    cs.map Char.toLower = key := by
  induction cs generalizing before key with
  | nil => exact h
  | cons c rest ih =>
    subst h
    have hat : ∀ d ∈ lowerAt before c rest, isPlainLetter d = true := fun d hd =>
      hkey d (List.mem_append_left _ hd)
    have hrest := ih (c :: before) (fun d hd => hkey d (List.mem_append_right _ hd)) rfl
    rw [List.map_cons, hrest, lowerFrom]
    unfold lowerAt at hat ⊢
    split at hat
    · have hsigma := hat _ List.mem_cons_self
      split at hsigma <;> exact absurd hsigma (by decide)
    · split at hat
      · exact absurd (hat '\u0307' (by simp)) (by decide)
      next hplain hdotted =>
        rw [if_neg hplain, if_neg hdotted]
        have hletter := toLower_of_lowerChar (hat _ List.mem_cons_self) rfl
        rw [hletter, List.singleton_append]

/-- Names that are looked up alike are the same up to the case of ASCII letters. -/
theorem sameIgnoringAsciiCase_of_lowerString {name name' : String}
    (hkey : ∀ d ∈ (lowerString name').toList, isPlainLetter d = true)
    (h : lowerString name = lowerString name') : sameIgnoringAsciiCase name name' = true := by
  have hsame (s : String) (hs : lowerString s = lowerString name') :
      s.toList.map Char.toLower = (lowerString name').toList := by
    rw [← hs, lowerString, String.toList_ofList]
    refine map_toLower_of_lowerFrom [] ?_ rfl
    intro d hd
    refine hkey d ?_
    rwa [← hs, lowerString, String.toList_ofList]
  rw [sameIgnoringAsciiCase, hsame name h, hsame name' rfl]
  exact beq_self_eq_true _

end CardScript.Text
