import CardScript.Proofs.Text.Letters

/-!
# Lower-casing in context

A capital sigma is lower-cased by the letters around it, and in nothing else does the lower case of
a text depend on where the text stands: two contexts agree on a text unless the first character that
counts is a capital sigma and no letter follows it (`lowerFrom_context`). So whether the lower case
of a text starts with a pattern is the same in all contexts, but for patterns that open with a small
sigma which no letter follows (`prefix_lowerFrom_context`).
-/

namespace CardScript.Text

/-! ## The next letter -/

theorem casedNext_cons (c : Char) (cs : List Char) :
    casedNext (c :: cs) = if isIgnorable c then casedNext cs else isCased c := by
  unfold casedNext isIgnorable isCased
  by_cases h : inInversionList caseIgnorableChanges c = true
  · rw [if_pos h, List.dropWhile_cons_of_pos h]
  · rw [if_neg h, List.dropWhile_cons_of_neg h]

theorem casedNext_cons_congr {cs cs' : List Char} (c : Char) (h : casedNext cs = casedNext cs') :
    casedNext (c :: cs) = casedNext (c :: cs') := by
  rw [casedNext_cons, casedNext_cons, h]

theorem casedNext_of_ignorable {c : Char} (hc : isIgnorable c = true) (cs : List Char) :
    casedNext (c :: cs) = casedNext cs := by
  rw [casedNext_cons, if_pos hc]

theorem casedNext_of_counting {c : Char} (hc : isIgnorable c = false) (cs : List Char) :
    casedNext (c :: cs) = isCased c := by
  rw [casedNext_cons, hc, if_neg Bool.false_ne_true]

theorem casedNext_eq_false_of_prefix {cs cs' : List Char} (h : cs <+: cs')
    (hcs : casedNext cs' = false) : casedNext cs = false := by
  induction cs generalizing cs' with
  | nil => rfl
  | cons c cs ih =>
    obtain ⟨rest, rfl⟩ := h
    rw [List.cons_append, casedNext_cons] at hcs
    rw [casedNext_cons]
    split at hcs
    next hc => rw [if_pos hc, ih ⟨rest, rfl⟩ hcs]
    next hc => rw [if_neg hc, hcs]

/-! ## The lower case of a character -/

theorem cased_of_isLetter {c : Char} (h : isLetter c = true) : isCased c = true :=
  (Bool.and_eq_true_iff.1 h).1

theorem counts_of_isLetter {c : Char} (h : isLetter c = true) : isIgnorable c = false := by
  simpa using (Bool.and_eq_true_iff.1 h).2

theorem isLetter_capitalSigma : isLetter 'Σ' = true :=
  isLetter_of_areLetters rfl

theorem isLetter_smallSigma {s : Char} (hs : s = 'σ' ∨ s = 'ς') : isLetter s = true := by
  rcases hs with rfl | rfl
  · exact isLetter_of_areLetters rfl
  · exact isLetter_of_areLetters rfl

theorem isLetter_dottedCapital : isLetter 'İ' = true ∧ isLetter 'i' = true :=
  ⟨isLetter_of_areLetters rfl, isLetter_of_areLetters rfl⟩

theorem lowerAt_of_ignorable {c : Char} (hc : isIgnorable c = true) (before rest : List Char) :
    lowerAt before c rest = [c] := by
  have hnot : ¬isLetter c = true := fun h => by
    rw [counts_of_isLetter h] at hc
    cases hc
  have hsigma : c ≠ 'Σ' := by
    rintro rfl
    exact hnot isLetter_capitalSigma
  have hdotted : c ≠ 'İ' := by
    rintro rfl
    exact hnot isLetter_dottedCapital.1
  have hsame : lowerChar c = c := (lowerChar_letter c).resolve_right fun h => hnot h.1
  simp [lowerAt, hsigma, hdotted, hsame]

/-- Lower-casing a character begins with a character of its kind, and comes to no more than that
but for the dotted capital. -/
theorem lowerAt_eq_cons (before : List Char) (c : Char) (rest : List Char) :
    ∃ d ds, lowerAt before c rest = d :: ds ∧ isIgnorable d = isIgnorable c ∧
      isCased d = isCased c ∧ (c ≠ 'İ' ∧ ds = [] ∨ c = 'İ' ∧ d = 'i' ∧ ds = ['\u0307']) := by
  have hletters {c d : Char} (hc : isLetter c = true) (hd : isLetter d = true) :
      isIgnorable d = isIgnorable c ∧ isCased d = isCased c :=
    ⟨(counts_of_isLetter hd).trans (counts_of_isLetter hc).symm,
      (cased_of_isLetter hd).trans (cased_of_isLetter hc).symm⟩
  unfold lowerAt
  split
  next hsigma =>
    obtain rfl := eq_of_beq hsigma
    have hform (b : Bool) : isLetter (if b then 'ς' else 'σ') = true :=
      isLetter_smallSigma (by cases b <;> simp)
    obtain ⟨hcounts, hcased⟩ := hletters isLetter_capitalSigma (hform _)
    exact ⟨_, [], rfl, hcounts, hcased, .inl ⟨by decide, rfl⟩⟩
  next =>
    split
    next hdotted =>
      obtain rfl := eq_of_beq hdotted
      obtain ⟨hcounts, hcased⟩ := hletters isLetter_dottedCapital.1 isLetter_dottedCapital.2
      exact ⟨_, _, rfl, hcounts, hcased, .inr ⟨rfl, rfl, rfl⟩⟩
    next hdotted =>
      have hkind : isIgnorable (lowerChar c) = isIgnorable c ∧
          isCased (lowerChar c) = isCased c := by
        rcases lowerChar_letter c with hsame | ⟨hc, hd⟩
        · rw [hsame]
          exact ⟨rfl, rfl⟩
        · exact hletters hc hd
      exact ⟨_, [], rfl, hkind.1, hkind.2, .inl ⟨by simpa using hdotted, rfl⟩⟩

/-! ## The lower case of a text -/

/-- A context counts only by whether a letter is next in it. -/
theorem lowerFrom_congr {before before' : List Char} (h : casedNext before = casedNext before')
    (cs : List Char) : lowerFrom before cs = lowerFrom before' cs := by
  induction cs generalizing before before' with
  | nil => rfl
  | cons c cs ih =>
    rw [lowerFrom, lowerFrom, ih (casedNext_cons_congr c h)]
    simp only [lowerAt, h]

theorem lowerFrom_of_ignorable {c : Char} (hc : isIgnorable c = true) (before cs : List Char) :
    lowerFrom before (c :: cs) = c :: lowerFrom before cs := by
  rw [lowerFrom, lowerAt_of_ignorable hc, lowerFrom_congr (casedNext_of_ignorable hc before)]
  rfl

theorem lowerFrom_of_counting {c : Char} (hc : isIgnorable c = false) (before cs : List Char) :
    lowerFrom before (c :: cs) = lowerAt before c cs ++ lowerFrom [c] cs := by
  have hnext : casedNext (c :: before) = casedNext [c] := by
    rw [casedNext_of_counting hc, casedNext_of_counting hc]
  rw [lowerFrom, lowerFrom_congr hnext]

/-- A text and its lower case are the same context. -/
theorem casedNext_lowerFrom (before cs : List Char) :
    casedNext (lowerFrom before cs) = casedNext cs := by
  induction cs generalizing before with
  | nil => rfl
  | cons c cs ih =>
    rcases hc : isIgnorable c
    · obtain ⟨d, ds, hd, hcounts, hcased, -⟩ := lowerAt_eq_cons before c cs
      rw [lowerFrom, hd, List.cons_append, casedNext_of_counting (hcounts.trans hc),
        casedNext_of_counting hc, hcased]
    · rw [lowerFrom_of_ignorable hc, casedNext_of_ignorable hc, casedNext_of_ignorable hc, ih]

theorem length_lowerFrom (before cs : List Char) :
    (lowerFrom before cs).length = cs.length + cs.count 'İ' := by
  induction cs generalizing before with
  | nil => rfl
  | cons c cs ih =>
    obtain ⟨d, ds, hd, -, -, hshape⟩ := lowerAt_eq_cons before c cs
    rw [lowerFrom, hd, List.length_append, ih]
    rcases hshape with ⟨hplain, rfl⟩ | ⟨rfl, -, rfl⟩
    · rw [List.count_cons_of_ne hplain]
      simp only [List.length_cons, List.length_nil]
      omega
    · rw [List.count_cons_self]
      simp only [List.length_cons, List.length_nil]
      omega

theorem exists_lowerFrom_append (before front cs : List Char) :
    ∃ low, lowerFrom before (front ++ cs) = low ++ lowerFrom (front.reverse ++ before) cs := by
  induction front generalizing before with
  | nil => exact ⟨[], rfl⟩
  | cons c front ih =>
    obtain ⟨low, hlow⟩ := ih (c :: before)
    refine ⟨lowerAt before c (front ++ cs) ++ low, ?_⟩
    rw [List.cons_append, lowerFrom, hlow]
    simp

/-- A capital sigma behind characters that do not count. -/
theorem lowerFrom_sigma {skipped : List Char} (hskipped : ∀ c ∈ skipped, isIgnorable c = true)
    (before cs : List Char) : lowerFrom before (skipped ++ 'Σ' :: cs) =
      skipped ++
        (if casedNext before && !casedNext cs then 'ς' else 'σ') :: lowerFrom ['Σ'] cs := by
  induction skipped with
  | nil =>
    rw [List.nil_append, lowerFrom_of_counting (counts_of_isLetter isLetter_capitalSigma)]
    rfl
  | cons c skipped ih =>
    obtain ⟨hc, hrest⟩ := List.forall_mem_cons.1 hskipped
    rw [List.cons_append, lowerFrom_of_ignorable hc, ih hrest]
    rfl

/-- Two contexts agree on a text, unless its first letter is a capital sigma that no letter
follows. -/
theorem lowerFrom_context (before before' cs : List Char) :
    lowerFrom before cs = lowerFrom before' cs ∨
      ∃ skipped rest, cs = skipped ++ 'Σ' :: rest ∧ (∀ c ∈ skipped, isIgnorable c = true) ∧
        casedNext rest = false := by
  induction cs with
  | nil => exact .inl rfl
  | cons c cs ih =>
    rcases hc : isIgnorable c
    · rw [lowerFrom_of_counting hc, lowerFrom_of_counting hc]
      by_cases hsigma : c = 'Σ'
      · rcases hnext : casedNext cs
        · exact .inr ⟨[], cs, by rw [hsigma]; rfl, by simp, hnext⟩
        · exact .inl (by simp [lowerAt, hsigma, hnext])
      · exact .inl (by simp [lowerAt, hsigma])
    · rw [lowerFrom_of_ignorable hc, lowerFrom_of_ignorable hc]
      refine ih.imp (congrArg _) fun ⟨skipped, rest, hcs, hskipped, hnext⟩ => ?_
      exact ⟨c :: skipped, rest, by rw [hcs]; rfl, List.forall_mem_cons.2 ⟨hc, hskipped⟩, hnext⟩

/-! ## Beginnings that depend on the context -/

/-- The first character that counts is a small sigma, and no letter follows it: the lower case of a
capital sigma in some contexts, and not in others. -/
def opensWithSigma : List Char → Bool
  | [] => false
  | c :: cs =>
    if isIgnorable c then opensWithSigma cs else (c == 'σ' || c == 'ς') && !casedNext cs

theorem opensWithSigma_append {skipped : List Char}
    (hskipped : ∀ c ∈ skipped, isIgnorable c = true) (cs : List Char) :
    opensWithSigma (skipped ++ cs) = opensWithSigma cs := by
  induction skipped with
  | nil => rfl
  | cons c skipped ih =>
    obtain ⟨hc, hrest⟩ := List.forall_mem_cons.1 hskipped
    rw [List.cons_append, opensWithSigma, if_pos hc, ih hrest]

theorem opensWithSigma_of_sigma {s : Char} {cs : List Char} (hs : s = 'σ' ∨ s = 'ς')
    (hcs : casedNext cs = false) : opensWithSigma (s :: cs) = true := by
  simp [opensWithSigma, counts_of_isLetter (isLetter_smallSigma hs), hs, hcs]

/-- How a lower-cased text begins does not depend on the context, unless it opens with a sigma that
may have been a capital. -/
theorem prefix_lowerFrom_context {before cs pattern : List Char} (before' : List Char)
    (hsigma : 'Σ' ∈ cs → opensWithSigma pattern = false) (h : pattern <+: lowerFrom before cs) :
    pattern <+: lowerFrom before' cs := by
  rcases lowerFrom_context before before' cs with hsame | ⟨skipped, rest, rfl, hskipped, hnext⟩
  · rwa [← hsame]
  · rw [lowerFrom_sigma hskipped] at h ⊢
    rcases List.prefix_or_prefix_of_prefix h (List.prefix_append skipped _) with
      hshort | ⟨tail, rfl⟩
    · exact hshort.trans (List.prefix_append ..)
    · have hclosed := hsigma (by simp)
      rw [opensWithSigma_append hskipped] at hclosed
      rw [List.prefix_append_right_inj] at h ⊢
      rcases List.prefix_cons_iff.1 h with rfl | ⟨low, rfl, hlow⟩
      · exact List.nil_prefix
      · -- Such a pattern would open with the very sigma on which the contexts differ.
        have hlast : casedNext low = false :=
          casedNext_eq_false_of_prefix hlow ((casedNext_lowerFrom _ _).trans hnext)
        rw [opensWithSigma_of_sigma (by split <;> simp) hlast] at hclosed
        cases hclosed

/-- A lower-cased text that opens with a sigma is what a capital sigma in its place comes to, but
for the sigma. -/
theorem exists_of_opensWithSigma {before cs : List Char}
    (h : opensWithSigma (lowerFrom before cs) = true) :
    ∃ skipped s rest, (∀ c ∈ skipped, isIgnorable c = true) ∧ (s = 'σ' ∨ s = 'ς') ∧
      casedNext rest = false ∧ lowerFrom before cs = skipped ++ s :: lowerFrom ['Σ'] rest := by
  induction cs with
  | nil => cases h
  | cons c cs ih =>
    rcases hc : isIgnorable c
    · obtain ⟨d, ds, hd, hcounts, hcased, hshape⟩ := lowerAt_eq_cons before c cs
      rw [lowerFrom_of_counting hc, hd] at h ⊢
      simp only [List.cons_append, opensWithSigma, hcounts.trans hc, Bool.false_eq_true, if_false,
        Bool.and_eq_true, Bool.or_eq_true, beq_iff_eq, Bool.not_eq_true'] at h
      obtain ⟨hs, hnext⟩ := h
      have hds : ds = [] := by
        rcases hshape with ⟨-, hds⟩ | ⟨-, rfl, -⟩
        · exact hds
        · exact absurd hs (by decide)
      subst hds
      have hletter : isCased c = true := hcased ▸ cased_of_isLetter (isLetter_smallSigma hs)
      have hcontext : casedNext [c] = casedNext ['Σ'] := by
        rw [casedNext_of_counting hc,
          casedNext_of_counting (counts_of_isLetter isLetter_capitalSigma), hletter,
          cased_of_isLetter isLetter_capitalSigma]
      refine ⟨[], d, cs, by simp, hs, (casedNext_lowerFrom _ _).symm.trans hnext, ?_⟩
      rw [lowerFrom_congr hcontext]
      rfl
    · rw [lowerFrom_of_ignorable hc] at h ⊢
      rw [opensWithSigma, if_pos hc] at h
      obtain ⟨skipped, s, rest, hskipped, hs, hnext, hlow⟩ := ih h
      refine ⟨c :: skipped, s, rest, List.forall_mem_cons.2 ⟨hc, hskipped⟩, hs, hnext, ?_⟩
      rw [hlow]
      rfl

end CardScript.Text
