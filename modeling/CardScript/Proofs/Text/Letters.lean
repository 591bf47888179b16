import CardScript.Text.Lowercase

/-!
# Letters and lower case

A word is looked at as a row of letters: characters that are cased and not case-ignorable. What
lower-casing changes are letters, and it makes letters of them (`lowerChar_letter`). The mapping is
given as runs and the two properties as inversion lists; a list of ranges that lie on one side of
every change stands between them, so that a run is checked at its ends.
-/

namespace CardScript.Text

/-- Passed over in the search for the next letter of a word. -/
def isIgnorable (c : Char) : Bool :=
  inInversionList caseIgnorableChanges c

def isCased (c : Char) : Bool :=
  inInversionList casedChanges c

/-- Counts as a letter of a word. -/
def isLetter (c : Char) : Bool :=
  isCased c && !isIgnorable c

/-! ## Ranges of letters -/

/-- Membership of a code point in an inversion list. -/
def memberAt (changes : List Nat) (n : Nat) : Bool :=
  (changes.takeWhile (· ≤ n)).length % 2 == 1

/-- Every code point of `ranges`, which ascend from `lo`, is in the inversion list or not as
`want` says. `changes` are those after `lo`, and `inside` is membership before them. -/
def spans (want : Bool) : (inside : Bool) → (lo : Nat) → (changes : List Nat) →
    (ranges : List (Nat × Nat)) → Bool
  | _, _, _, [] => true
  | inside, lo, changes, (first, last) :: ranges =>
    lo ≤ first && (inside ^^ memberAt changes first) == want &&
      match changes.dropWhile (· ≤ first) with
      | [] => spans want want first [] ranges
      | change :: ahead => last < change && spans want want first (change :: ahead) ranges

/-- Ranges of code points that are cased and not case-ignorable, each with its ends. The characters
with a lower case and their lower cases lie in them. -/
def letterRanges : List (Nat × Nat) := [
  (0x41, 0x5a), (0x61, 0x7a), (0xc0, 0xd6), (0xd8, 0xf6), (0xf8, 0x1ba), (0x1bc, 0x1bf),
  (0x1c4, 0x293), (0x296, 0x2af), (0x370, 0x373), (0x376, 0x377), (0x37b, 0x37d), (0x37f, 0x37f),
  (0x386, 0x386), (0x388, 0x38a), (0x38c, 0x38c), (0x38e, 0x3a1), (0x3a3, 0x3f5), (0x3f7, 0x481),
  (0x48a, 0x52f), (0x531, 0x556), (0x560, 0x588), (0x10a0, 0x10c5), (0x10c7, 0x10c7),
  (0x10cd, 0x10cd), (0x10d0, 0x10fa), (0x10fd, 0x10ff), (0x13a0, 0x13f5), (0x13f8, 0x13fd),
  (0x1c80, 0x1c8a), (0x1c90, 0x1cba), (0x1cbd, 0x1cbf), (0x1d79, 0x1d9a), (0x1e00, 0x1f15),
  (0x1f18, 0x1f1d), (0x1f20, 0x1f45), (0x1f48, 0x1f4d), (0x1f50, 0x1f57), (0x1f59, 0x1f59),
  (0x1f5b, 0x1f5b), (0x1f5d, 0x1f5d), (0x1f5f, 0x1f7d), (0x1f80, 0x1fb4), (0x1fb6, 0x1fbc),
  (0x1fc2, 0x1fc4), (0x1fc6, 0x1fcc), (0x1fd0, 0x1fd3), (0x1fd6, 0x1fdb), (0x1fe0, 0x1fec),
  (0x1ff2, 0x1ff4), (0x1ff6, 0x1ffc), (0x2126, 0x2126), (0x212a, 0x212d), (0x212f, 0x2134),
  (0x214e, 0x214e), (0x2160, 0x217f), (0x2183, 0x2184), (0x24b6, 0x24e9), (0x2c00, 0x2c7b),
  (0x2c7e, 0x2ce4), (0x2ceb, 0x2cee), (0x2cf2, 0x2cf3), (0x2d00, 0x2d25), (0x2d27, 0x2d27),
  (0x2d2d, 0x2d2d), (0xa640, 0xa66d), (0xa680, 0xa69b), (0xa722, 0xa76f), (0xa771, 0xa787),
  (0xa78b, 0xa78e), (0xa790, 0xa7dc), (0xa7f5, 0xa7f6), (0xab30, 0xab5a), (0xab70, 0xabbf),
  (0xff21, 0xff3a), (0xff41, 0xff5a), (0x10400, 0x1044f), (0x104b0, 0x104d3), (0x104d8, 0x104fb),
  (0x10570, 0x1057a), (0x1057c, 0x1058a), (0x1058c, 0x10592), (0x10594, 0x10595),
  (0x10597, 0x105a1), (0x105a3, 0x105b1), (0x105b3, 0x105b9), (0x105bb, 0x105bc),
  (0x10c80, 0x10cb2), (0x10cc0, 0x10cf2), (0x10d50, 0x10d65), (0x10d70, 0x10d85),
  (0x118a0, 0x118df), (0x16e40, 0x16e7f), (0x16ea0, 0x16eb8), (0x16ebb, 0x16ed3),
  (0x1e900, 0x1e943)]

/-- A range of code points within one of the `letterRanges`. -/
def areLetters (first last : Nat) : Bool :=
  letterRanges.any fun r => r.1.ble first && last.ble r.2

namespace CaseRun

def sources (run : CaseRun) : List Nat :=
  List.range' run.first ((run.last - run.first) / run.step + 1) run.step

def image (run : CaseRun) (n : Nat) : Nat :=
  ((n : Int) + run.shift).toNat

/-- A run from letters to letters, checked at its ends where these lie in one range. -/
def keepsLetters (run : CaseRun) : Bool :=
  -- a run in steps may pass over code points that are no letters
  (areLetters run.first run.last || run.sources.all fun n => areLetters n n) &&
    areLetters (run.image run.first) (run.image run.last)

end CaseRun

theorem memberAt_cons (change : Nat) (changes : List Nat) (n : Nat) :
    memberAt (change :: changes) n = (decide (change ≤ n) && !memberAt changes n) := by
  by_cases h : change ≤ n
  · rcases Nat.mod_two_eq_zero_or_one (changes.takeWhile (· ≤ n)).length with hpar | hpar <;>
      simp [memberAt, h, Nat.add_mod, hpar]
  · simp [memberAt, h]

/-- The changes up to `lo` and those after it count apart. -/
theorem memberAt_split {changes : List Nat} {lo n : Nat} (hn : lo ≤ n) :
    memberAt changes n = (memberAt changes lo ^^ memberAt (changes.dropWhile (· ≤ lo)) n) := by
  induction changes with
  | nil => rfl
  | cons change changes ih =>
    by_cases h : change ≤ lo
    · rw [memberAt_cons, memberAt_cons, List.dropWhile_cons_of_pos (by simpa using h), ih]
      simp [h, Nat.le_trans h hn]
    · rw [List.dropWhile_cons_of_neg (by simpa using h), memberAt_cons _ _ lo]
      simp [h]

/-- A walk that succeeds is right about every code point of the ranges. -/
theorem spans_sound {want inside : Bool} {lo : Nat} {changes : List Nat}
    {ranges : List (Nat × Nat)} (h : spans want inside lo changes ranges = true) :
    ∀ r ∈ ranges, lo ≤ r.1 ∧ ∀ n, r.1 ≤ n → n ≤ r.2 → (inside ^^ memberAt changes n) = want := by
  induction ranges generalizing inside lo changes with
  | nil => simp
  | cons range ranges ih =>
    obtain ⟨first, last⟩ := range
    simp only [spans, Bool.and_eq_true, decide_eq_true_eq, beq_iff_eq] at h
    obtain ⟨⟨hlo, hfirst⟩, hahead⟩ := h
    have hfrom (n : Nat) (hn : first ≤ n) : (inside ^^ memberAt changes n) =
        (want ^^ memberAt (changes.dropWhile (· ≤ first)) n) := by
      rw [memberAt_split hn, ← Bool.xor_assoc, hfirst]
    have hsteady : (∀ n ≤ last, memberAt (changes.dropWhile (· ≤ first)) n = false) ∧
        spans want want first (changes.dropWhile (· ≤ first)) ranges = true := by
      split at hahead
      next hnone => exact ⟨fun _ _ => by rw [hnone]; rfl, by rwa [hnone]⟩
      next change ahead hsome =>
        simp only [Bool.and_eq_true, decide_eq_true_eq] at hahead
        rw [hsome]
        refine ⟨fun n hn => ?_, hahead.2⟩
        simp [memberAt_cons, show ¬change ≤ n by omega]
    refine List.forall_mem_cons.2 ⟨⟨hlo, fun n hn hlast => ?_⟩, fun r hr => ?_⟩
    · rw [hfrom n hn, hsteady.1 n hlast, Bool.xor_false]
    · obtain ⟨hrlo, hr⟩ := ih hsteady.2 r hr
      exact ⟨Nat.le_trans hlo hrlo, fun n hn hlast =>
        (hfrom n (Nat.le_trans hrlo hn)).trans (hr n hn hlast)⟩

/-! ## The tables -/

/-- The ranges are of cased and not ignorable code points, none of them a surrogate. -/
theorem letterRanges_checked :
    spans true false 0 casedChanges letterRanges = true ∧
    spans false false 0 caseIgnorableChanges letterRanges = true ∧
    ∀ r ∈ letterRanges, r.2 < 0xd800 ∨ 0xe000 ≤ r.1 ∧ r.2 < 0x110000 := by
  decide +kernel

/-- The mapping keeps to the ranges, beyond ASCII and in it. -/
theorem mapping_checked :
    (∀ run ∈ lowerRuns, run.keepsLetters = true) ∧
    ∀ n < 128, (Char.ofNat n).toLower = Char.ofNat n ∨ areLetters n n = true ∧
      areLetters (Char.ofNat n).toLower.toNat (Char.ofNat n).toLower.toNat = true := by
  decide +kernel

theorem areLetters_iff {first last : Nat} :
    areLetters first last = true ↔ ∃ r ∈ letterRanges, r.1 ≤ first ∧ last ≤ r.2 := by
  simp [areLetters]

theorem areLetters_within {first last n n' : Nat} (h : areLetters first last = true)
    (hn : first ≤ n) (hn' : n' ≤ last) : areLetters n n' = true := by
  obtain ⟨r, hr, hfirst, hlast⟩ := areLetters_iff.1 h
  exact areLetters_iff.2 ⟨r, hr, Nat.le_trans hfirst hn, Nat.le_trans hn' hlast⟩

theorem inInversionList_eq_memberAt (changes : List Nat) (c : Char) :
    inInversionList changes c = memberAt changes c.toNat :=
  rfl

theorem isLetter_of_areLetters {c : Char} (h : areLetters c.toNat c.toNat = true) :
    isLetter c = true := by
  obtain ⟨r, hr, hfirst, hlast⟩ := areLetters_iff.1 h
  have hcased : memberAt casedChanges c.toNat = true := by
    simpa using (spans_sound letterRanges_checked.1 r hr).2 c.toNat hfirst hlast
  have hcounts : memberAt caseIgnorableChanges c.toNat = false := by
    simpa using (spans_sound letterRanges_checked.2.1 r hr).2 c.toNat hfirst hlast
  simp [isLetter, isCased, isIgnorable, inInversionList_eq_memberAt, hcased, hcounts]

theorem toNat_ofNat_of_areLetters {n : Nat} (h : areLetters n n = true) :
    (Char.ofNat n).toNat = n := by
  obtain ⟨r, hr, hfirst, hlast⟩ := areLetters_iff.1 h
  have hvalid : n.isValidChar := by
    rcases letterRanges_checked.2.2 r hr with h | h
    · exact .inl (by omega)
    · exact .inr (by omega)
  rw [Char.ofNat, dif_pos hvalid]
  rfl

theorem CaseRun.mem_sources {run : CaseRun} {n : Nat} (hfirst : run.first ≤ n)
    (hlast : n ≤ run.last) (hstep : (n - run.first) % run.step = 0) : n ∈ run.sources := by
  refine List.mem_range'.2 ⟨(n - run.first) / run.step, ?_, ?_⟩
  · exact Nat.lt_succ_of_le (Nat.div_le_div_right (by omega))
  · rw [Nat.mul_div_cancel' (Nat.dvd_of_mod_eq_zero hstep)]
    omega

theorem CaseRun.image_mono (run : CaseRun) {n n' : Nat} (h : n ≤ n') :
    run.image n ≤ run.image n' := by
  unfold image
  omega

theorem CaseRun.areLetters_image {run : CaseRun} {n : Nat} (hrun : run ∈ lowerRuns)
    (hfirst : run.first ≤ n) (hlast : n ≤ run.last) (hstep : (n - run.first) % run.step = 0) :
    areLetters n n = true ∧ areLetters (run.image n) (run.image n) = true := by
  have hkeeps := mapping_checked.1 run hrun
  simp only [keepsLetters, Bool.and_eq_true, Bool.or_eq_true] at hkeeps
  obtain ⟨hsources, himages⟩ := hkeeps
  refine ⟨?_, areLetters_within himages (image_mono run hfirst) (image_mono run hlast)⟩
  rcases hsources with hrange | heach
  · exact areLetters_within hrange hfirst hlast
  · exact List.all_eq_true.1 heach _ (mem_sources hfirst hlast hstep)

/-- A character is its own lower case, or it is a letter and so is its lower case. -/
theorem lowerChar_letter (c : Char) :
    lowerChar c = c ∨ isLetter c = true ∧ isLetter (lowerChar c) = true := by
  rcases Nat.lt_or_ge c.toNat 128 with hascii | hbeyond
  · rw [lowerChar, if_pos hascii]
    have hletters := mapping_checked.2 c.toNat hascii
    rw [Char.ofNat_toNat] at hletters
    exact hletters.imp id fun h => ⟨isLetter_of_areLetters h.1, isLetter_of_areLetters h.2⟩
  · rw [lowerChar, if_neg (by omega)]
    split
    next run hrun =>
      have hfound := List.find?_some hrun
      simp only [Bool.and_eq_true, decide_eq_true_eq, beq_iff_eq] at hfound
      obtain ⟨⟨hfirst, hlast⟩, hstep⟩ := hfound
      obtain ⟨hsource, himage⟩ :=
        CaseRun.areLetters_image (List.mem_of_find?_eq_some hrun) hfirst hlast hstep
      have hcode := toNat_ofNat_of_areLetters himage
      exact .inr ⟨isLetter_of_areLetters hsource, isLetter_of_areLetters (hcode.symm ▸ himage)⟩
    next => exact .inl rfl

end CardScript.Text
