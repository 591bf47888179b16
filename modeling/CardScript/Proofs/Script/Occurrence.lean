import CardScript.Proofs.Text.CaseContext
import CardScript.Script.Builtin
import CardScript.Value.Comparison
import Mathlib.Data.List.Infix
import Mathlib.Order.Bounds.Basic

/-!
# Where a text occurs

`contains` looks for a text in another one that is lower-cased as a whole, and `offset` for the
first suffix that, lower-cased on its own, starts with it. A suffix on its own has lost the context
in front of it, and none begins within the two characters that a dotted capital is lower-cased to.
So the two agree on a text, whatever it is sought in, exactly if its lower case does not open with a
sigma whose form the context decides, nor with the dot of a dotted capital
(`offset_agrees_with_contains`).
-/

namespace CardScript

namespace Text

theorem head?_of_prefix_cons {pattern cs : List Char} {c : Char} (hpattern : pattern ≠ [])
    (h : pattern <+: c :: cs) : pattern.head? = some c := by
  obtain ⟨low, rfl, -⟩ := (List.prefix_cons_iff.1 h).resolve_left hpattern
  rfl

theorem lower_ne_nil {cs : List Char} (h : cs ≠ []) : lower cs ≠ [] := by
  intro hnil
  have hlength := length_lowerFrom [] cs
  rw [show lowerFrom [] cs = [] from hnil] at hlength
  exact h (List.length_eq_zero_iff.1 (by simp at hlength; omega))

/-- Some suffix of `cs` starts, lower-cased on its own, with `pattern`. -/
def StartsSuffix (pattern cs : List Char) : Prop :=
  ∃ front c rest, cs = front ++ c :: rest ∧ pattern <+: lower (c :: rest)

theorem infix_lowerFrom_cons {pattern before cs : List Char} {c : Char} (hpattern : pattern ≠ [])
    (h : pattern <:+: lowerFrom before (c :: cs)) :
    pattern <+: lowerFrom before (c :: cs) ∨ (c = 'İ' ∧ pattern.head? = some '\u0307') ∨
      pattern <:+: lowerFrom (c :: before) cs := by
  obtain ⟨d, ds, hd, -, -, hshape⟩ := lowerAt_eq_cons before c cs
  rw [lowerFrom, hd, List.cons_append] at h ⊢
  refine (List.infix_cons_iff.1 h).imp_right fun htail => ?_
  rcases hshape with ⟨-, rfl⟩ | ⟨hdotted, -, rfl⟩
  · exact .inr htail
  · exact (List.infix_cons_iff.1 htail).imp_left fun hstart =>
      ⟨hdotted, head?_of_prefix_cons hpattern hstart⟩

/-- What occurs in a lower-cased text starts the lower case of a suffix in its context, unless it
begins with the second of the characters that a dotted capital comes to. -/
theorem exists_suffix_of_infix {pattern before cs : List Char} (hpattern : pattern ≠ [])
    (h : pattern <:+: lowerFrom before cs) :
    ∃ front c rest, cs = front ++ c :: rest ∧
      (pattern <+: lowerFrom (front.reverse ++ before) (c :: rest) ∨
        c = 'İ' ∧ pattern.head? = some '\u0307') := by
  induction cs generalizing before with
  | nil => exact absurd (List.infix_nil.1 h) hpattern
  | cons c cs ih =>
    rcases infix_lowerFrom_cons hpattern h with hstart | hdotted | htail
    · exact ⟨[], c, cs, rfl, .inl hstart⟩
    · exact ⟨[], c, cs, rfl, .inr hdotted⟩
    · obtain ⟨front, c', rest, rfl, hsuffix⟩ := ih htail
      exact ⟨c :: front, c', rest, rfl, by simpa using hsuffix⟩

/-- A lower-cased pattern is found on its own wherever it is found in context. -/
theorem startsSuffix_iff_infix {pattern cs : List Char} (hpattern : pattern ≠ [])
    (hsigma : 'Σ' ∈ cs → opensWithSigma pattern = false)
    (hdot : 'İ' ∈ cs → pattern.head? ≠ some '\u0307') :
    StartsSuffix pattern cs ↔ pattern <:+: lower cs := by
  constructor
  · rintro ⟨front, c, rest, rfl, hstart⟩
    obtain ⟨low, hlow⟩ := exists_lowerFrom_append [] front (c :: rest)
    have hcontext := prefix_lowerFrom_context (front.reverse ++ [])
      (fun hmem => hsigma (List.mem_append_right _ hmem)) hstart
    rw [lower, hlow]
    exact hcontext.isInfix.trans (List.suffix_append ..).isInfix
  · intro h
    obtain ⟨front, c, rest, rfl, hstart | ⟨rfl, hhead⟩⟩ := exists_suffix_of_infix hpattern h
    · exact ⟨front, c, rest, rfl, prefix_lowerFrom_context []
        (fun hmem => hsigma (List.mem_append_right _ hmem)) hstart⟩
    · exact absurd hhead (hdot (by simp))

/-- A pattern that is longer than the lower case of `cs` starts no suffix of it. -/
theorem not_startsSuffix_of_length {pattern cs : List Char}
    (h : (lower cs).length < pattern.length) : ¬StartsSuffix pattern cs := by
  rintro ⟨front, c, rest, rfl, hstart⟩
  have hle := hstart.length_le
  simp only [lower, length_lowerFrom, List.length_append, List.count_append] at h hle
  omega

theorem startsSuffix_cons {pattern cs : List Char} {c : Char} :
    StartsSuffix pattern (c :: cs) ↔ pattern <+: lower (c :: cs) ∨ StartsSuffix pattern cs := by
  constructor
  · rintro ⟨front, d, rest, hcs, hstart⟩
    cases front with
    | nil =>
      cases hcs
      exact .inl hstart
    | cons _ front =>
      cases hcs
      exact .inr ⟨front, d, rest, rfl, hstart⟩
  · rintro (hstart | ⟨front, d, rest, rfl, hstart⟩)
    · exact ⟨[], c, cs, rfl, hstart⟩
    · exact ⟨c :: front, d, rest, rfl, hstart⟩

theorem startsSuffix_iff_eq {pattern cs : List Char} (hcs : cs ≠ [])
    (hlength : pattern.length = (lower cs).length) :
    StartsSuffix pattern cs ↔ pattern = lower cs := by
  obtain ⟨c, rest, rfl⟩ := List.exists_cons_of_ne_nil hcs
  have hrest : ¬StartsSuffix pattern rest := not_startsSuffix_of_length <| by
    rw [hlength, lower, lower, length_lowerFrom, length_lowerFrom, List.length_cons,
      List.count_cons]
    omega
  rw [startsSuffix_cons, or_iff_left hrest]
  exact ⟨fun h => h.eq_of_length hlength, fun h => h ▸ List.prefix_rfl⟩

theorem infix_cons_iff_eq {pattern cs : List Char} {c : Char} (hpattern : pattern ≠ [])
    (hhead : pattern.head? ≠ some c) (hlength : pattern.length = cs.length) :
    pattern <:+: c :: cs ↔ pattern = cs := by
  rw [List.infix_cons_iff, or_iff_right]
  · exact ⟨fun h => h.eq_of_length hlength, fun h => h ▸ List.infix_rfl⟩
  · exact fun hstart => hhead (head?_of_prefix_cons hpattern hstart)

/-! ## Patterns that are found in one way only -/

/-- A capital sigma in the place of the sigma, with a letter in front of the whole: lower-cased on
its own it is a small sigma, and in its context a final one. -/
theorem exists_disagreement_of_sigma {needle : List Char}
    (h : opensWithSigma (lower needle) = true) :
    ∃ haystack, ¬(StartsSuffix (lower needle) haystack ↔ lower needle <:+: lower haystack) := by
  obtain ⟨skipped, s, rest, hskipped, hs, hnext, hlow⟩ := exists_of_opensWithSigma h
  have hother : ∃ x, (x = 'a' ∨ x = 'b') ∧ (lower needle).head? ≠ some x := by
    by_cases ha : (lower needle).head? = some 'a'
    · exact ⟨'b', .inr rfl, by rw [ha]; decide⟩
    · exact ⟨'a', .inl rfl, ha⟩
  obtain ⟨x, hx, hhead⟩ := hother
  have halone : lower (skipped ++ 'Σ' :: rest) = skipped ++ 'σ' :: lowerFrom ['Σ'] rest :=
    lowerFrom_sigma hskipped [] rest
  have hbehind : lower (x :: (skipped ++ 'Σ' :: rest)) =
      x :: (skipped ++ 'ς' :: lowerFrom ['Σ'] rest) := by
    have hletter : isLetter x = true := by
      rcases hx with rfl | rfl <;> exact isLetter_of_areLetters rfl
    have hcontext : casedNext [x] = true := by
      rw [casedNext_of_counting (counts_of_isLetter hletter), cased_of_isLetter hletter]
    have hat : lowerAt [] x (skipped ++ 'Σ' :: rest) = [x] := by
      rcases hx with rfl | rfl <;> rfl
    rw [lower, lowerFrom, hat, lowerFrom_sigma hskipped, hcontext, hnext]
    rfl
  have hne : lower needle ≠ [] := by
    intro hnil
    rw [hnil] at h
    cases h
  refine ⟨x :: (skipped ++ 'Σ' :: rest), fun hagree => ?_⟩
  have hnotHere : ¬lower needle <+: lower (x :: (skipped ++ 'Σ' :: rest)) := by
    rw [hbehind]
    exact fun hstart => hhead (head?_of_prefix_cons hne hstart)
  have hfound : StartsSuffix (lower needle) (x :: (skipped ++ 'Σ' :: rest)) ↔ s = 'σ' := by
    rw [startsSuffix_cons, or_iff_right hnotHere, startsSuffix_iff_eq (by simp), halone,
      show lower needle = _ from hlow]
    · simp
    · rw [halone]
      simp [lower, hlow]
  have hcontained : lower needle <:+: lower (x :: (skipped ++ 'Σ' :: rest)) ↔ s = 'ς' := by
    rw [hbehind, infix_cons_iff_eq hne hhead (by simp [lower, hlow]),
      show lower needle = _ from hlow]
    simp
  rw [hfound, hcontained] at hagree
  rcases hs with rfl | rfl <;> simp at hagree

theorem isIgnorable_dot : isIgnorable '\u0307' = true := by
  decide +kernel

theorem exists_cons_of_lower_dot {cs : List Char} (h : (lower cs).head? = some '\u0307') :
    ∃ rest, lower cs = '\u0307' :: lower rest := by
  cases cs with
  | nil => cases h
  | cons c rest =>
    obtain ⟨d, ds, hd, hcounts, -⟩ := lowerAt_eq_cons [] c rest
    obtain rfl : d = '\u0307' := by
      rw [lower, lowerFrom, hd] at h
      exact Option.some.inj h
    have hc : isIgnorable c = true := hcounts.symm.trans isIgnorable_dot
    rw [lowerAt_of_ignorable hc] at hd
    obtain ⟨rfl, -⟩ := List.cons.inj hd
    exact ⟨rest, lowerFrom_of_ignorable hc [] rest⟩

/-- A dotted capital in the place of the dot: its lower case ends in that dot, but no suffix begins
there. -/
theorem exists_disagreement_of_dot {needle : List Char}
    (hhead : (lower needle).head? = some '\u0307')
    (hsigma : opensWithSigma (lower needle) = false) :
    ∃ haystack, ¬(StartsSuffix (lower needle) haystack ↔ lower needle <:+: lower haystack) := by
  obtain ⟨rest, hlow⟩ := exists_cons_of_lower_dot hhead
  have hdotted : lower ('İ' :: rest) = 'i' :: '\u0307' :: lowerFrom ['İ'] rest := rfl
  have hrest : lower rest <+: lowerFrom ['İ'] rest := by
    refine prefix_lowerFrom_context ['İ'] (fun _ => ?_) (List.prefix_refl (lowerFrom [] rest))
    rwa [hlow, opensWithSigma, if_pos isIgnorable_dot] at hsigma
  refine ⟨'İ' :: rest, fun hagree => ?_⟩
  have hcontains : lower needle <:+: lower ('İ' :: rest) := by
    rw [hlow, hdotted]
    exact ((List.prefix_cons_inj _).2 hrest).isInfix.trans (List.suffix_cons ..).isInfix
  rcases startsSuffix_cons.1 (hagree.2 hcontains) with hstart | hlater
  · rw [hlow, hdotted] at hstart
    cases head?_of_prefix_cons (by simp) hstart
  · exact not_startsSuffix_of_length (by rw [hlow]; simp) hlater

end Text

namespace Builtin

open Text

/-- The scan stops at the first suffix that starts with the needle, or runs through. -/
theorem offsetFrom_spec (needle cs : List Char) (position : Nat) :
    (offsetFrom needle position cs = 0 ∧ ∀ i < cs.length, ¬needle <+: lower (cs.drop i)) ∨
      ∃ i < cs.length, offsetFrom needle position cs = position + i ∧
        needle <+: lower (cs.drop i) ∧ ∀ j < i, ¬needle <+: lower (cs.drop j) := by
  induction cs generalizing position with
  | nil => exact .inl ⟨rfl, by simp⟩
  | cons c rest ih =>
    have hscan : offsetFrom needle position (c :: rest) =
        if needle.isPrefixOf (lower (c :: rest)) then position
        else offsetFrom needle (position + 1) rest := by
      rw [offsetFrom, startsLowered_eq]
      rfl
    rw [hscan]
    by_cases hstart : needle <+: lower (c :: rest)
    · rw [if_pos (List.isPrefixOf_iff_prefix.2 hstart)]
      exact .inr ⟨0, by simp, rfl, hstart, by simp⟩
    · rw [if_neg (mt List.isPrefixOf_iff_prefix.1 hstart)]
      rcases ih (position + 1) with ⟨hzero, hnone⟩ | ⟨i, hi, hposition, hfound, hbefore⟩
      · refine .inl ⟨hzero, fun i hi => ?_⟩
        cases i with
        | zero => exact hstart
        | succ i => exact hnone i (by simpa using hi)
      · refine .inr ⟨i + 1, by simpa using hi, by omega, hfound, fun j hj => ?_⟩
        cases j with
        | zero => exact hstart
        | succ j => exact hbefore j (by omega)

theorem offsetOf_eq_offsetFrom {needle : List Char} (hneedle : needle ≠ []) (cs : List Char) :
    offsetOf needle cs = offsetFrom (lower needle) 1 cs := by
  simp [offsetOf, lower_ne_nil hneedle]

theorem offsetOf_pos_iff {needle : List Char} (hneedle : needle ≠ []) (cs : List Char) :
    0 < offsetOf needle cs ↔ StartsSuffix (lower needle) cs := by
  rw [offsetOf_eq_offsetFrom hneedle]
  rcases offsetFrom_spec (lower needle) cs 1 with ⟨hzero, hnone⟩ | ⟨i, hi, hposition, hfound, -⟩
  · refine ⟨fun h => absurd hzero (by omega), ?_⟩
    rintro ⟨front, c, rest, rfl, hstart⟩
    exact absurd (by simpa using hstart) (hnone front.length (by simp))
  · refine ⟨fun _ => ?_, fun _ => by omega⟩
    exact ⟨cs.take i, cs[i], cs.drop (i + 1), by simp, by simpa using hfound⟩

end Builtin

namespace Value

theorem contains_eq (haystack needle : Value) :
    haystack.contains needle = .ofBool
      (decide (Text.lower needle.text.toList <:+: Text.lower haystack.text.toList)) := by
  rw [contains]
  refine congrArg _ (Bool.eq_iff_iff.2 ?_)
  rw [String.contains_string_iff, decide_eq_true_iff, Text.lowerString, Text.lowerString,
    String.toList_ofList, String.toList_ofList]

theorem contains_eq_true_iff (haystack needle : Value) :
    haystack.contains needle = .ofBool true ↔
      Text.lower needle.text.toList <:+: Text.lower haystack.text.toList := by
  rw [contains_eq, ofBool, ofBool]
  split <;> simp_all

/-- The text of `haystack` from character `k` on, counted from one and lower-cased, starts with the
lower-cased `needle`. -/
def StartsAt (needle haystack : Value) (k : Nat) : Prop :=
  0 < k ∧ k ≤ haystack.text.length ∧
    Text.lower needle.text.toList <+: Text.lower (haystack.text.toList.drop (k - 1))

/-- What `offset` answers. -/
def offsetIn (needle haystack : Value) : Nat :=
  Builtin.offsetOf needle.text.toList haystack.text.toList

theorem offsetIn_pos_iff {needle : Value} (hneedle : needle.text ≠ "") (haystack : Value) :
    0 < needle.offsetIn haystack ↔
      Text.StartsSuffix (Text.lower needle.text.toList) haystack.text.toList :=
  Builtin.offsetOf_pos_iff (by simpa using hneedle) _

theorem offsetIn_isLeast {needle : Value} (hneedle : needle.text ≠ "") (haystack : Value) :
    (0 < needle.offsetIn haystack →
      IsLeast {k | needle.StartsAt haystack k} (needle.offsetIn haystack)) ∧
    (needle.offsetIn haystack = 0 → ∀ k, ¬needle.StartsAt haystack k) := by
  have hcs : needle.text.toList ≠ [] := by simpa using hneedle
  rw [offsetIn, Builtin.offsetOf_eq_offsetFrom hcs]
  rcases Builtin.offsetFrom_spec (Text.lower needle.text.toList) haystack.text.toList 1 with
    ⟨hzero, hnone⟩ | ⟨i, hi, hposition, hfound, hbefore⟩
  · refine ⟨fun h => absurd hzero (by omega), fun _ k ⟨hk, hlast, hstart⟩ => ?_⟩
    rw [← String.length_toList] at hlast
    exact hnone (k - 1) (by omega) hstart
  · rw [hposition]
    refine ⟨fun _ => ⟨⟨by omega, ?_, ?_⟩, fun k ⟨hk, _, hstart⟩ => ?_⟩, fun h => by omega⟩
    · rw [← String.length_toList]
      omega
    · rwa [Nat.add_sub_cancel_left]
    · by_contra hless
      exact hbefore (k - 1) (by omega) hstart

end Value

/-- **Searching for a text.** `offset` of a nonempty needle answers, in every haystack, the least
character position from which on the haystack, lower-cased, starts with the lower-cased needle, or
zero if there is none. That is positive exactly if the haystack contains the needle, unless the
haystack has a capital sigma and the needle opens with a sigma, or the haystack has a dotted capital
and the needle starts with its dot; and `offset` and `contains` judge a needle of either kind
differently in some haystack. -/
theorem offset_agrees_with_contains (needle : Value) (hneedle : needle.text ≠ "") :
    (∀ (haystack : Value) (name : String) (m : Machine),
      Builtin.offset.call name m [needle, haystack] = .ok (.ofInt (needle.offsetIn haystack))) ∧
    (∀ haystack : Value,
      (0 < needle.offsetIn haystack →
        IsLeast {k | needle.StartsAt haystack k} (needle.offsetIn haystack)) ∧
      (needle.offsetIn haystack = 0 → ∀ k, ¬needle.StartsAt haystack k)) ∧
    (∀ haystack : Value,
      ('Σ' ∈ haystack.text.toList →
        Text.opensWithSigma (Text.lower needle.text.toList) = false) →
      ('İ' ∈ haystack.text.toList →
        (Text.lower needle.text.toList).head? ≠ some '\u0307') →
      (0 < needle.offsetIn haystack ↔ haystack.contains needle = .ofBool true)) ∧
    ((∀ haystack : Value,
        0 < needle.offsetIn haystack ↔ haystack.contains needle = .ofBool true) ↔
      Text.opensWithSigma (Text.lower needle.text.toList) = false ∧
        (Text.lower needle.text.toList).head? ≠ some '\u0307') := by
  have hlow : Text.lower needle.text.toList ≠ [] := Text.lower_ne_nil (by simpa using hneedle)
  have hagree (haystack : Value) :
      (0 < needle.offsetIn haystack ↔ haystack.contains needle = .ofBool true) ↔
        (Text.StartsSuffix (Text.lower needle.text.toList) haystack.text.toList ↔
          Text.lower needle.text.toList <:+: Text.lower haystack.text.toList) := by
    rw [Value.offsetIn_pos_iff hneedle, Value.contains_eq_true_iff]
  refine ⟨fun _ _ _ => rfl, Value.offsetIn_isLeast hneedle, fun haystack hsigma hdot => ?_, ?_⟩
  · exact (hagree haystack).2 (Text.startsSuffix_iff_infix hlow hsigma hdot)
  constructor
  · intro hall
    have halways (cs : List Char) : Text.StartsSuffix (Text.lower needle.text.toList) cs ↔
        Text.lower needle.text.toList <:+: Text.lower cs := by
      have := (hagree (.ofText (String.ofList cs))).1 (hall _)
      rwa [Value.ofText, String.toList_ofList] at this
    have hsigma : Text.opensWithSigma (Text.lower needle.text.toList) = false := by
      by_contra h
      obtain ⟨cs, hcs⟩ := Text.exists_disagreement_of_sigma (Bool.of_not_eq_false h)
      exact hcs (halways cs)
    refine ⟨hsigma, fun hhead => ?_⟩
    obtain ⟨cs, hcs⟩ := Text.exists_disagreement_of_dot hhead hsigma
    exact hcs (halways cs)
  · rintro ⟨hsigma, hdot⟩ haystack
    exact (hagree haystack).2 (Text.startsSuffix_iff_infix hlow (fun _ => hsigma) fun _ => hdot)

/-- A sigma that a letter follows is found by both, in any haystack. -/
theorem offset_agrees_with_contains_thalassa :
    (Value.ofText "σα").text ≠ "" ∧
    (∀ haystack : Value, 0 < (Value.ofText "σα").offsetIn haystack ↔
      haystack.contains (.ofText "σα") = .ofBool true) ∧
    IsLeast {k | (Value.ofText "σα").StartsAt (.ofText "ΘΑΛΑΣΣΑ") k} 6 := by
  have hneedle : (Value.ofText "σα").text ≠ "" := by decide
  have hall := offset_agrees_with_contains (.ofText "σα") hneedle
  have hsix : (Value.ofText "σα").offsetIn (.ofText "ΘΑΛΑΣΣΑ") = 6 := by decide +kernel
  refine ⟨hneedle, hall.2.2.2.2 ⟨by decide +kernel, by decide +kernel⟩, ?_⟩
  rw [← hsix]
  exact (hall.2.1 (.ofText "ΘΑΛΑΣΣΑ")).1 (by rw [hsix]; decide)

/-- `contains` misses the last letter of a text, and finds a dot that is no character of it. -/
theorem offset_disagrees_with_contains :
    (∀ name m, Builtin.offset.call name m [.ofText "Σ", .ofText "aΣ"] = .ok (.ofInt 2)) ∧
    (Value.ofText "aΣ").contains (.ofText "Σ") = .ofBool false ∧
    (∀ name m, Builtin.offset.call name m [.ofText "\u0307", .ofText "İ"] = .ok (.ofInt 0)) ∧
    (Value.ofText "İ").contains (.ofText "\u0307") = .ofBool true := by
  have hsigma : Builtin.offsetOf "Σ".toList "aΣ".toList = 2 := by decide +kernel
  have hdot : Builtin.offsetOf "\u0307".toList "İ".toList = 0 := by decide +kernel
  refine ⟨fun _ _ => ?_, ?_, fun _ _ => ?_, ?_⟩
  · exact congrArg (fun k : Nat => Except.ok (Value.ofInt k)) hsigma
  · rw [Value.contains_eq]
    exact congrArg _ (by decide +kernel)
  · exact congrArg (fun k : Nat => Except.ok (Value.ofInt k)) hdot
  · rw [Value.contains_eq]
    exact congrArg _ (by decide +kernel)

end CardScript
