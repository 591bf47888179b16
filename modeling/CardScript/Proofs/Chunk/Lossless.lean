import CardScript.Proofs.Chunk.Words

/-!
# Segments account for the whole text

The segments of a delimiter are all of a text but the delimiters between them, and no delimiter
so much as begins inside one (`not_begins_in_delimited`): delimiters are matched from the left, so
that the first place where one begins always ends the segment there. The segments of words are the
maximal runs of letters: the scan finds nothing else (`wordAt_segment`), and it finds every one of
them (`WordAt.mem_wordSegments`).
-/

namespace CardScript

namespace Chunk

/-! ## Delimiters -/

/-- No delimiter begins inside a segment of a split that is under way: `front` is the text before
the piece being read, and none begins in that piece. -/
theorem not_begins_in_layOut {d : Char} {ds cs front piece whole : List Char} {skip : Nat}
    (hwhole : whole = front ++ piece.reverse ++ cs.drop skip)
    (hpiece : ∀ i, front.length ≤ i → i < front.length + piece.length →
      ¬ (d :: ds) <+: whole.drop i) :
    ∀ s ∈ layOut (d :: ds).length List.length front.length (Text.splitFrom d ds skip piece cs),
      ∀ i, s.start ≤ i → i < s.stop → ¬ (d :: ds) <+: whole.drop i := by
  fun_induction Text.splitFrom d ds skip piece cs generalizing front with
  | case1 skip piece =>
    intro s hs
    obtain rfl : s = ⟨front.length, front.length + piece.reverse.length⟩ := List.mem_singleton.1 hs
    rw [List.length_reverse]
    exact hpiece
  | case2 piece skip c cs ih => exact ih hwhole hpiece
  | case3 piece c cs hmatch ih =>
    obtain ⟨rest, hrest⟩ := List.isPrefixOf_iff_prefix.1 hmatch
    obtain ⟨rfl, rfl⟩ : d = c ∧ ds ++ rest = cs := by simpa using hrest
    intro s hs
    rcases List.mem_cons.1 hs with rfl | hs
    · rw [List.length_reverse]
      exact hpiece
    -- the next piece begins behind the delimiter, with nothing read of it
    · have hfront : front.length + piece.reverse.length + (d :: ds).length =
          (front ++ piece.reverse ++ d :: ds).length := by
        simp only [List.length_append]
      rw [hfront] at hs
      refine ih (by simpa using hwhole) (fun i hle hlt => ?_) s hs
      rw [List.length_nil] at hlt
      omega
  | case4 piece c cs hmatch ih =>
    refine ih (by simpa using hwhole) fun i hle hlt => ?_
    rw [List.length_cons] at hlt
    by_cases hlast : i < front.length + piece.length
    · exact hpiece i hle hlast
    · -- the character just read is where no delimiter begins
      have hi : i = (front ++ piece.reverse).length := by
        rw [List.length_append, List.length_reverse]
        omega
      rw [hi, hwhole, List.drop_zero, List.drop_left]
      exact fun hprefix => hmatch (List.isPrefixOf_iff_prefix.2 hprefix)

/-- No delimiter of the text begins inside a segment. -/
theorem not_begins_in_delimited {delimiter cs : List Char} (hne : delimiter ≠ []) {s : Stretch}
    (hs : s ∈ delimited delimiter cs) {i : Nat} (hstart : s.start ≤ i) (hstop : i < s.stop) :
    ¬ delimiter <+: cs.drop i := by
  obtain ⟨d, ds, rfl⟩ := List.exists_cons_of_ne_nil hne
  have hnone := @not_begins_in_layOut d ds cs [] [] cs 0 rfl fun i _ hlt =>
    absurd hlt (Nat.not_lt_zero i)
  exact hnone s hs i hstart hstop

/-- What occurs in a stretch begins at some place in it. -/
theorem Stretch.exists_begins {s : Stretch} {pattern cs : List Char} (hne : pattern ≠ [])
    (h : pattern <:+: s.of cs) : ∃ i, s.start ≤ i ∧ i < s.stop ∧ pattern <+: cs.drop i := by
  obtain ⟨before, after, hof⟩ := h
  have hbegins : pattern <+: (s.of cs).drop before.length := by
    rw [← hof, List.append_assoc, List.drop_left]
    exact List.prefix_append ..
  rw [of, List.drop_drop, List.drop_take] at hbegins
  have hlength := hbegins.length_le
  have hpos := List.length_pos_iff.2 hne
  rw [List.length_take] at hlength
  exact ⟨s.start + before.length, by omega, by omega, hbegins.trans (List.take_prefix ..)⟩

/-- No segment contains the delimiter. -/
theorem not_infix_of_mem_delimited {delimiter cs : List Char} (hne : delimiter ≠ []) {s : Stretch}
    (hs : s ∈ delimited delimiter cs) : ¬ delimiter <:+: s.of cs := by
  intro hinfix
  obtain ⟨i, hstart, hstop, hbegins⟩ := Stretch.exists_begins hne hinfix
  exact not_begins_in_delimited hne hs hstart hstop hbegins

/-- The texts of the segments, joined by the delimiter, are the text. -/
theorem joinWith_map_of_delimited (delimiter cs : List Char) :
    Text.joinWith delimiter ((delimited delimiter cs).map (·.of cs)) = cs := by
  rw [map_of_delimited, Text.joinWith_splitOn]

/-! ## Words -/

/-- A blank ends the word begun, and what follows is scanned afresh. -/
theorem wordSegmentsFrom_append_blank {c : Char} (hc : Text.isBlank c) (begun : Option Nat)
    (pos : Nat) (cs rest : List Char) :
    wordSegmentsFrom begun pos (cs ++ c :: rest) =
      wordSegmentsFrom begun pos cs ++ wordSegmentsFrom none (pos + cs.length + 1) rest := by
  induction cs generalizing begun pos with
  | nil => exact wordSegmentsFrom_blank hc begun pos rest
  | cons b cs ih =>
    have hpos : pos + (b :: cs).length + 1 = pos + 1 + cs.length + 1 := by
      rw [List.length_cons]
      omega
    rw [List.cons_append, hpos]
    by_cases hb : Text.isBlank b
    · rw [wordSegmentsFrom_blank hb, wordSegmentsFrom_blank hb _ _ cs, ih, List.append_assoc]
    · rw [wordSegmentsFrom_letter hb, wordSegmentsFrom_letter hb _ _ cs, ih]

/-- Letters go on with the word begun. -/
theorem wordSegmentsFrom_letters {word : List Char} (hword : ∀ c ∈ word, ¬ Text.isBlank c)
    (first pos : Nat) (rest : List Char) :
    wordSegmentsFrom (some first) pos (word ++ rest) =
      wordSegmentsFrom (some first) (pos + word.length) rest := by
  induction word generalizing pos with
  | nil => rfl
  | cons c word ih =>
    obtain ⟨hc, hword⟩ := List.forall_mem_cons.1 hword
    rw [List.cons_append, wordSegmentsFrom_letter hc, Option.getD_some, ih hword,
      List.length_cons, Nat.add_right_comm, Nat.add_assoc]

namespace WordAt

variable {cs before word after : List Char} {s : Stretch}

/-- The scan that comes to a word finds it first. -/
theorem mem_scan (h : WordAt cs s before word after) :
    s ∈ wordSegmentsFrom none s.start (word ++ after) := by
  obtain ⟨c, letters, rfl⟩ := List.exists_cons_of_ne_nil h.ne_nil
  obtain ⟨hc, hletters⟩ := List.forall_mem_cons.1 h.letters
  have hstop : s.start + 1 + letters.length = s.stop := by
    rw [h.start_eq, h.stop_eq, List.length_append, List.length_cons]
    omega
  rw [List.cons_append, wordSegmentsFrom_letter hc, Option.getD_none,
    wordSegmentsFrom_letters hletters, hstop]
  cases after with
  | nil => exact List.mem_singleton_self _
  | cons b after =>
    have hb : Text.isBlank b := h.after_apart b rfl
    rw [wordSegmentsFrom_blank hb]
    exact List.mem_append_left _ (List.mem_singleton_self _)

/-- The scan finds every word. -/
theorem mem_wordSegments (h : WordAt cs s before word after) : s ∈ wordSegments cs := by
  have hscan := h.mem_scan
  rw [wordSegments, h.text_eq, List.append_assoc]
  rcases List.eq_nil_or_concat before with rfl | ⟨front, c, rfl⟩
  · rwa [h.start_eq] at hscan
  · have hc : Text.isBlank c := h.before_apart c (by simp)
    have hstart : s.start = 0 + front.length + 1 := by
      rw [h.start_eq, List.length_concat, Nat.zero_add]
    rw [List.concat_eq_append, List.append_assoc, List.singleton_append,
      wordSegmentsFrom_append_blank hc, ← hstart]
    exact List.mem_append_right _ hscan

end WordAt

/-- The segments of words are the maximal runs of letters. -/
theorem mem_wordSegments_iff {cs : List Char} {s : Stretch} :
    s ∈ wordSegments cs ↔ ∃ before word after, WordAt cs s before word after := by
  constructor
  · intro hs
    obtain ⟨k, hk⟩ := List.mem_iff_getElem?.1 (show s ∈ segments .word [] cs from hs)
    obtain ⟨before, word, after, hword, -⟩ := wordAt_segment hk
    exact ⟨before, word, after, hword⟩
  · rintro ⟨before, word, after, hword⟩
    exact hword.mem_wordSegments

theorem map_of_wordSegments (cs : List Char) :
    (wordSegments cs).map (·.of cs) = Text.words cs := by
  have hcount : count .word [] cs = (wordSegments cs).length := rfl
  rw [← texts_word [] cs, texts_eq, hcount, segments, List.take_length]

/-! ## Nothing is lost -/

/-- **Segments lose nothing.** The segments of a delimiter follow one another without overlap,
their texts joined by the delimiter are the text, and no segment contains the delimiter; nor does
one begin in a segment and end outside. The segments of words are, in order, exactly the stretches
of letters with a blank or nothing on either side, and their texts are the words of the value. -/
theorem segments_lossless (text delimiter : String) (hne : delimiter ≠ "") :
    let cs := text.toList
    let d := delimiter.toList
    (InOrder 0 cs.length (delimited d cs) ∧
      Text.joinWith d ((delimited d cs).map (·.of cs)) = cs ∧
      ∀ s ∈ delimited d cs, ¬ d <:+: s.of cs ∧
        ∀ i, s.start ≤ i → i < s.stop → ¬ d <+: cs.drop i) ∧
    InOrder 0 cs.length (wordSegments cs) ∧
    (∀ s, s ∈ wordSegments cs ↔ ∃ before word after, WordAt cs s before word after) ∧
    (wordSegments cs).map (fun s => Value.ofText (String.ofList (s.of cs))) =
      (Value.ofText text).words := by
  intro cs d
  have hd : d ≠ [] := by simpa [d] using hne
  refine ⟨⟨segments_inOrder .item d cs, joinWith_map_of_delimited d cs, fun s hs => ?_⟩,
    segments_inOrder .word d cs, fun s => mem_wordSegments_iff, ?_⟩
  · exact ⟨not_infix_of_mem_delimited hd hs,
      fun i hstart hstop => not_begins_in_delimited hd hs hstart hstop⟩
  · have hwords := congrArg (List.map fun word => Value.ofText (String.ofList word))
      (map_of_wordSegments cs)
    rwa [List.map_map] at hwords

/-- A delimiter that overlaps itself is matched from the left; and words between blanks of several
kinds, the last one at the very end. -/
theorem segments_lossless_overlapping :
    delimited "aa".toList "aaab".toList = [⟨0, 0⟩, ⟨2, 4⟩] ∧
    Text.joinWith "aa".toList ["".toList, "ab".toList] = "aaab".toList ∧
    wordSegments "\ta b\u2003c".toList = [⟨1, 2⟩, ⟨3, 4⟩, ⟨5, 6⟩] ∧
    ((Value.ofText "\ta b\u2003c").words).map (·.text) = ["a", "b", "c"] := by
  have hdelimited : delimited "aa".toList "aaab".toList = [⟨0, 0⟩, ⟨2, 4⟩] := by decide
  have hwords : wordSegments "\ta b\u2003c".toList = [⟨1, 2⟩, ⟨3, 4⟩, ⟨5, 6⟩] := by decide
  obtain ⟨⟨-, hjoin, -⟩, -⟩ := segments_lossless "aaab" "aa" (by decide)
  obtain ⟨-, -, -, htexts⟩ := segments_lossless "\ta b\u2003c" "aa" (by decide)
  rw [hdelimited] at hjoin
  rw [hwords] at htexts
  exact ⟨hdelimited, hjoin, hwords, by rw [← htexts]; decide⟩

end Chunk

end CardScript
