import CardScript.Proofs.Chunk.Listing

/-!
# Words and characters as lists

Two texts side by side have the words of the one and then those of the other, unless a word runs
across the place where they meet (`Text.words_append`). The segments of words stand apart from what
is around them (`wordAt_wordSegmentsFrom`), so the words of a text are the words before a segment,
the word in it and the words after it, and a write there changes only the middle (`words_put`).
-/

namespace CardScript

namespace Text

/-! ## Words of a text in two parts -/

/-- A blank ends the word begun, and what follows is read afresh. -/
theorem wordsFrom_append_blank {c : Char} (hc : isBlank c) (word cs rest : List Char) :
    wordsFrom word (cs ++ c :: rest) = wordsFrom word cs ++ words rest := by
  induction cs generalizing word with
  | nil =>
    rw [List.nil_append, wordsFrom, wordsFrom, if_pos hc]
    split <;> rfl
  | cons b cs ih =>
    simp only [List.cons_append, wordsFrom, ih]
    split
    · split <;> rfl
    · rfl

/-- No word runs from the one text into the other. -/
def Apart (cs rest : List Char) : Prop :=
  (∀ c ∈ cs.getLast?, isBlank c) ∨ ∀ c ∈ rest.head?, isBlank c

theorem words_append {cs rest : List Char} (h : Apart cs rest) :
    words (cs ++ rest) = words cs ++ words rest := by
  rcases h with hlast | hhead
  · rcases List.eq_nil_or_concat cs with rfl | ⟨front, c, rfl⟩
    · rfl
    have hc : isBlank c := hlast c (by simp)
    have hfront := wordsFrom_append_blank hc [] front []
    have hnone : words [] = [] := rfl
    rw [List.concat_eq_append, List.append_assoc, List.singleton_append, words,
      wordsFrom_append_blank hc, words.eq_1 (front ++ [c]), hfront, hnone, List.append_nil]
  · cases rest with
    | nil => simp [words, wordsFrom]
    | cons c rest =>
      have hc : isBlank c := hhead c rfl
      have hrest : words (c :: rest) = words rest := wordsFrom_append_blank hc [] [] rest
      rw [hrest, words, wordsFrom_append_blank hc, words.eq_1 cs]

theorem wordsFrom_of_letters {cs : List Char} (h : ∀ c ∈ cs, ¬ isBlank c) (word : List Char) :
    wordsFrom word cs = wordsFrom (cs.reverse ++ word) [] := by
  induction cs generalizing word with
  | nil => rfl
  | cons c cs ih =>
    obtain ⟨hc, hcs⟩ := List.forall_mem_cons.1 h
    have hnext : wordsFrom word (c :: cs) = wordsFrom (c :: word) cs := if_neg hc
    rw [hnext, ih hcs, List.reverse_cons, List.append_assoc, List.singleton_append]

/-- A text without blanks is one word, or none. -/
theorem words_of_letters {cs : List Char} (h : ∀ c ∈ cs, ¬ isBlank c) :
    words cs = if cs = [] then [] else [cs] := by
  rw [words, wordsFrom_of_letters h, wordsFrom]
  simp

end Text

namespace Chunk

/-! ## Words where they stand -/

/-- The stretch holds a word of the text: letters, with a blank or nothing on either side. -/
structure WordAt (cs : List Char) (s : Stretch) (before word after : List Char) : Prop where
  text_eq : cs = before ++ word ++ after
  start_eq : s.start = before.length
  stop_eq : s.stop = (before ++ word).length
  ne_nil : word ≠ []
  letters : ∀ c ∈ word, ¬ Text.isBlank c
  before_apart : ∀ c ∈ before.getLast?, Text.isBlank c
  after_apart : ∀ c ∈ after.head?, Text.isBlank c

namespace WordAt

variable {cs before word after : List Char} {s : Stretch}

theorem replace_eq (h : WordAt cs s before word after) (new : List Char) :
    s.replace cs new = before ++ new ++ after := by
  rw [Stretch.replace, h.start_eq, h.stop_eq, h.text_eq, List.drop_left, List.append_assoc before,
    List.take_left]

theorem of_eq (h : WordAt cs s before word after) : s.of cs = word := by
  rw [Stretch.of, h.start_eq, h.stop_eq, h.text_eq, List.take_left, List.drop_left]

/-- The words on both sides of a word stay what they are, whatever is put in its place. -/
theorem words_replace (h : WordAt cs s before word after) (new : List Char) :
    Text.words (s.replace cs new) = Text.words before ++ Text.words new ++ Text.words after := by
  rw [h.replace_eq, Text.words_append (.inr h.after_apart), Text.words_append (.inl h.before_apart)]

theorem words_eq (h : WordAt cs s before word after) :
    Text.words cs = Text.words before ++ [word] ++ Text.words after := by
  have hword := Text.words_of_letters h.letters
  rw [if_neg h.ne_nil] at hword
  rw [← hword, ← h.words_replace word, h.replace_eq, h.text_eq]

theorem getElem?_words (h : WordAt cs s before word after) :
    (Text.words cs)[(Text.words before).length]? = some word := by
  rw [h.words_eq, List.append_assoc, List.getElem?_append_right (Nat.le_refl _), Nat.sub_self]
  rfl

end WordAt

/-! ## The scan for words -/

/-- A blank ends the word begun, and what follows is scanned afresh. -/
theorem wordSegmentsFrom_blank {c : Char} (hc : Text.isBlank c) (begun : Option Nat) (pos : Nat)
    (rest : List Char) : wordSegmentsFrom begun pos (c :: rest) =
      wordSegmentsFrom begun pos [] ++ wordSegmentsFrom none (pos + 1) rest := by
  -- the equations of the scan are many and slow to derive, so it is opened as a whole
  rw [wordSegmentsFrom.eq_def begun pos (c :: rest)]
  cases begun with
  | none =>
    simp only [hc]
    rfl
  | some first =>
    simp only [hc]
    rfl

/-- At the end there is only the word begun. -/
theorem wordSegmentsFrom_end {first pos k : Nat} {s : Stretch}
    (h : (wordSegmentsFrom (some first) pos [])[k]? = some s) : k = 0 ∧ ⟨first, pos⟩ = s := by
  have hone : wordSegmentsFrom (some first) pos [] = [⟨first, pos⟩] := rfl
  rw [hone] at h
  simpa [List.getElem?_singleton] using h

/-- A letter belongs to the word begun, or begins one. -/
theorem wordSegmentsFrom_letter {c : Char} (hc : ¬ Text.isBlank c) (begun : Option Nat) (pos : Nat)
    (rest : List Char) : wordSegmentsFrom begun pos (c :: rest) =
      wordSegmentsFrom (some (begun.getD pos)) (pos + 1) rest := by
  have hletter : Text.isBlank c = false := by simpa using hc
  rw [wordSegmentsFrom.eq_def begun pos (c :: rest)]
  cases begun with
  | none => simp only [hletter, Option.getD_none]
  | some first => simp only [hletter, Option.getD_some]

/-- What the scan knows between two characters: it is done with `front`, and has read the letters
`run` of a word. -/
structure Scan (front run : List Char) (begun : Option Nat) (pos : Nat) : Prop where
  begun_eq : begun = if run = [] then none else some front.length
  pos_eq : pos = (front ++ run).length
  apart : ∀ c ∈ front.getLast?, Text.isBlank c
  letters : ∀ c ∈ run, ¬ Text.isBlank c

namespace Scan

variable {front run : List Char} {begun : Option Nat} {pos : Nat} {c : Char}

theorem start : Scan [] [] none 0 :=
  ⟨rfl, rfl, by simp, by simp⟩

theorem blank (h : Scan front run begun pos) (hc : Text.isBlank c) :
    Scan (front ++ run ++ [c]) [] none (pos + 1) :=
  ⟨rfl, by simp [h.pos_eq, Nat.add_assoc], by simpa using hc, by simp⟩

theorem letter (h : Scan front run begun pos) (hc : ¬ Text.isBlank c) :
    Scan front (run ++ [c]) (some (begun.getD pos)) (pos + 1) where
  begun_eq := by
    rw [if_neg (by simp), h.begun_eq, h.pos_eq]
    split
    · next hnil => simp [hnil]
    · rfl
  pos_eq := by simp [h.pos_eq, Nat.add_assoc]
  apart := h.apart
  letters := by
    intro b hb
    rcases List.mem_append.1 hb with hb | hb
    · exact h.letters b hb
    · rwa [List.mem_singleton.1 hb]

theorem run_eq_nil (h : Scan front run none pos) : run = [] := by
  have hbegun := h.begun_eq
  split at hbegun
  · assumption
  · cases hbegun

/-- The letters read so far are a word if the text ends there, or a blank follows. -/
theorem wordAt {first : Nat} (h : Scan front run (some first) pos) {rest : List Char}
    (hrest : ∀ c ∈ rest.head?, Text.isBlank c) :
    WordAt (front ++ run ++ rest) ⟨first, pos⟩ front run rest := by
  have hbegun := h.begun_eq
  split at hbegun
  · cases hbegun
  · next hne => exact ⟨rfl, Option.some.inj hbegun, h.pos_eq, hne, h.letters, h.apart, hrest⟩

/-- A blank adds the word being read, if there is one, to what the scan is done with. -/
theorem length_words_blank (h : Scan front run begun pos) (hc : Text.isBlank c) :
    (Text.words (front ++ run ++ [c])).length =
      (Text.words front).length + (wordSegmentsFrom begun pos []).length := by
  have hnone : Text.words [c] = [] := Text.wordsFrom_append_blank hc [] [] []
  cases begun with
  | none =>
    rw [h.run_eq_nil, List.append_nil, Text.words_append (.inl h.apart), hnone, List.append_nil]
    rfl
  | some first =>
    have hword : WordAt (front ++ run ++ [c]) _ front run [c] := h.wordAt (by simpa using hc)
    rw [hword.words_eq, hnone, List.append_nil, List.length_append]
    rfl

end Scan

/-- The scan finds the words that are still to be read. -/
theorem wordAt_wordSegmentsFrom {begun : Option Nat} {pos k : Nat} {front run cs : List Char}
    {s : Stretch} (h : Scan front run begun pos)
    (hs : (wordSegmentsFrom begun pos cs)[k]? = some s) :
    ∃ before word after, WordAt (front ++ run ++ cs) s before word after ∧
      (Text.words before).length = (Text.words front).length + k := by
  induction cs generalizing begun pos front run k with
  | nil =>
    cases begun with
    | none => cases hs
    | some first =>
      obtain ⟨rfl, rfl⟩ := wordSegmentsFrom_end hs
      exact ⟨front, run, [], h.wordAt (by simp), rfl⟩
  | cons c rest ih =>
    by_cases hc : Text.isBlank c
    · -- the word begun comes first, and the others are found from here on
      rw [wordSegmentsFrom_blank hc, List.getElem?_append] at hs
      split at hs
      · next hk =>
        cases begun with
        | none => cases hs
        | some first =>
          obtain ⟨rfl, rfl⟩ := wordSegmentsFrom_end hs
          exact ⟨front, run, c :: rest, h.wordAt (by simpa using hc), rfl⟩
      · next hk =>
        obtain ⟨before, word, after, hword, hlength⟩ := ih (h.blank hc) hs
        refine ⟨before, word, after, by simpa using hword, ?_⟩
        rw [hlength, h.length_words_blank hc]
        omega
    · rw [wordSegmentsFrom_letter hc] at hs
      obtain ⟨before, word, after, hword, hlength⟩ := ih (h.letter hc) hs
      exact ⟨before, word, after, by simpa using hword, hlength⟩

/-- There are as many segments as words. -/
theorem length_wordSegmentsFrom {begun : Option Nat} {word : List Char}
    (h : begun.isNone = word.isEmpty) (pos : Nat) (cs : List Char) :
    (wordSegmentsFrom begun pos cs).length = (Text.wordsFrom word cs).length := by
  have hends {begun : Option Nat} {word : List Char} (h : begun.isNone = word.isEmpty) (pos : Nat) :
      (wordSegmentsFrom begun pos []).length = (Text.wordsFrom word []).length := by
    cases begun with
    | none =>
      rw [List.isEmpty_iff.1 h.symm]
      rfl
    | some first =>
      obtain ⟨c, word, rfl⟩ := List.exists_cons_of_ne_nil
        (show word ≠ [] by rintro rfl; cases h)
      rfl
  induction cs generalizing begun word pos with
  | nil => exact hends h pos
  | cons c rest ih =>
    by_cases hc : Text.isBlank c
    · have hwords := Text.wordsFrom_append_blank hc word [] rest
      rw [List.nil_append] at hwords
      have hrest : (wordSegmentsFrom none (pos + 1) rest).length = (Text.words rest).length :=
        ih rfl (pos + 1)
      rw [wordSegmentsFrom_blank hc, hwords, List.length_append, List.length_append, hends h, hrest]
    · have hwords : Text.wordsFrom word (c :: rest) = Text.wordsFrom (c :: word) rest := if_neg hc
      rw [wordSegmentsFrom_letter hc, hwords]
      exact ih rfl (pos + 1)

theorem count_word (delimiter cs : List Char) :
    count .word delimiter cs = (Text.words cs).length :=
  length_wordSegmentsFrom rfl 0 cs

/-- The `k`-th segment stands behind `k` words. -/
theorem wordAt_segment {delimiter cs : List Char} {k : Nat} {s : Stretch}
    (hs : (segments .word delimiter cs)[k]? = some s) :
    ∃ before word after, WordAt cs s before word after ∧ (Text.words before).length = k := by
  obtain ⟨before, word, after, hword, hlength⟩ := wordAt_wordSegmentsFrom .start hs
  exact ⟨before, word, after, hword, by simpa [Text.words, Text.wordsFrom] using hlength⟩

/-- The words of a text, read one after another. -/
theorem texts_word (delimiter cs : List Char) : texts .word delimiter cs = Text.words cs := by
  have hcount := count_word delimiter cs
  refine List.ext_getElem (by simp [texts, hcount]) fun k hk hk' => ?_
  have hlength : (segments .word delimiter cs).length = (Text.words cs).length := hcount
  have hs := List.getElem?_eq_getElem (show k < (segments .word delimiter cs).length by omega)
  obtain ⟨before, word, after, hword, rfl⟩ := wordAt_segment hs
  have hget := get_single (by rwa [hcount]) hs
  simp only [texts, List.getElem_map, List.getElem_range]
  rw [hget, hword.of_eq]
  obtain ⟨_, hk⟩ := List.getElem?_eq_some_iff.1 hword.getElem?_words
  exact hk.symm

/-! ## Writing words -/

/-- A word past the end is written apart from what is there. -/
theorem words_extend (missing : Nat) (delimiter cs new : List Char) :
    Text.words (extend .word missing delimiter cs new) = Text.words cs ++ Text.words new := by
  simp only [extend]
  split
  · next c hlast =>
    split
    · next hc =>
      refine Text.words_append (.inl fun b hb => ?_)
      obtain rfl : c = b := by simpa [hlast] using hb
      exact hc
    · exact Text.wordsFrom_append_blank (by decide) [] cs new
  · next hlast =>
    obtain rfl : cs = [] := List.getLast?_eq_none_iff.1 hlast
    rfl

/-- Putting a text into a word puts the words of the text in its place. -/
theorem words_put (delimiter cs new : List Char) {i : Int} (hi : 1 ≤ i) :
    ∃ out, (single .word i).put delimiter cs .into new = .ok out ∧
      Text.words out = (Text.words cs).take (i - 1).toNat ++ Text.words new ++
        (Text.words cs).drop i.toNat := by
  have hlength : (segments .word delimiter cs).length = (Text.words cs).length :=
    count_word delimiter cs
  refine ⟨_, put_single .word delimiter cs new hi, ?_⟩
  by_cases hpast : (segments .word delimiter cs).length < i
  · rw [if_pos hpast, List.take_of_length_le (by omega), List.drop_eq_nil_of_le (by omega),
      List.append_nil]
    split
    · next hnew =>
      rw [List.isEmpty_iff.1 hnew]
      exact (List.append_nil _).symm
    · exact words_extend ..
  · have hk : (i - 1).toNat < (segments .word delimiter cs).length := by omega
    have hs := List.getElem?_eq_getElem hk
    obtain ⟨before, word, after, hword, hbefore⟩ := wordAt_segment hs
    have hdrop : i.toNat = (Text.words before ++ [word]).length := by
      rw [List.length_append, hbefore, List.length_singleton]
      omega
    rw [if_neg hpast, between, hs, Option.getD_some, hword.words_replace, hword.words_eq, hdrop,
      List.drop_left, ← hbefore, List.append_assoc _ [word], List.take_left]

/-! ## Writing characters -/

theorem count_char (delimiter cs : List Char) : count .char delimiter cs = cs.length := by
  simp [count, counted, segments]

theorem put_char (delimiter cs new : List Char) {i : Int} (hi : 1 ≤ i) :
    (single .char i).put delimiter cs .into new = .ok
      (if i ≤ cs.length then cs.take (i - 1).toNat ++ new ++ cs.drop i.toNat else cs ++ new) := by
  have hlength : (segments .char delimiter cs).length = cs.length := count_char delimiter cs
  rw [put_single .char delimiter cs new hi, hlength]
  by_cases hpast : (cs.length : Int) < i
  · rw [if_pos hpast, if_neg (show ¬ i ≤ cs.length by omega)]
    split
    · next hnew => rw [List.isEmpty_iff.1 hnew, List.append_nil]
    · rfl
  · have hk : (i - 1).toNat < cs.length := by omega
    have hs : (segments .char delimiter cs)[(i - 1).toNat]? =
        some ⟨(i - 1).toNat, (i - 1).toNat + 1⟩ := by
      rw [segments, List.getElem?_map, List.getElem?_range hk, Option.map_some]
    rw [if_neg hpast, if_pos (by omega), between, hs, Option.getD_some, Stretch.replace,
      show i.toNat = (i - 1).toNat + 1 by omega]

/-! ## Words and characters -/

/-- **Writing words and characters edits a list.** Putting a text without blanks into the `i`-th
word sets that word, or removes it if the text is empty; past the last word it adds one, unless the
text is empty. Putting a text into the `i`-th character puts its characters in place of that one,
and past the end it adds them. -/
theorem put_words_chars (delimiter text new : List Char) (i : Int) (hi : 1 ≤ i) :
    (∃ out, (single .word i).put delimiter text .into new = .ok out ∧
      ((∀ c ∈ new, ¬ Text.isBlank c) → texts .word delimiter out =
        if i ≤ count .word delimiter text then
          if new = [] then (texts .word delimiter text).eraseIdx (i - 1).toNat
          else (texts .word delimiter text).set (i - 1).toNat new
        else if new = [] then texts .word delimiter text
        else texts .word delimiter text ++ [new])) ∧
    (single .char i).put delimiter text .into new = .ok
      (if i ≤ count .char delimiter text then
        text.take (i - 1).toNat ++ new ++ text.drop i.toNat
      else text ++ new) := by
  constructor
  · obtain ⟨out, hput, hout⟩ := words_put delimiter text new hi
    refine ⟨out, hput, fun hnew => ?_⟩
    have hnext : i.toNat = (i - 1).toNat + 1 := by omega
    rw [texts_word, texts_word, count_word, hout, Text.words_of_letters hnew, hnext]
    by_cases hpast : i ≤ (Text.words text).length
    · rw [if_pos hpast]
      split
      · rw [List.append_nil, List.eraseIdx_eq_take_drop_succ]
      · rw [List.set_eq_take_append_cons_drop, if_pos (by omega), List.append_assoc,
          List.singleton_append]
    · rw [if_neg hpast, List.take_of_length_le (by omega), List.drop_eq_nil_of_le (by omega),
        List.append_nil]
      split
      · rw [List.append_nil]
      · rfl
  · rw [count_char]
    exact put_char delimiter text new hi

/-- A word between other blanks than spaces, one past the end of a text that ends with a letter,
and a character. -/
theorem put_words_chars_between_blanks :
    (∃ out, (single .word 2).put [','] "a\t b\nc".toList .into [] = .ok out ∧
      texts .word [','] out = [['a'], ['c']]) ∧
    (∃ out, (single .word 9).put [','] "a b".toList .into ['c', 'd'] = .ok out ∧
      texts .word [','] out = [['a'], ['b'], ['c', 'd']]) ∧
    (single .char 2).put [','] "abc".toList .into "xy".toList = .ok "axyc".toList := by
  refine ⟨?_, ?_, ?_⟩
  · obtain ⟨out, hput, hwords⟩ := (put_words_chars [','] "a\t b\nc".toList [] 2 (by decide)).1
    exact ⟨out, hput, (hwords nofun).trans (by decide)⟩
  · obtain ⟨out, hput, hwords⟩ := (put_words_chars [','] "a b".toList ['c', 'd'] 9 (by decide)).1
    have hletters : ∀ c ∈ ['c', 'd'], ¬ Text.isBlank c :=
      List.forall_mem_cons.2 ⟨by decide, List.forall_mem_singleton.2 (by decide)⟩
    exact ⟨out, hput, (hwords hletters).trans (by decide)⟩
  · exact (put_words_chars [','] "abc".toList "xy".toList 2 (by decide)).2

end Chunk

end CardScript
