import CardScript.Proofs.Chunk.Rows
import CardScript.Value.Listing
import CardScript.World.Basic

/-!
# The chunks of a text as a list

All chunks of a kind, read one after another, are what lies in the segments that count
(`texts_eq`). For items that is the split of the text at its delimiters, without an empty piece at
the end (`texts_item`). A value is split the other way round: a delimiter at the end is dropped
first, and then the rest is split. The two ways agree as long as the delimiter dropped is one that
splitting from the left comes to as well (`items_splitAlike_iff`), which is sure for a delimiter
that cannot overlap itself, and only for such.
-/

namespace CardScript

namespace Text

/-! ## The last piece of a split -/

variable {d : Char} {ds : List Char}

/-- The last piece of a split that is under way is all that is left, or begins after a delimiter;
and no delimiter begins anywhere in what it takes from the text. -/
theorem last_splitFrom {skip : Nat} {piece cs last : List Char}
    (h : (splitFrom d ds skip piece cs).getLast? = some last) :
    (last = piece.reverse ++ cs.drop skip ∧ ∀ t, t <:+ cs.drop skip → ¬ (d :: ds) <+: t) ∨
      (∃ before, cs.drop skip = before ++ (d :: ds) ++ last) ∧
        ∀ t, t <:+ last → ¬ (d :: ds) <+: t := by
  fun_induction splitFrom d ds skip piece cs with
  | case1 skip piece =>
    obtain rfl : piece.reverse = last := by simpa using h
    refine .inl ⟨by simp, fun t ht => ?_⟩
    obtain rfl : t = [] := by simpa using ht
    simp
  | case2 piece skip c cs ih => simpa using ih h
  | case3 piece c cs hmatch ih =>
    obtain ⟨rest, hrest⟩ := List.isPrefixOf_iff_prefix.1 hmatch
    obtain ⟨rfl, rfl⟩ : d = c ∧ ds ++ rest = cs := by simpa using hrest
    rw [List.getLast?_cons_of_ne_nil (splitFrom_ne_nil _ _ _ _ _)] at h
    refine .inr ?_
    rcases ih h with ⟨hlast, hnone⟩ | ⟨⟨before, hbefore⟩, hnone⟩
    · have hlast : last = rest := by simpa using hlast
      exact ⟨⟨[], by simp [hlast]⟩, by simpa [hlast] using hnone⟩
    · have hbefore : rest = before ++ (d :: ds) ++ last := by simpa using hbefore
      exact ⟨⟨(d :: ds) ++ before, by simp [hbefore]⟩, hnone⟩
  | case4 piece c cs hmatch ih =>
    rcases ih h with ⟨hlast, hnone⟩ | ⟨⟨before, hbefore⟩, hnone⟩
    · refine .inl ⟨by simpa using hlast, fun t ht => ?_⟩
      rcases List.suffix_cons_iff.1 ht with rfl | ht
      · exact fun hprefix => hmatch (List.isPrefixOf_iff_prefix.2 hprefix)
      · exact hnone t (by simpa using ht)
    · have hbefore : cs = before ++ (d :: ds) ++ last := by simpa using hbefore
      exact .inr ⟨⟨c :: before, by simp [hbefore]⟩, hnone⟩

/-- A text is its last piece, or ends with a delimiter and its last piece; and no delimiter begins
in the last piece. -/
theorem last_splitOn {delimiter cs last : List Char} (hne : delimiter ≠ [])
    (h : (splitOn delimiter cs).getLast? = some last) :
    (last = cs ∨ ∃ before, cs = before ++ delimiter ++ last) ∧
      ∀ t, t <:+ last → ¬ delimiter <+: t := by
  obtain ⟨d, ds, rfl⟩ := List.exists_cons_of_ne_nil hne
  rcases last_splitFrom h with ⟨rfl, hnone⟩ | ⟨hbefore, hnone⟩
  · exact ⟨.inl rfl, hnone⟩
  · exact ⟨.inr hbefore, hnone⟩

/-- What is to be passed over leaves no trace. -/
theorem splitFrom_skip (piece passed cs : List Char) :
    splitFrom d ds passed.length piece (passed ++ cs) = splitFrom d ds 0 piece cs := by
  induction passed with
  | nil => rfl
  | cons c passed ih => exact ih

/-- A delimiter at the start ends an empty piece. -/
theorem splitOn_delimiter_append (rest : List Char) :
    splitOn (d :: ds) (d :: ds ++ rest) = [] :: splitFrom d ds 0 [] rest := by
  have hmatch : (d :: ds).isPrefixOf (d :: (ds ++ rest)) :=
    List.isPrefixOf_iff_prefix.2 (List.prefix_append (d :: ds) rest)
  simp only [splitOn, List.cons_append, splitFrom, hmatch, if_true, splitFrom_skip,
    List.reverse_nil]

/-- A delimiter at the end adds an empty piece and nothing else, unless what went before reaches
into it: then the last piece is not empty. -/
theorem splitFrom_append_delimiter {skip : Nat} (hskip : skip ≤ ds.length) {piece cs : List Char}
    (h : (splitFrom d ds skip piece (cs ++ d :: ds)).getLast? = some []) :
    skip ≤ cs.length ∧
      splitFrom d ds skip piece (cs ++ d :: ds) = splitFrom d ds skip piece cs ++ [[]] := by
  induction cs generalizing skip piece with
  | nil =>
    cases skip with
    | zero =>
      have hpassed : splitFrom d ds ds.length [] (ds ++ []) = [[]] := splitFrom_skip [] ds []
      rw [List.append_nil] at hpassed
      simp [splitFrom, hpassed]
    | succ skip =>
      -- too little is left for another delimiter, and something is left
      exfalso
      have hlength : (ds.drop skip).length < (d :: ds).length := by
        rw [List.length_drop, List.length_cons]
        omega
      rcases last_splitFrom (show (splitFrom d ds skip piece ds).getLast? = some [] from h) with
        ⟨hlast, -⟩ | ⟨⟨before, hbefore⟩, -⟩
      · have hdrop : ds.drop skip = [] := (List.append_eq_nil_iff.1 hlast.symm).2
        rw [List.drop_eq_nil_iff] at hdrop
        omega
      · rw [hbefore] at hlength
        simp only [List.append_nil, List.length_append] at hlength
        omega
  | cons c cs ih =>
    cases skip with
    | succ skip =>
      obtain ⟨hle, hsplit⟩ := ih (show skip ≤ ds.length by omega) h
      exact ⟨Nat.succ_le_succ hle, hsplit⟩
    | zero =>
      refine ⟨Nat.zero_le _, ?_⟩
      by_cases hmatch : (d :: ds).isPrefixOf (c :: (cs ++ d :: ds))
      · simp only [List.cons_append, splitFrom, hmatch, if_true] at h ⊢
        rw [List.getLast?_cons_of_ne_nil (splitFrom_ne_nil _ _ _ _ _)] at h
        obtain ⟨hle, hsplit⟩ := ih (Nat.le_refl _) h
        have hshort : (d :: ds).isPrefixOf (c :: cs) := by
          have hlong : (d :: ds) <+: (c :: cs) ++ d :: ds := List.isPrefixOf_iff_prefix.1 hmatch
          exact List.isPrefixOf_iff_prefix.2 <|
            List.prefix_of_prefix_length_le hlong (List.prefix_append ..) (by simpa using hle)
        simp only [hshort, if_true, hsplit, List.cons_append]
      · have hshort : ¬ (d :: ds).isPrefixOf (c :: cs) := fun hshort => hmatch <|
          List.isPrefixOf_iff_prefix.2 <|
            (List.isPrefixOf_iff_prefix.1 hshort).trans (List.prefix_append (c :: cs) (d :: ds))
        simp only [List.cons_append, splitFrom, hmatch, Bool.false_eq_true, if_false] at h
        simp only [List.cons_append, splitFrom, hmatch, hshort, Bool.false_eq_true, if_false]
        exact (ih (Nat.zero_le _) h).2

/-! ## Delimiters that overlap themselves -/

/-- Two occurrences of the text can overlap: it begins as it ends, and not only as a whole. -/
def OverlapsItself (cs : List Char) : Prop :=
  ∃ n < cs.length, 0 < n ∧ cs.take n <:+ cs

instance (cs : List Char) : Decidable (OverlapsItself cs) := by
  unfold OverlapsItself
  infer_instance

/-- An occurrence that ends a little after another one overlaps it. -/
theorem OverlapsItself.of_suffix_append {cs rest : List Char} (hends : cs <:+ cs ++ rest)
    (hpos : 0 < rest.length) (hlt : rest.length < cs.length) : OverlapsItself cs := by
  obtain ⟨shift, hshift⟩ := hends
  have hlength : shift.length = rest.length := by
    have hlength := congrArg List.length hshift
    simp only [List.length_append] at hlength
    omega
  refine ⟨cs.length - rest.length, by omega, by omega, shift, ?_⟩
  have htake := congrArg (List.take cs.length) hshift
  rwa [List.take_append, List.take_of_length_le (by omega), hlength, List.take_left] at htake

/-- Where the delimiter ends a text and does not overlap itself, splitting comes to it. -/
theorem last_splitOn_eq_nil {delimiter cs : List Char} (hne : delimiter ≠ [])
    (hoverlaps : ¬ OverlapsItself delimiter) (hends : delimiter <:+ cs) :
    (splitOn delimiter cs).getLast? = some [] := by
  have hlast := List.getLast?_eq_some_getLast (splitOn_ne_nil delimiter cs)
  generalize (splitOn delimiter cs).getLast (splitOn_ne_nil delimiter cs) = last at hlast
  obtain ⟨hwhere, hnone⟩ := last_splitOn hne hlast
  have hsuffix : last <:+ cs := by
    rcases hwhere with rfl | ⟨before, rfl⟩
    · exact List.suffix_refl _
    · exact List.suffix_append ..
  have hshort : last.length < delimiter.length := Nat.lt_of_not_le fun hlong =>
    hnone delimiter (List.suffix_of_suffix_length_le hends hsuffix hlong) (List.prefix_refl _)
  have hnil : last.length = 0 := by
    refine Nat.eq_zero_of_not_pos fun hpos => ?_
    rcases hwhere with rfl | ⟨before, rfl⟩
    · exact absurd hends.length_le (Nat.not_le.2 hshort)
    -- the delimiter at the end begins inside the one that splitting came to last
    · have hinside : delimiter <:+ delimiter ++ last := by
        refine List.suffix_of_suffix_length_le hends ?_ (by simp)
        rw [List.append_assoc]
        exact List.suffix_append ..
      exact hoverlaps (.of_suffix_append hinside hpos hshort)
  rw [hlast, List.length_eq_zero_iff.1 hnil]

/-- A delimiter that overlaps itself ends some text in which splitting does not come to it. -/
theorem exists_last_ne_nil {delimiter : List Char} (hoverlaps : OverlapsItself delimiter) :
    ∃ cs, delimiter <:+ cs ∧ (splitOn delimiter cs).getLast? ≠ some [] := by
  obtain ⟨n, hn, hpos, ⟨before, hbefore⟩⟩ := hoverlaps
  have hne : delimiter ≠ [] := List.ne_nil_of_length_pos (by omega)
  have hlength : before.length + n = delimiter.length := by
    have hlength := congrArg List.length hbefore
    simpa [Nat.min_eq_left (Nat.le_of_lt hn)] using hlength
  have hcs : before ++ delimiter = delimiter ++ delimiter.drop n := by
    have hsplit := List.take_append_drop n delimiter
    calc before ++ delimiter = before ++ (delimiter.take n ++ delimiter.drop n) := by rw [hsplit]
      _ = delimiter ++ delimiter.drop n := by rw [← List.append_assoc, hbefore]
  refine ⟨before ++ delimiter, List.suffix_append .., fun hlast => ?_⟩
  obtain ⟨d, ds, rfl⟩ := List.exists_cons_of_ne_nil hne
  rw [hcs, splitOn_delimiter_append, List.getLast?_cons_of_ne_nil (splitFrom_ne_nil _ _ _ _ _)]
    at hlast
  -- the first occurrence leaves something, but too little for a second one
  have hrest : ((d :: ds).drop n).length = (d :: ds).length - n := List.length_drop
  rcases last_splitFrom hlast with ⟨hlast, -⟩ | ⟨⟨before, hbefore⟩, -⟩
  · have hnil : (d :: ds).drop n = [] := by simpa using hlast.symm
    rw [hnil, List.length_nil] at hrest
    omega
  · rw [List.drop_zero] at hbefore
    rw [hbefore, List.length_append, List.length_append] at hrest
    omega

end Text

namespace Chunk

/-! ## Chunks one after another -/

/-- The texts of all chunks of a kind, in order. -/
def texts (kind : Kind) (delimiter cs : List Char) : List (List Char) :=
  (List.range (count kind delimiter cs)).map fun (i : Nat) => (single kind (i + 1)).get delimiter cs

/-- A chunk that counts is read from its segment. -/
theorem get_single {kind : Kind} {delimiter cs : List Char} {i : Nat} {s : Stretch}
    (hi : i < count kind delimiter cs) (hs : (segments kind delimiter cs)[i]? = some s) :
    (single kind (i + 1)).get delimiter cs = s.of cs := by
  let l : Level Place := { kind, start := .at (i + 1) }
  have hbounds : l.bounds? (count kind delimiter cs) = some ((i + 1 : Int), (i + 1 : Int)) :=
    (Level.bounds?_single rfl).2 ⟨rfl, rfl, by omega, by omega⟩
  show (l.stretch delimiter cs).of cs = _
  rw [Level.stretch_of_bounds (show count kind delimiter cs ≠ 0 by omega) hbounds, between]
  simp [l, hs]

/-- The chunks are what lies in the segments that count. -/
theorem texts_eq (kind : Kind) (delimiter cs : List Char) :
    texts kind delimiter cs =
      ((segments kind delimiter cs).take (count kind delimiter cs)).map (·.of cs) := by
  have hle : count kind delimiter cs ≤ (segments kind delimiter cs).length := counted_le ..
  refine List.ext_getElem (by simp [texts, hle]) fun i hi hi' => ?_
  simp only [texts, List.length_map, List.length_range] at hi
  have hs := List.getElem?_eq_getElem (Nat.lt_of_lt_of_le hi hle)
  simp only [texts, List.getElem_map, List.getElem_range, List.getElem_take, get_single hi hs]

theorem Stretch.of_middle (front piece back : List Char) :
    (Stretch.mk front.length (front.length + piece.length)).of (front ++ piece ++ back) =
      piece := by
  rw [of, ← List.length_append, List.take_left, List.drop_left]

/-- A stretch of a text is empty if nothing is read there. -/
theorem Stretch.isEmpty_iff_of_eq_nil {s : Stretch} {cs : List Char} (hle : s.start ≤ s.stop)
    (hlen : s.stop ≤ cs.length) : s.isEmpty ↔ s.of cs = [] := by
  rw [← List.length_eq_zero_iff, length_of hlen, isEmpty, beq_iff_eq]
  omega

/-! ## Items -/

/-- Each piece is read where it was laid out. -/
theorem map_of_layOut (delimiter front : List Char) (pieces : List (List Char)) :
    (layOut delimiter.length List.length front.length pieces).map
      (·.of (front ++ Text.joinWith delimiter pieces)) = pieces := by
  induction pieces generalizing front with
  | nil => rfl
  | cons piece rest ih =>
    cases rest with
    | nil =>
      have hpiece := Stretch.of_middle front piece []
      rw [List.append_nil] at hpiece
      simp only [layOut, Text.joinWith, List.map_cons, List.map_nil, hpiece]
    | cons next rest =>
      have hpiece := Stretch.of_middle front piece
        (delimiter ++ Text.joinWith delimiter (next :: rest))
      have hrest := ih (front ++ piece ++ delimiter)
      simp only [List.length_append, List.append_assoc] at hpiece hrest
      rw [layOut, List.map_cons, Text.joinWith_cons (by simp), List.append_assoc, hpiece]
      rw [Nat.add_assoc, hrest]

theorem map_of_delimited (delimiter cs : List Char) :
    (delimited delimiter cs).map (·.of cs) = Text.splitOn delimiter cs := by
  have hpieces := map_of_layOut delimiter [] (Text.splitOn delimiter cs)
  rwa [List.nil_append, Text.joinWith_splitOn] at hpieces

/-- The items of a text are the pieces between its delimiters, without an empty one at the end. -/
theorem texts_item (delimiter cs : List Char) :
    texts .item delimiter cs =
      if (Text.splitOn delimiter cs).getLast? = some [] then (Text.splitOn delimiter cs).dropLast
      else Text.splitOn delimiter cs := by
  have hpieces := map_of_delimited delimiter cs
  have hne : delimited delimiter cs ≠ [] := by
    intro hnil
    rw [hnil] at hpieces
    exact Text.splitOn_ne_nil delimiter cs hpieces.symm
  have hlast := List.getLast?_eq_some_getLast hne
  obtain ⟨-, hle, hlen⟩ := (segments_inOrder .item delimiter cs).bounds
    (hlast ▸ List.getLast?_eq_getElem?.symm)
  have hempty := Stretch.isEmpty_iff_of_eq_nil hle hlen
  have hcount : count .item delimiter cs =
      if ((delimited delimiter cs).getLast hne).isEmpty then (delimited delimiter cs).length - 1
      else (delimited delimiter cs).length := by
    simp only [count, segments, counted, hlast]
  have hpiece : (Text.splitOn delimiter cs).getLast? =
      some (((delimited delimiter cs).getLast hne).of cs) := by
    rw [← hpieces, List.getLast?_map, hlast, Option.map_some]
  have hnil : (Text.splitOn delimiter cs).getLast? = some [] ↔
      ((delimited delimiter cs).getLast hne).isEmpty := by
    rw [hpiece, Option.some.injEq, hempty]
  rw [texts_eq, hcount]
  by_cases hends : ((delimited delimiter cs).getLast hne).isEmpty
  · rw [if_pos hends, if_pos (hnil.2 hends), segments, ← List.dropLast_eq_take, List.map_dropLast,
      hpieces]
  · rw [if_neg hends, if_neg fun h => hends (hnil.1 h), segments, List.take_length, hpieces]

end Chunk

/-! ## The items of a value -/

theorem Text.dropEnding?_append (cs ending : List Char) :
    dropEnding? ending (cs ++ ending) = some cs := by
  simp [dropEnding?]

theorem Text.dropEnding?_eq_none {ending cs : List Char} (h : ¬ ending <:+ cs) :
    dropEnding? ending cs = none := by
  simp [dropEnding?, h]

theorem splitItems_nil (delimiter : List Char) : splitItems delimiter [] = [] := rfl

theorem splitItems_eq {delimiter cs : List Char} (hdelimiter : delimiter ≠ []) (hcs : cs ≠ []) :
    splitItems delimiter cs = Text.splitOn delimiter ((Text.dropEnding? delimiter cs).getD cs) := by
  simp [splitItems, hdelimiter, hcs]

/-- Dropping a delimiter at the end and then splitting comes to the same as splitting and then
dropping an empty piece, if splitting comes to that delimiter. -/
theorem splitItems_eq_texts {delimiter cs : List Char} (hne : delimiter ≠ [])
    (h : delimiter <:+ cs → (Text.splitOn delimiter cs).getLast? = some []) :
    splitItems delimiter cs = Chunk.texts .item delimiter cs := by
  obtain ⟨d, ds, rfl⟩ := List.exists_cons_of_ne_nil hne
  rw [Chunk.texts_item]
  by_cases hcs : cs = []
  · rw [hcs, splitItems_nil]
    rfl
  rw [splitItems_eq hne hcs]
  by_cases hends : (d :: ds) <:+ cs
  · have hlast := h hends
    obtain ⟨front, rfl⟩ := hends
    obtain ⟨-, hsplit⟩ := Text.splitFrom_append_delimiter (Nat.zero_le _) hlast
    rw [if_pos hlast, Text.dropEnding?_append, Option.getD_some]
    show Text.splitFrom d ds 0 [] front = (Text.splitFrom d ds 0 [] (front ++ d :: ds)).dropLast
    rw [hsplit, List.dropLast_concat]
  · have hlast : (Text.splitOn (d :: ds) cs).getLast? ≠ some [] := by
      intro hlast
      obtain ⟨hnil | ⟨before, hbefore⟩, -⟩ := Text.last_splitOn hne hlast
      · exact hcs hnil.symm
      · rw [List.append_nil] at hbefore
        exact hends ⟨before, hbefore.symm⟩
    rw [if_neg hlast, Text.dropEnding?_eq_none hends, Option.getD_none]

/-- A delimiter that is dropped without splitting coming to it is missed: with it, the items would
join to the whole text. -/
theorem splitItems_ne_texts {delimiter cs : List Char} (hne : delimiter ≠ [])
    (hends : delimiter <:+ cs) (hlast : (Text.splitOn delimiter cs).getLast? ≠ some []) :
    splitItems delimiter cs ≠ Chunk.texts .item delimiter cs := by
  obtain ⟨front, rfl⟩ := hends
  rw [splitItems_eq hne (by simp [hne]), Text.dropEnding?_append, Option.getD_some,
    Chunk.texts_item, if_neg hlast]
  intro hsame
  have hjoin := congrArg (fun pieces => (Text.joinWith delimiter pieces).length) hsame
  simp only [Text.joinWith_splitOn, List.length_append] at hjoin
  exact hne (List.length_eq_zero_iff.1 (by omega))

/-- The items of a value are the items that chunks of its text come to. -/
def Value.SplitAlike (delimiter text : String) : Prop :=
  (Value.ofText text).items delimiter =
    (Chunk.texts .item delimiter.toList text.toList).map fun cs => .ofText (String.ofList cs)

theorem Value.splitAlike_iff (delimiter text : String) : SplitAlike delimiter text ↔
    splitItems delimiter.toList text.toList =
      Chunk.texts .item delimiter.toList text.toList := by
  unfold SplitAlike items
  refine List.map_inj_right fun cs cs' h => ?_
  exact String.ofList_injective (congrArg Value.text h)

/-- **The two ways to split a text into items.** They agree on a text unless it ends with the
delimiter and splitting from the left does not come to that one; so they agree on all texts if,
and only if, the delimiter cannot overlap itself. -/
theorem Value.items_splitAlike_iff (delimiter : String) (hne : delimiter ≠ "") :
    (∀ text : String, SplitAlike delimiter text ↔
      (delimiter.toList <:+ text.toList →
        (Text.splitOn delimiter.toList text.toList).getLast? = some [])) ∧
    ((∀ text : String, SplitAlike delimiter text) ↔ ¬ Text.OverlapsItself delimiter.toList) := by
  have hdelimiter : delimiter.toList ≠ [] := by simpa using hne
  have hone (text : String) : SplitAlike delimiter text ↔
      (delimiter.toList <:+ text.toList →
        (Text.splitOn delimiter.toList text.toList).getLast? = some []) := by
    rw [splitAlike_iff]
    constructor
    · intro halike hends
      exact Decidable.byContradiction fun hlast =>
        splitItems_ne_texts hdelimiter hends hlast halike
    · exact splitItems_eq_texts hdelimiter
  refine ⟨hone, fun hall hoverlaps => ?_, fun hoverlaps text => ?_⟩
  · obtain ⟨cs, hends, hlast⟩ := Text.exists_last_ne_nil hoverlaps
    have halike := (hone (String.ofList cs)).1 (hall _)
    rw [String.toList_ofList] at halike
    exact hlast (halike hends)
  · exact (hone text).2 fun hends => Text.last_splitOn_eq_nil hdelimiter hoverlaps hends

/-- A delimiter of two characters that is safe on all texts, and one that is safe on some. -/
theorem Value.items_splitAlike_iff_commaBlank :
    (∀ text : String, SplitAlike ", " text) ∧ SplitAlike "aa" "baaaa" :=
  ⟨(items_splitAlike_iff ", " (by decide)).2.2 (by decide),
    ((items_splitAlike_iff "aa" (by decide)).1 "baaaa").2 fun _ => by decide⟩

/-- A delimiter that may be set and overlaps itself: the value has one item, the chunks are two. -/
theorem Value.items_not_splitAlike :
    (∃ w, (World.start {}).setProperty "itemDelimiter" (.ofText "aa") = .ok w ∧
      w.itemDelimiter = "aa".toList) ∧
    ((ofText "aaa").items "aa").map (·.text) = ["a"] ∧
    Chunk.texts .item "aa".toList "aaa".toList = ["".toList, "a".toList] ∧
    ¬ SplitAlike "aa" "aaa" := by
  refine ⟨⟨_, rfl, by decide +kernel⟩, by decide +kernel, by decide, fun halike => ?_⟩
  rw [splitAlike_iff] at halike
  revert halike
  decide

end CardScript
