import CardScript.Proofs.Chunk.WriteBack

/-!
# Items and lines as rows that grow

The items and lines of a text are the pieces between single characters, each without an ending
that does not count (`Kind.Rows`), so a text is a list of rows (`rowsOf`). Reading a place looks it
up in that list, with nothing beyond the end (`Rows.get_eq`), and writing a place sets it there,
after as many empty rows as are missing (`Rows.put_eq`). What a write does to all places at once
(`put_get_rows`) is then a fact about lists.
-/

namespace CardScript

namespace Text

/-! ## Splitting at a single character -/

variable {d : Char}

theorem splitFrom_of_not_mem {cs : List Char} (h : d ∉ cs) (piece : List Char) :
    splitFrom d [] 0 piece cs = [piece.reverse ++ cs] := by
  induction cs generalizing piece with
  | nil => simp [splitFrom]
  | cons c cs ih =>
    obtain ⟨hc, hcs⟩ : d ≠ c ∧ d ∉ cs := by simpa using h
    simp [splitFrom, List.isPrefixOf, hc, ih hcs]

theorem splitFrom_append {cs : List Char} (h : d ∉ cs) (piece rest : List Char) :
    splitFrom d [] 0 piece (cs ++ d :: rest) =
      (piece.reverse ++ cs) :: splitFrom d [] 0 [] rest := by
  induction cs generalizing piece with
  | nil => simp [splitFrom, List.isPrefixOf]
  | cons c cs ih =>
    obtain ⟨hc, hcs⟩ : d ≠ c ∧ d ∉ cs := by simpa using h
    simp [splitFrom, List.isPrefixOf, hc, ih hcs]

/-- Pieces that do not hold the delimiter come back as they were. -/
theorem splitOn_joinWith {pieces : List (List Char)} (hne : pieces ≠ [])
    (h : ∀ piece ∈ pieces, d ∉ piece) : splitOn [d] (joinWith [d] pieces) = pieces := by
  induction pieces with
  | nil => exact absurd rfl hne
  | cons piece rest ih =>
    obtain ⟨hpiece, hrest⟩ := List.forall_mem_cons.1 h
    cases rest with
    | nil => exact splitFrom_of_not_mem hpiece []
    | cons next rest =>
      have hsplit := splitFrom_append hpiece [] (joinWith [d] (next :: rest))
      rw [joinWith, List.append_assoc]
      exact hsplit.trans (congrArg (piece :: ·) (ih (by simp) hrest))

theorem not_mem_of_mem_splitFrom {piece cs p : List Char} (hpiece : d ∉ piece)
    (hp : p ∈ splitFrom d [] 0 piece cs) : d ∉ p := by
  induction cs generalizing piece with
  | nil =>
    rw [splitFrom, List.mem_singleton] at hp
    simpa [hp] using hpiece
  | cons c cs ih =>
    by_cases hc : d = c
    · simp only [splitFrom, List.isPrefixOf, hc, beq_self_eq_true, Bool.and_self, if_true,
        List.mem_cons] at hp
      rcases hp with rfl | hp
      · simpa using hpiece
      · exact ih List.not_mem_nil (hc ▸ hp)
    · simp only [splitFrom, List.isPrefixOf, beq_eq_false_iff_ne.2 hc, Bool.false_and] at hp
      exact ih (by simp [hc, hpiece]) hp

theorem not_mem_of_mem_splitOn {cs p : List Char} (hp : p ∈ splitOn [d] cs) : d ∉ p :=
  not_mem_of_mem_splitFrom List.not_mem_nil hp

theorem joinWith_eq_append (piece : List Char) (rest : List (List Char)) :
    joinWith [d] (piece :: rest) = piece ++ rest.flatMap (d :: ·) := by
  induction rest generalizing piece with
  | nil => simp [joinWith]
  | cons next rest ih =>
    rw [joinWith, ih, List.flatMap_cons]
    simp

/-- A joined text around one of its pieces. -/
theorem joinWith_around {pieces : List (List Char)} {k : Nat} {piece : List Char}
    (h : pieces[k]? = some piece) :
    joinWith [d] pieces = (pieces.take k).flatMap (· ++ [d]) ++ piece ++
      (pieces.drop (k + 1)).flatMap (d :: ·) := by
  induction pieces generalizing k with
  | nil => cases h
  | cons first rest ih =>
    cases k with
    | zero =>
      obtain rfl : first = piece := by simpa using h
      simp [joinWith_eq_append]
    | succ k =>
      have hne : rest ≠ [] := by
        rintro rfl
        cases h
      rw [joinWith_cons hne, ih (k := k) (by simpa using h)]
      simp

end Text

namespace Chunk

/-! ## Rows laid out in a text -/

section Layout

variable {width : List Char → Nat} {pieces : List (List Char)}

@[simp] theorem length_layOut (gap pos : Nat) : (layOut gap width pos pieces).length =
    pieces.length := by
  induction pieces generalizing pos with
  | nil => rfl
  | cons piece rest ih => simp [layOut, ih]

/-- A piece lies behind all earlier ones, each with its delimiter. -/
theorem getElem?_layOut (d : Char) (width : List Char → Nat) (pos : Nat) {k : Nat}
    {piece : List Char} (h : pieces[k]? = some piece) :
    (layOut 1 width pos pieces)[k]? = some
      (Stretch.mk 0 (width piece) |>.shift
        (pos + ((pieces.take k).flatMap (· ++ [d])).length)) := by
  induction pieces generalizing k pos with
  | nil => cases h
  | cons first rest ih =>
    cases k with
    | zero =>
      obtain rfl : first = piece := by simpa using h
      simp [layOut, Stretch.shift]
    | succ k =>
      rw [layOut, List.getElem?_cons_succ, ih _ (by simpa using h)]
      simp only [List.take_succ_cons, List.flatMap_cons, List.length_append, List.length_singleton]
      congr 2
      omega

/-- Reading the width of a piece out of a joined text. -/
theorem of_joinWith {d : Char} {k : Nat} {piece : List Char} (h : pieces[k]? = some piece)
    (hwidth : width piece ≤ piece.length) :
    ((Stretch.mk 0 (width piece)).shift ((pieces.take k).flatMap (· ++ [d])).length).of
      (Text.joinWith [d] pieces) = piece.take (width piece) := by
  rw [Text.joinWith_around h]
  simp [Stretch.of, Stretch.shift, List.take_append, hwidth]

/-- Replacing the width of a piece in a joined text keeps what it ends with. -/
theorem replace_joinWith {d : Char} {k : Nat} {piece : List Char} (h : pieces[k]? = some piece)
    (hwidth : width piece ≤ piece.length) (new : List Char) :
    ((Stretch.mk 0 (width piece)).shift ((pieces.take k).flatMap (· ++ [d])).length).replace
      (Text.joinWith [d] pieces) new =
      Text.joinWith [d] (pieces.set k (new ++ piece.drop (width piece))) := by
  have hk : k < pieces.length := (List.getElem?_eq_some_iff.1 h).1
  have hset : (pieces.set k (new ++ piece.drop (width piece)))[k]? =
      some (new ++ piece.drop (width piece)) := by rw [List.getElem?_set_self hk]
  rw [Text.joinWith_around h, Text.joinWith_around hset, List.take_set_of_le (Nat.le_refl k),
    List.drop_set_of_lt (Nat.lt_succ_self k)]
  simp [Stretch.replace, Stretch.shift, List.drop_append, hwidth]

end Layout

/-! ## Lists of rows -/

/-- Sets a row; rows that are missing before it are added empty, unless there is nothing to set. -/
def setRow (rows : List (List Char)) (k : Nat) (new : List Char) : List (List Char) :=
  if k < rows.length then rows.set k new
  else if new.isEmpty then rows
  else rows ++ List.replicate (k - rows.length) [] ++ [new]

/-- How many rows count: an empty one at the end does not. -/
def rowCount (rows : List (List Char)) : Nat :=
  if rows.getLast? = some [] then rows.length - 1 else rows.length

theorem getD_setRow (rows : List (List Char)) (k j : Nat) (new : List Char) :
    (setRow rows k new)[j]?.getD [] = if j = k then new else rows[j]?.getD [] := by
  unfold setRow
  split
  next hk =>
    rw [List.getElem?_set]
    grind
  next hk =>
    split
    next hnew =>
      have := List.isEmpty_iff.1 hnew
      grind
    next => grind

theorem rowCount_setRow {rows : List (List Char)} (hne : rows ≠ []) (k : Nat) {new : List Char}
    (hnew : new ≠ []) : rowCount (setRow rows k new) = max (rowCount rows) (k + 1) := by
  have hlength := List.length_pos_iff.2 hne
  unfold setRow
  split
  next hk =>
    rw [rowCount, rowCount, List.length_set, List.getLast?_eq_getElem?, List.length_set,
      List.getLast?_eq_getElem?, List.getElem?_set]
    grind
  next hk =>
    rw [if_neg (by simpa using hnew), rowCount, rowCount]
    grind

/-! ## Kinds of chunks that are rows -/

/-- The chunks of a kind are the pieces between single characters `d`, as far as `width` goes. -/
structure Kind.Rows (kind : Kind) (delimiter : List Char) (d : Char)
    (width : List Char → Nat) : Prop where
  segments_eq : ∀ cs, segments kind delimiter cs = layOut 1 width 0 (Text.splitOn [d] cs)
  counted_eq : ∀ all, counted kind all = counted .item all
  width_le : ∀ piece, width piece ≤ piece.length
  extend_eq : ∀ missing cs new,
    extend kind missing delimiter cs new = cs ++ List.replicate missing d ++ new

theorem Kind.Rows.item (d : Char) : Kind.Rows .item [d] d List.length where
  segments_eq _ := rfl
  counted_eq _ := rfl
  width_le _ := Nat.le_refl _
  extend_eq missing cs new := by simp [extend]

theorem Kind.Rows.line (delimiter : List Char) : Kind.Rows .line delimiter '\n' lineWidth where
  segments_eq _ := rfl
  counted_eq _ := rfl
  width_le := lineWidth_le
  extend_eq _ _ _ := rfl

/-- The rows of a text. -/
def rowsOf (d : Char) (width : List Char → Nat) (cs : List Char) : List (List Char) :=
  (Text.splitOn [d] cs).map fun piece => piece.take (width piece)

theorem rowsOf_ne_nil (d : Char) (width : List Char → Nat) (cs : List Char) :
    rowsOf d width cs ≠ [] := by
  simpa [rowsOf] using Text.splitOn_ne_nil [d] cs

/-- A single chunk of the whole text. -/
def single (kind : Kind) (n : Int) : Chunk Place :=
  .ofText { kind, start := .at n }

/-- A single place is written at its segment, or past the last one. -/
theorem put_single (kind : Kind) (delimiter cs new : List Char) {n : Int} (hn : 1 ≤ n) :
    (single kind n).put delimiter cs .into new = .ok
      (if (segments kind delimiter cs).length < n then
        if new.isEmpty then cs
        else extend kind (n - (segments kind delimiter cs).length).toNat delimiter cs new
      else (between (segments kind delimiter cs) n n).replace cs new) := by
  have hrequested : ¬ n < 1 := by omega
  simp only [single, put, Level.put, Place.number, Int.max_eq_left hn, hrequested, decide_false,
    Bool.false_and, Bool.false_eq_true, if_false, Int.lt_irrefl, Stretch.written]
  split
  · split <;> rfl
  · rfl

namespace Kind.Rows

variable {kind : Kind} {delimiter : List Char} {d : Char} {width : List Char → Nat}

/-- The piece at a place, where it lies, and what is read there. -/
theorem segment_eq (rows : kind.Rows delimiter d width) {cs piece : List Char} {k : Nat}
    (h : (Text.splitOn [d] cs)[k]? = some piece) :
    ∃ s, (segments kind delimiter cs)[k]? = some s ∧ s.stop = s.start + width piece ∧
      s.of cs = piece.take (width piece) ∧
      ∀ new, s.replace cs new = Text.joinWith [d]
        ((Text.splitOn [d] cs).set k (new ++ piece.drop (width piece))) := by
  have hjoin := Text.joinWith_splitOn [d] cs
  have hof := of_joinWith (d := d) h (rows.width_le piece)
  have hreplace := replace_joinWith (d := d) h (rows.width_le piece)
  have hsegment := getElem?_layOut d width 0 h
  rw [hjoin] at hof
  rw [rows.segments_eq, hsegment, Nat.zero_add]
  refine ⟨_, rfl, by simp [Stretch.shift], hof, fun new => ?_⟩
  rw [← hreplace, hjoin]

theorem length_segments (rows : kind.Rows delimiter d width) (cs : List Char) :
    (segments kind delimiter cs).length = (rowsOf d width cs).length := by
  rw [rows.segments_eq, length_layOut, rowsOf, List.length_map]

theorem getElem?_rowsOf {cs piece : List Char} {k : Nat}
    (h : (Text.splitOn [d] cs)[k]? = some piece) :
    (rowsOf d width cs)[k]? = some (piece.take (width piece)) := by
  rw [rowsOf, List.getElem?_map, h, Option.map_some]

/-- A segment is empty if its row is. -/
theorem isEmpty_iff (rows : kind.Rows delimiter d width) {cs : List Char} {k : Nat}
    {s : Stretch} (hs : (segments kind delimiter cs)[k]? = some s) :
    s.isEmpty ↔ (rowsOf d width cs)[k]? = some [] := by
  have hk : k < (Text.splitOn [d] cs).length := by
    have hk := (List.getElem?_eq_some_iff.1 hs).1
    rwa [rows.length_segments, rowsOf, List.length_map] at hk
  have hpiece := List.getElem?_eq_getElem hk
  obtain ⟨s', hs', hstop, -, -⟩ := rows.segment_eq hpiece
  obtain rfl : s = s' := Option.some.inj (hs.symm.trans hs')
  have hwidth := rows.width_le (Text.splitOn [d] cs)[k]
  rw [getElem?_rowsOf hpiece, Option.some.injEq, Stretch.isEmpty, beq_iff_eq, hstop,
    ← List.length_eq_zero_iff, List.length_take]
  omega

theorem count_eq (rows : kind.Rows delimiter d width) (cs : List Char) :
    count kind delimiter cs = rowCount (rowsOf d width cs) := by
  have hlength := rows.length_segments cs
  have hpos := List.length_pos_iff.2 (rowsOf_ne_nil d width cs)
  have hs := List.getElem?_eq_getElem (l := segments kind delimiter cs)
    (i := (segments kind delimiter cs).length - 1) (by omega)
  have hempty := rows.isEmpty_iff hs
  rw [count, rows.counted_eq, counted, List.getLast?_eq_getElem?, hs, rowCount,
    List.getLast?_eq_getElem?, ← hlength]
  simp only [hempty]

/-- Reading a place looks up its row. -/
theorem get_eq (rows : kind.Rows delimiter d width) (cs : List Char) {n : Int} (hn : 1 ≤ n) :
    (single kind n).get delimiter cs = (rowsOf d width cs)[(n - 1).toNat]?.getD [] := by
  let l : Level Place := { kind, start := .at n }
  show (l.stretch delimiter cs).of cs = _
  by_cases hle : n ≤ count kind delimiter cs
  · have hbounds : l.bounds? (count kind delimiter cs) = some (n, n) :=
      (Level.bounds?_single rfl).2 ⟨rfl, rfl, hn, hle⟩
    have hk : (n - 1).toNat < (Text.splitOn [d] cs).length := by
      have hcount := counted_le kind (segments kind delimiter cs)
      rw [rows.length_segments, rowsOf, List.length_map] at hcount
      have hcount : count kind delimiter cs ≤ (Text.splitOn [d] cs).length := hcount
      omega
    have hpiece := List.getElem?_eq_getElem hk
    obtain ⟨s, hs, -, hof, -⟩ := rows.segment_eq hpiece
    rw [Level.stretch_of_bounds (show count kind delimiter cs ≠ 0 by omega) hbounds, between]
    simp only [l, hs, Option.getD_some, hof, getElem?_rowsOf hpiece]
  · have hbounds : l.bounds? (count kind delimiter cs) = none := by
      cases h : l.bounds? (count kind delimiter cs) with
      | none => rfl
      | some bounds =>
        obtain ⟨hfirst, -, -, hlast⟩ := (Level.bounds?_single rfl).1 h
        rw [hfirst] at hlast
        exact absurd hlast hle
    rw [Level.stretch_of_absent (.inr hbounds), Stretch.of, List.take_length, List.drop_length]
    -- a row that does not count is empty
    cases hs : (segments kind delimiter cs)[(n - 1).toNat]? with
    | none =>
      rw [List.getElem?_eq_none_iff, rows.length_segments] at hs
      rw [List.getElem?_eq_none hs, Option.getD_none]
    | some s =>
      have hcounted : counted kind (segments kind delimiter cs) ≤ (n - 1).toNat := by
        have hcounted : ¬ n ≤ counted kind (segments kind delimiter cs) := hle
        omega
      rw [(rows.isEmpty_iff hs).1 (isEmpty_of_counted_lt hs hcounted), Option.getD_some]

/-- A text that makes up a row wherever it is set. -/
structure Fits (d : Char) (width : List Char → Nat) (new : List Char) : Prop where
  not_mem : d ∉ new
  width_eq : ∀ piece : List Char, width (new ++ piece.drop (width piece)) = new.length

/-- A text followed by delimiters and a row, as joined pieces. -/
theorem joinWith_append_replicate (cs new : List Char) (missing : Nat) :
    cs ++ List.replicate (missing + 1) d ++ new = Text.joinWith [d]
      (Text.splitOn [d] cs ++ List.replicate missing [] ++ [new]) := by
  obtain ⟨piece, rest, hsplit⟩ := List.exists_cons_of_ne_nil (Text.splitOn_ne_nil [d] cs)
  have hcs := Text.joinWith_splitOn [d] cs
  have hempty : (List.replicate missing []).flatMap (d :: ·) = List.replicate missing d := by
    induction missing with
    | zero => rfl
    | succ missing ih => simp [List.replicate_succ, ih]
  rw [hsplit, Text.joinWith_eq_append] at hcs
  rw [hsplit, List.cons_append, List.cons_append, Text.joinWith_eq_append, List.flatMap_append,
    List.flatMap_append, hempty, ← hcs, List.replicate_succ']
  simp

/-- Writing a place sets its row. -/
theorem put_eq (rows : kind.Rows delimiter d width) (cs : List Char) {n : Int} (hn : 1 ≤ n)
    {new : List Char} (hnew : Fits d width new) :
    ∃ out, (single kind n).put delimiter cs .into new = .ok out ∧
      rowsOf d width out = setRow (rowsOf d width cs) (n - 1).toNat new := by
  refine ⟨_, put_single kind delimiter cs new hn, ?_⟩
  have hlength := rows.length_segments cs
  have hpieces : (rowsOf d width cs).length = (Text.splitOn [d] cs).length := List.length_map ..
  have hrow : new.take (width new) = new := by
    have hwidth := hnew.width_eq []
    rw [List.drop_nil, List.append_nil] at hwidth
    rw [hwidth, List.take_length]
  unfold setRow
  by_cases hpast : (segments kind delimiter cs).length < n
  · rw [if_pos hpast, if_neg (show ¬ (n - 1).toNat < (rowsOf d width cs).length by omega)]
    by_cases hempty : new.isEmpty
    · rw [if_pos hempty, if_pos hempty]
    -- the text grows by pieces that hold nothing, and the new one
    have hmissing : (n - (segments kind delimiter cs).length).toNat =
        (n - 1).toNat - (rowsOf d width cs).length + 1 := by omega
    rw [if_neg hempty, if_neg hempty, rows.extend_eq, hmissing, joinWith_append_replicate, rowsOf,
      Text.splitOn_joinWith (by simp)]
    · simp [rowsOf, hrow]
    · intro piece hpiece
      simp only [List.mem_append, List.mem_replicate, List.mem_singleton] at hpiece
      rcases hpiece with (hpiece | ⟨_, rfl⟩) | rfl
      · exact Text.not_mem_of_mem_splitOn hpiece
      · exact List.not_mem_nil
      · exact hnew.not_mem
  · have hk : (n - 1).toNat < (Text.splitOn [d] cs).length := by omega
    obtain ⟨s, hs, -, -, hreplace⟩ := rows.segment_eq (List.getElem?_eq_getElem hk)
    rw [if_neg hpast, if_pos (hpieces ▸ hk), between, hs, Option.getD_some, hreplace, rowsOf,
      Text.splitOn_joinWith (by simpa using Text.splitOn_ne_nil [d] cs)]
    · rw [List.map_set, hnew.width_eq, List.take_left, rowsOf]
    · intro piece hpiece
      rcases List.mem_or_eq_of_mem_set hpiece with hpiece | rfl
      · exact Text.not_mem_of_mem_splitOn hpiece
      · simp only [List.mem_append, not_or]
        exact ⟨hnew.not_mem, fun hmem => Text.not_mem_of_mem_splitOn (List.getElem_mem hk)
          (List.mem_of_mem_drop hmem)⟩

end Kind.Rows

/-! ## Items and lines -/

/-- A text that can be a single item or line. -/
def Kind.Admits (kind : Kind) (delimiter new : List Char) : Prop :=
  match kind with
  | .item => ∃ d, delimiter = [d] ∧ d ∉ new
  | .line => '\n' ∉ new ∧ new.getLast? ≠ some '\r'
  | .char | .word => False

theorem lineWidth_append_drop {new : List Char} (h : new.getLast? ≠ some '\r')
    (piece : List Char) : lineWidth (new ++ piece.drop (lineWidth piece)) = new.length := by
  by_cases hpiece : piece.getLast? = some '\r'
  · have hdrop : piece.drop (piece.length - 1) = ['\r'] := by
      obtain ⟨front, rfl⟩ := List.getLast?_eq_some_iff.1 hpiece
      simp
    simp [lineWidth, hpiece, hdrop]
  · simp [lineWidth, hpiece, h]

theorem Kind.Admits.exists_rows {kind : Kind} {delimiter new : List Char}
    (h : kind.Admits delimiter new) :
    ∃ d width, kind.Rows delimiter d width ∧ Kind.Rows.Fits d width new := by
  cases kind with
  | item =>
    obtain ⟨d, rfl, hd⟩ := h
    exact ⟨d, List.length, .item d, hd, fun piece => by simp⟩
  | line => exact ⟨'\n', lineWidth, .line delimiter, h.1, lineWidth_append_drop h.2⟩
  | char | word => exact h.elim

/-- **Items and lines are a row that grows.** Putting a text into the `i`-th item or line succeeds.
Afterwards that place reads as the text and every other place as before, whether or not it was
there; and unless the text is empty, there are as many places as before, or `i` if that is
more. -/
theorem put_get_rows (kind : Kind) (delimiter text new : List Char) (i : Int) (hi : 1 ≤ i)
    (hnew : kind.Admits delimiter new) :
    ∃ out, (single kind i).put delimiter text .into new = .ok out ∧
      (∀ j, 1 ≤ j → (single kind j).get delimiter out =
        if j = i then new else (single kind j).get delimiter text) ∧
      (new ≠ [] →
        (count kind delimiter out : Int) = max (count kind delimiter text : Int) i) := by
  obtain ⟨d, width, rows, hfits⟩ := hnew.exists_rows
  obtain ⟨out, hput, hrows⟩ := rows.put_eq text hi hfits
  refine ⟨out, hput, fun j hj => ?_, fun hne => ?_⟩
  · have hindex : (j - 1).toNat = (i - 1).toNat ↔ j = i := by omega
    rw [rows.get_eq out hj, hrows, getD_setRow, rows.get_eq text hj]
    simp only [hindex]
  · have hcount := rowCount_setRow (rowsOf_ne_nil d width text) (i - 1).toNat hne
    rw [rows.count_eq, rows.count_eq, hrows, hcount]
    omega

/-- A fifth item of two, and a line in place of one that ends with a carriage return. -/
theorem put_get_rows_past_the_end :
    (∃ out, (single .item 5).put [','] "a,b".toList .into "e".toList = .ok out ∧
      out = "a,b,,,e".toList ∧ (single .item 2).get [','] out = ['b'] ∧
      (single .item 4).get [','] out = [] ∧ count .item [','] out = 5) ∧
    ∃ out, (single .line 2).put [','] "a\r\n\r".toList .into "b".toList = .ok out ∧
      (single .line 1).get [','] out = ['a'] ∧ (single .line 2).get [','] out = ['b'] := by
  constructor
  · obtain ⟨out, hput, hget, hcount⟩ := put_get_rows .item [','] "a,b".toList "e".toList 5
      (by decide) ⟨',', rfl, by decide⟩
    refine ⟨out, hput, ?_, hget 2 (by decide), hget 4 (by decide), ?_⟩
    · exact Except.ok.inj (hput.symm.trans rfl)
    · exact Int.ofNat.inj (hcount (by decide))
  · obtain ⟨out, hput, hget, -⟩ := put_get_rows .line [','] "a\r\n\r".toList "b".toList 2
      (by decide) ⟨by decide, by decide⟩
    exact ⟨out, hput, hget 1 (by decide), hget 2 (by decide)⟩

end Chunk

end CardScript
