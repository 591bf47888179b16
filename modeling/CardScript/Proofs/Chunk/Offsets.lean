import CardScript.Proofs.Chunk.Listing
import CardScript.Proofs.Chunk.Pinned
import CardScript.Proofs.Chunk.Splicing

/-!
# Chunks at byte offsets

A text in UTF-8 can be cut at a byte offset only if the offset lies between two characters, and a
list has an entry only at an index below its length. The functions of this module read, pin and
write chunks by byte offsets, draw where an index is left to chance, and fail where a cut or an
index is out of bounds. They never fail, and come to what reading, pinning and writing by character
positions come to (`range?_eq`, `get?_eq`, `pin?_eq`, `put?_certain`): a stretch that lies inside
the text is a range of bytes between characters (`cut?_inBytes`), and the range of a chunk inside
another one is that of the outer one's text, moved by where it begins (`Stretch.inBytes_shift`).
-/

namespace CardScript

theorem mapM_eq_map {α β : Type} {f : α → Option β} {g : α → β} {items : List α}
    (h : ∀ a ∈ items, f a = some (g a)) : items.mapM f = some (items.map g) := by
  induction items with
  | nil => rfl
  | cons a rest ih =>
    obtain ⟨ha, hrest⟩ := List.forall_mem_cons.1 h
    simp [ha, ih hrest]

namespace Chunk

/-! ## Cutting a text at byte offsets -/

/-- The part of a text between two byte offsets, if both lie between characters. -/
def cut? (text : String) (range : Nat × Nat) : Option String := do
  let start ← text.pos? ⟨range.1⟩
  let stop ← text.pos? ⟨range.2⟩
  return (← text.slice? start stop).copy

theorem pos?_offset {text : String} (p : text.Pos) : text.pos? p.offset = some p := by
  have hvalid : p.offset.isValidForSlice text.toSlice = true := by
    rw [String.Pos.Raw.isValidForSlice_eq_true_iff]
    exact String.Pos.Raw.isValidForSlice_toSlice_iff.2 p.isValid
  simp [String.pos?, String.Slice.pos?, hvalid, String.Pos.ext_iff]

theorem cut?_append (front piece back : String) :
    cut? (front ++ piece ++ back) (front.utf8ByteSize, (front ++ piece).utf8ByteSize) =
      some piece := by
  have hassoc : front ++ piece ++ back = front ++ (piece ++ back) := String.append_assoc
  have hstart := String.Pos.splits_ofEqAppend hassoc
  have hstop := String.Pos.splits_ofEqAppend (Eq.refl (front ++ piece ++ back))
  obtain ⟨hle, hcopy⟩ := String.copy_slice_eq_iff_splits.2 ⟨front, back, hstart, hstop⟩
  have hfirst := pos?_offset (String.Pos.ofEqAppend hassoc)
  have hlast := pos?_offset (String.Pos.ofEqAppend (Eq.refl (front ++ piece ++ back)))
  rw [hstart.offset_eq_rawEndPos] at hfirst
  rw [hstop.offset_eq_rawEndPos] at hlast
  have hcut : cut? (front ++ piece ++ back) (front.utf8ByteSize, (front ++ piece).utf8ByteSize) =
      (do let start ← (front ++ piece ++ back).pos? front.rawEndPos
          let stop ← (front ++ piece ++ back).pos? (front ++ piece).rawEndPos
          return (← (front ++ piece ++ back).slice? start stop).copy) := rfl
  rw [hcut, hfirst, hlast]
  simp [String.slice?, hle, hcopy]

theorem utf8Length_eq (cs : List Char) : utf8Length cs = (String.ofList cs).utf8ByteSize := by
  induction cs with
  | nil => rfl
  | cons c cs ih => rw [utf8Length, ih, String.ofList_cons, String.utf8ByteSize_append,
      String.utf8ByteSize_singleton]

theorem utf8Length_append (cs rest : List Char) :
    utf8Length (cs ++ rest) = utf8Length cs + utf8Length rest := by
  simp only [utf8Length_eq, String.ofList_append, String.utf8ByteSize_append]

theorem utf8Length_toList (text : String) : utf8Length text.toList = text.utf8ByteSize := by
  rw [utf8Length_eq, String.ofList_toList]

theorem utf8Length_take_le (cs : List Char) {i j : Nat} (h : i ≤ j) :
    utf8Length (cs.take i) ≤ utf8Length (cs.take j) := by
  obtain ⟨rest, hrest⟩ := List.take_prefix_take_left (l := cs) h
  rw [← hrest, utf8Length_append]
  exact Nat.le_add_right ..

/-- What a stretch ends with is what lies before it and what lies in it. -/
theorem Stretch.take_stop {s : Stretch} (h : s.start ≤ s.stop) (cs : List Char) :
    cs.take s.stop = cs.take s.start ++ s.of cs := by
  have htake : cs.take s.start = (cs.take s.stop).take s.start := by
    rw [List.take_take, Nat.min_eq_left h]
  rw [of, htake, List.take_append_drop]

/-- The bytes of a stretch can be cut out, and are the characters of the stretch. -/
theorem cut?_inBytes (text : String) {s : Stretch} (h : s.start ≤ s.stop) :
    cut? text (s.inBytes text.toList) = some (String.ofList (s.of text.toList)) := by
  have htext : text = String.ofList (text.toList.take s.start) ++
      String.ofList (s.of text.toList) ++ String.ofList (text.toList.drop s.stop) := by
    rw [← String.ofList_append, ← String.ofList_append, ← Stretch.take_stop h,
      List.take_append_drop, String.ofList_toList]
  have hcut := cut?_append (String.ofList (text.toList.take s.start))
    (String.ofList (s.of text.toList)) (String.ofList (text.toList.drop s.stop))
  rwa [← htext, ← String.ofList_append, ← Stretch.take_stop h, ← utf8Length_eq,
    ← utf8Length_eq] at hcut

theorem cut?_take (text : String) (i : Nat) :
    cut? text (0, utf8Length (text.toList.take i)) = some (String.ofList (text.toList.take i)) := by
  have hcut := cut?_inBytes text (s := ⟨0, i⟩) (Nat.zero_le i)
  rwa [Stretch.inBytes, Stretch.of, List.take_zero] at hcut

theorem cut?_drop (text : String) {i : Nat} (h : i ≤ text.toList.length) :
    cut? text (utf8Length (text.toList.take i), text.utf8ByteSize) =
      some (String.ofList (text.toList.drop i)) := by
  have hcut := cut?_inBytes text (s := ⟨i, text.toList.length⟩) h
  rwa [Stretch.inBytes, Stretch.of, List.take_length, utf8Length_toList] at hcut

/-- The offset behind any number of characters lies between characters. -/
theorem isValid_take (text : String) (i : Nat) :
    String.Pos.Raw.IsValid text ⟨utf8Length (text.toList.take i)⟩ :=
  String.Pos.Raw.isValid_iff_exists_take_toList.2 ⟨i, utf8Length_eq _⟩

/-- A stretch of a stretch, in bytes, lies as far behind as the stretch begins. -/
theorem Stretch.inBytes_shift {s t : Stretch} {cs : List Char} (hs : s.start ≤ s.stop)
    (hlen : s.stop ≤ cs.length) (ht : t.start ≤ t.stop) (hle : t.stop ≤ (s.of cs).length) :
    (t.shift s.start).inBytes cs =
      ((s.inBytes cs).1 + (t.inBytes (s.of cs)).1, (s.inBytes cs).1 + (t.inBytes (s.of cs)).2) := by
  have htake {i : Nat} (hi : i ≤ (s.of cs).length) :
      utf8Length (cs.take (s.start + i)) =
        utf8Length (cs.take s.start) + utf8Length ((s.of cs).take i) := by
    rw [length_of hlen] at hi
    have hof : (s.of cs).take i = (Stretch.mk s.start (s.start + i)).of cs := by
      rw [of, of, List.take_drop, List.take_take, Nat.min_eq_left (by omega)]
    rw [hof, ← utf8Length_append]
    exact congrArg utf8Length (take_stop (s := ⟨s.start, s.start + i⟩) (Nat.le_add_right ..) cs)
  exact Prod.ext (htake (Nat.le_trans ht hle)) (htake hle)

/-! ## Segments at byte offsets -/

/-- A line without a carriage return at its end; the line has to be cut out to see it. -/
def withoutReturn? (text : String) (range : Nat × Nat) : Option (Nat × Nat) := do
  let line ← cut? text range
  return if line.toList.getLast? = some '\r' then (range.1, range.2 - 1) else range

/-- The byte offsets of all chunks of a kind. -/
def segments? (kind : Kind) (delimiter text : String) : Option (List (Nat × Nat)) :=
  match kind with
  | .line => ((delimited ['\n'] text.toList).map (·.inBytes text.toList)).mapM (withoutReturn? text)
  | kind => some ((segments kind delimiter.toList text.toList).map (·.inBytes text.toList))

/-- A stretch without a carriage return at its end. -/
def Stretch.withoutReturn (s : Stretch) (cs : List Char) : Stretch :=
  if (s.of cs).getLast? = some '\r' then ⟨s.start, s.stop - 1⟩ else s

theorem withoutReturn?_inBytes {text : String} {s : Stretch} (h : s.start ≤ s.stop)
    (hlen : s.stop ≤ text.toList.length) :
    withoutReturn? text (s.inBytes text.toList) =
      some ((s.withoutReturn text.toList).inBytes text.toList) := by
  rw [withoutReturn?, cut?_inBytes text h, Stretch.withoutReturn]
  simp only [Option.bind_eq_bind, Option.bind_some, Option.pure_def, String.toList_ofList,
    Option.some.injEq]
  split
  next hreturn =>
    obtain ⟨front, hfront⟩ := List.getLast?_eq_some_iff.1 hreturn
    have hlength : front.length + 1 = s.stop - s.start := by
      rw [← Stretch.length_of hlen, hfront, List.length_append, List.length_singleton]
    -- the carriage return is one byte long, and the last of the line
    have htake : text.toList.take s.stop = text.toList.take (s.stop - 1) ++ ['\r'] := by
      have hstop := Stretch.take_stop h text.toList
      rw [hfront, ← List.append_assoc] at hstop
      have hfirst := congrArg (List.take (s.stop - 1)) hstop
      rw [List.take_take, Nat.min_eq_left (Nat.sub_le ..), List.take_left'] at hfirst
      · rw [hstop, hfirst]
      · rw [List.length_append, List.length_take]
        omega
    rw [Stretch.inBytes, Stretch.inBytes, htake, utf8Length_append]
    rfl
  next => rfl

theorem layOut_lineWidth (cs front : List Char) (pieces : List (List Char))
    (hcs : cs = front ++ Text.joinWith ['\n'] pieces) :
    layOut 1 lineWidth front.length pieces =
      (layOut 1 List.length front.length pieces).map (·.withoutReturn cs) := by
  induction pieces generalizing front with
  | nil => rfl
  | cons piece rest ih =>
    have hfirst : ⟨front.length, front.length + lineWidth piece⟩ =
        (Stretch.mk front.length (front.length + piece.length)).withoutReturn cs := by
      have hpiece : (Stretch.mk front.length (front.length + piece.length)).of cs = piece := by
        obtain ⟨back, hback⟩ : ∃ back, cs = front ++ piece ++ back := by
          cases rest with
          | nil => exact ⟨[], by simpa [Text.joinWith] using hcs⟩
          | cons next rest =>
            rw [Text.joinWith_cons (by simp)] at hcs
            exact ⟨['\n'] ++ Text.joinWith ['\n'] (next :: rest), by simpa using hcs⟩
        rw [hback, Stretch.of_middle]
      rw [Stretch.withoutReturn, hpiece, lineWidth]
      simp only [beq_iff_eq]
      split
      next hreturn =>
        obtain ⟨line, rfl⟩ := List.getLast?_eq_some_iff.1 hreturn
        simp
      next => rfl
    rw [layOut, layOut, List.map_cons, hfirst]
    cases rest with
    | nil => rfl
    | cons next rest =>
      rw [Text.joinWith_cons (by simp)] at hcs
      have htail := ih (front ++ piece ++ ['\n']) (by simpa using hcs)
      rw [List.length_append, List.length_append, List.length_singleton] at htail
      rw [htail]

theorem lineSegments_eq (cs : List Char) :
    lineSegments cs = (delimited ['\n'] cs).map (·.withoutReturn cs) := by
  refine layOut_lineWidth cs [] (Text.splitOn ['\n'] cs) ?_
  rw [List.nil_append, Text.joinWith_splitOn]

/-- Every segment can be found in bytes. -/
theorem segments?_eq (kind : Kind) (delimiter text : String) :
    segments? kind delimiter text =
      some ((segments kind delimiter.toList text.toList).map (·.inBytes text.toList)) := by
  cases kind with
  | char | word | item => rfl
  | line =>
    have hinOrder : InOrder 0 text.toList.length (delimited ['\n'] text.toList) :=
      segments_inOrder .item ['\n'] text.toList
    show ((delimited ['\n'] text.toList).map _).mapM _ = some ((lineSegments text.toList).map _)
    rw [lineSegments_eq, List.map_map, List.mapM_map]
    refine mapM_eq_map fun s hs => ?_
    obtain ⟨i, hi⟩ := List.mem_iff_getElem?.1 hs
    obtain ⟨-, hle, hlen⟩ := hinOrder.bounds hi
    exact withoutReturn?_inBytes hle hlen

/-! ## The range of a chunk -/

/-- The `n`-th of a list, counted from one, if there is one. -/
def rangeAt? (ranges : List (Nat × Nat)) (n : Int) : Option (Nat × Nat) :=
  if 1 ≤ n then ranges[(n - 1).toNat]? else none

/-- From the `first` to the `last` of the ranges, if both are there. -/
def span? (ranges : List (Nat × Nat)) (first last : Int) : Option (Nat × Nat) := do
  return ((← rangeAt? ranges first).1, (← rangeAt? ranges last).2)

theorem rangeAt?_map {all : List Stretch} {cs : List Char} {n : Int} (hone : 1 ≤ n)
    (hle : n ≤ all.length) :
    rangeAt? (all.map (·.inBytes cs)) n = some ((between all n n).inBytes cs) := by
  have hn : (n - 1).toNat < all.length := by omega
  rw [rangeAt?, if_pos hone, List.getElem?_map, between, List.getElem?_eq_getElem hn]
  rfl

theorem span?_map {all : List Stretch} {cs : List Char} {first last : Int} (hone : 1 ≤ first)
    (hle : first ≤ last) (hlast : last ≤ all.length) :
    span? (all.map (·.inBytes cs)) first last = some ((between all first last).inBytes cs) := by
  rw [span?, rangeAt?_map hone (Int.le_trans hle hlast), rangeAt?_map (Int.le_trans hone hle) hlast]
  rfl

/-- The range of one level in a text. -/
def Level.range? (l : Level Place) (delimiter text : String) : Option (Nat × Nat) := do
  let all ← segments? l.kind delimiter text
  let count := Chunk.count l.kind delimiter.toList text.toList
  let nowhere := (text.utf8ByteSize, text.utf8ByteSize)
  if count = 0 then return nowhere
  else
    match l.bounds? count with
    | some (first, last) => span? all first last
    | none => return nowhere

/-- The range of a chunk in a text. An index left to chance is drawn where it is come to, the
enclosing chunk first. -/
def range? (source : Draws) (delimiter text : String) : Chunk Index → Option (Nat × Nat)
  | ofText l =>
    (l.pin source (count l.kind delimiter.toList text.toList)).range? delimiter text
  | within l outer => do
    let around ← outer.range? source delimiter text
    let scope ← cut? text around
    let inner ← (l.pin (source.skip outer.draws)
      (count l.kind delimiter.toList scope.toList)).range? delimiter scope
    return (around.1 + inner.1, around.1 + inner.2)

theorem Level.range?_eq (l : Level Place) (delimiter text : String) :
    l.range? delimiter text =
      some ((l.stretch delimiter.toList text.toList).inBytes text.toList) := by
  have hnowhere : (Stretch.mk text.toList.length text.toList.length).inBytes text.toList =
      (text.utf8ByteSize, text.utf8ByteSize) := by
    rw [Stretch.inBytes, List.take_length, utf8Length_toList]
  rw [range?, segments?_eq]
  simp only [Option.bind_eq_bind, Option.bind_some]
  by_cases hcount : Chunk.count l.kind delimiter.toList text.toList = 0
  · rw [if_pos hcount, stretch_of_absent (.inl hcount), hnowhere]
    rfl
  rw [if_neg hcount]
  cases hbounds : l.bounds? (Chunk.count l.kind delimiter.toList text.toList) with
  | none =>
    rw [stretch_of_absent (.inr hbounds), hnowhere]
    rfl
  | some bounds =>
    obtain ⟨hone, hle, hlast⟩ := bounds?_eq_some hbounds
    have hcounted := counted_le l.kind (segments l.kind delimiter.toList text.toList)
    rw [stretch_of_bounds hcount hbounds]
    refine span?_map hone hle (Int.le_trans hlast ?_)
    exact Int.ofNat_le.2 hcounted

/-- The range of a chunk is always found, and is the stretch of the pinned chunk. -/
theorem range?_eq (chunk : Chunk Index) (source : Draws) (delimiter text : String) :
    chunk.range? source delimiter text =
      some (((chunk.pin source delimiter.toList text.toList).stretch delimiter.toList
        text.toList).inBytes text.toList) := by
  induction chunk with
  | ofText l => exact Level.range?_eq _ delimiter text
  | within l outer ih =>
    have houter := (outer.pin source delimiter.toList text.toList).stretch_bounds delimiter.toList
      text.toList
    have hinner := (l.pin (source.skip outer.draws) (count l.kind delimiter.toList
      ((outer.pin source delimiter.toList text.toList).get delimiter.toList
        text.toList))).stretch_bounds delimiter.toList
      ((outer.pin source delimiter.toList text.toList).get delimiter.toList text.toList)
    rw [range?, ih]
    simp only [Option.bind_eq_bind, Option.bind_some, cut?_inBytes text houter.1,
      String.toList_ofList, Level.range?_eq]
    exact congrArg some (Stretch.inBytes_shift houter.1 houter.2 hinner.1 hinner.2).symm

/-! ## Reading, pinning and writing -/

/-- The text of a chunk. -/
def get? (chunk : Chunk Index) (source : Draws) (delimiter text : String) : Option String := do
  cut? text (← chunk.range? source delimiter text)

theorem get?_eq (chunk : Chunk Index) (source : Draws) (delimiter text : String) :
    chunk.get? source delimiter text =
      some (String.ofList ((chunk.pin source delimiter.toList text.toList).get delimiter.toList
        text.toList)) := by
  rw [get?, range?_eq]
  exact cut?_inBytes text (stretch_bounds ..).1

/-- Settles every index of a chunk, each level against the text read through the pinned chunk
around it. -/
def pin? (source : Draws) (delimiter text : String) : Chunk Index → Option (Chunk Place)
  | ofText l => some (ofText (l.pin source (count l.kind delimiter.toList text.toList)))
  | within l outer => do
    let around ← outer.pin? source delimiter text
    let scope ← around.certain.get? source delimiter text
    return within (l.pin (source.skip outer.draws)
      (count l.kind delimiter.toList scope.toList)) around

theorem pin?_eq (chunk : Chunk Index) (source : Draws) (delimiter text : String) :
    chunk.pin? source delimiter text = some (chunk.pin source delimiter.toList text.toList) := by
  induction chunk with
  | ofText l => rfl
  | within l outer ih =>
    rw [pin?, ih]
    simp only [Option.bind_eq_bind, Option.bind_some, get?_eq, pin_certain, String.toList_ofList]
    rfl

/-- A text with a range of bytes replaced. -/
def splice? (text : String) (range : Nat × Nat) (new : String) : Option String := do
  let front ← cut? text (0, range.1)
  let back ← cut? text (range.2, text.utf8ByteSize)
  return front ++ new ++ back

theorem splice?_inBytes {text : String} {s : Stretch} (hlen : s.stop ≤ text.toList.length)
    (new : String) :
    splice? text (s.inBytes text.toList) new =
      some (String.ofList (s.replace text.toList new.toList)) := by
  rw [splice?, Stretch.inBytes]
  simp only [cut?_take, cut?_drop text hlen, Option.bind_eq_bind, Option.bind_some, Stretch.replace,
    String.ofList_append, String.ofList_toList]
  rfl

/-- The part of a range that a preposition replaces. -/
def writtenBytes (range : Nat × Nat) : Preposition → Nat × Nat
  | .into => range
  | .before => (range.1, range.1)
  | .after => (range.2, range.2)

theorem writtenBytes_inBytes (s : Stretch) (cs : List Char) (preposition : Preposition) :
    writtenBytes (s.inBytes cs) preposition = (s.written preposition).inBytes cs := by
  cases preposition <;> rfl

/-- Puts `new` at the segments from `start` to `last`. The first one is looked up before it is
known whether the range is reversed. -/
def putBetween? (all : List (Nat × Nat)) (text : String) (start last : Int)
    (preposition : Preposition) (new : String) : Option String := do
  let first ← rangeAt? all start
  if last < start then
    if new.toList.isEmpty then return text else splice? text (first.1, first.1) new
  else
    let range ← span? all start last
    splice? text (writtenBytes range preposition) new

theorem putBetween?_map {all : List Stretch} {text : String} {start last : Int}
    (h : InOrder 0 text.toList.length all) (hone : 1 ≤ start) (hstart : start ≤ all.length)
    (hlast : last ≤ all.length) (preposition : Preposition) (new : String) :
    putBetween? (all.map (·.inBytes text.toList)) text start last preposition new =
      some (String.ofList (
        if last < start then
          if new.toList.isEmpty then text.toList
          else (Stretch.mk (between all start start).start
            (between all start start).start).replace text.toList new.toList
        else ((between all start last).written preposition).replace text.toList new.toList)) := by
  rw [putBetween?, rangeAt?_map hone hstart]
  simp only [Option.bind_eq_bind, Option.bind_some]
  split
  next hreversed =>
    split
    next hnew => rw [String.ofList_toList, Option.pure_def]
    next hnew =>
      have hfirst := between_bounds h hone (Int.le_refl start) hstart
      exact splice?_inBytes (s := ⟨(between all start start).start,
        (between all start start).start⟩) (Nat.le_trans hfirst.1 hfirst.2) new
  next hforward =>
    have hbounds := between_bounds h hone (Int.not_lt.1 hforward) hlast
    have hwritten := Stretch.written_bounds hbounds.1 preposition
    rw [span?_map hone (Int.not_lt.1 hforward) hlast, Option.bind_some, writtenBytes_inBytes]
    exact splice?_inBytes (Nat.le_trans hwritten.2.2 hbounds.2) new

/-- Puts `new` at one level of a text. -/
def Level.put? (l : Level Place) (delimiter text : String) (preposition : Preposition)
    (new : String) : Option (Except Failure String) := do
  let all ← segments? l.kind delimiter text
  let count := Chunk.count l.kind delimiter.toList text.toList
  let requested := l.start.number (max count 1)
  if requested < 1 && l.stop.isNone then
    return if new.toList.isEmpty then .ok text
      else .error (.chunkRange (.beforeFirst l.kind requested))
  else
    let start := max requested 1
    if all.length < start then
      return .ok (if new.toList.isEmpty then text
        else String.ofList (extend l.kind (start - all.length).toNat delimiter.toList text.toList
          new.toList))
    else
      let last : Int := match l.stop with
        | some stop => min (stop.number count) count
        | none => start
      return .ok (← putBetween? all text start last preposition new)

theorem Level.put?_eq (l : Level Place) (delimiter text : String) (preposition : Preposition)
    (new : String) :
    l.put? delimiter text preposition new =
      some ((l.put delimiter.toList text.toList preposition new.toList).map String.ofList) := by
  have hinOrder := segments_inOrder l.kind delimiter.toList text.toList
  have hcounted := counted_le l.kind (segments l.kind delimiter.toList text.toList)
  have hcount : Chunk.count l.kind delimiter.toList text.toList =
      counted l.kind (segments l.kind delimiter.toList text.toList) := rfl
  rw [put?, segments?_eq, put]
  simp only [Option.bind_eq_bind, Option.bind_some, List.length_map, hcount]
  generalize segments l.kind delimiter.toList text.toList = all at *
  generalize counted l.kind all = count at *
  split
  next hbelow => split <;> simp [Except.map, *]
  next hbelow =>
    split
    next hpast => split <;> simp [Except.map, *]
    next hthere =>
      have hstart : max (l.start.number (max count 1)) 1 ≤ all.length := Int.not_lt.1 hthere
      cases l.stop with
      | none =>
        dsimp only
        rw [putBetween?_map hinOrder (Int.le_max_right ..) hstart hstart]
        split
        next hreversed => split <;> rfl
        next hforward => rfl
      | some stop =>
        have hlast : min (stop.number count) (count : Int) ≤ all.length := by omega
        dsimp only
        rw [putBetween?_map hinOrder (Int.le_max_right ..) hstart hlast]
        split
        next hreversed => split <;> rfl
        next hforward => rfl

/-- Puts `new` into, before or after a chunk of a text. The enclosing chunk is read first and
written last; what is left to chance in it is drawn both times. -/
def put? (delimiter text : String) :
    Chunk Index → Draws → Preposition → String → Option (Except Failure String)
  | ofText l, source, preposition, new =>
    (l.pin source (count l.kind delimiter.toList text.toList)).put? delimiter text preposition new
  | within l outer, source, preposition, new => do
    let current ← outer.get? source delimiter text
    match ← (l.pin (source.skip outer.draws)
        (count l.kind delimiter.toList current.toList)).put? delimiter current preposition new with
    | .ok updated =>
      outer.put? delimiter text (source.skip (outer.draws + l.draws)) .into updated
    | .error failure => return .error failure

/-- Writing never takes an index or a cut out of bounds. -/
theorem isSome_put? (chunk : Chunk Index) (delimiter text : String) (source : Draws)
    (preposition : Preposition) (new : String) :
    (chunk.put? delimiter text source preposition new).isSome := by
  induction chunk generalizing source preposition new with
  | ofText l =>
    rw [put?, Level.put?_eq]
    rfl
  | within l outer ih =>
    rw [put?, get?_eq, Option.bind_eq_bind, Option.bind_some, Level.put?_eq, Option.bind_eq_bind,
      Option.bind_some]
    split
    next => exact ih ..
    next => rfl

/-- A chunk without chance is written as by character positions. -/
theorem put?_certain (chunk : Chunk Place) (delimiter text : String) (source : Draws)
    (preposition : Preposition) (new : String) :
    chunk.certain.put? delimiter text source preposition new =
      some ((chunk.put delimiter.toList text.toList preposition new.toList).map String.ofList) := by
  induction chunk generalizing source preposition new with
  | ofText l => rw [certain, put?, Level.pin_certain, Level.put?_eq, put]
  | within l outer ih =>
    rw [certain, put?, get?_eq, Option.bind_eq_bind, Option.bind_some, Level.pin_certain,
      Level.put?_eq, Option.bind_eq_bind, Option.bind_some, pin_certain, String.toList_ofList, put]
    cases l.put delimiter.toList (outer.get delimiter.toList text.toList) preposition
        new.toList with
    | error failure => rfl
    | ok updated =>
      show outer.certain.put? delimiter text _ .into (String.ofList updated) = _
      rw [ih, String.toList_ofList]
      rfl

/-! ## Ranges in bounds -/

/-- The stretch around the innermost level: that of the enclosing chunk, or the whole text. -/
def around (delimiter cs : List Char) : Chunk Place → Stretch
  | ofText _ => ⟨0, cs.length⟩
  | within _ outer => outer.stretch delimiter cs

/-- A range of bytes that can be cut out of a text and lies inside another one. -/
structure CutsWithin (text : String) (outer range : Nat × Nat) : Prop where
  outer_start_le : outer.1 ≤ range.1
  start_le_stop : range.1 ≤ range.2
  stop_le_outer : range.2 ≤ outer.2
  stop_le_size : range.2 ≤ text.utf8ByteSize
  start_valid : String.Pos.Raw.IsValid text ⟨range.1⟩
  stop_valid : String.Pos.Raw.IsValid text ⟨range.2⟩

/-- The stretch of a chunk lies inside the one around it. -/
theorem stretch_within_around (chunk : Chunk Place) (delimiter cs : List Char) :
    (chunk.around delimiter cs).start ≤ (chunk.stretch delimiter cs).start ∧
      (chunk.stretch delimiter cs).stop ≤ (chunk.around delimiter cs).stop := by
  cases chunk with
  | ofText l => exact ⟨Nat.zero_le _, (l.stretch_bounds delimiter cs).2⟩
  | within l outer =>
    have houter := outer.stretch_bounds delimiter cs
    have hinner := l.stretch_bounds delimiter (outer.get delimiter cs)
    rw [get, Stretch.length_of houter.2] at hinner
    simp only [around, stretch, Stretch.shift]
    omega

theorem Level.Present.of_bounds {l : Level Place} {count : Nat} {bounds : Int × Int}
    (h : l.bounds? count = some bounds) : l.Present count := by
  unfold Present
  cases hstop : l.stop with
  | none =>
    have := (bounds?_single hstop).1 h
    simp only
    omega
  | some stop =>
    have := (bounds?_range hstop).1 h
    simp only
    omega

/-- A level that is not there is nowhere, at the end of the text. -/
theorem Level.stretch_of_not_present {l : Level Place} {delimiter cs : List Char}
    (h : ¬ l.Present (Chunk.count l.kind delimiter cs)) :
    l.stretch delimiter cs = ⟨cs.length, cs.length⟩ := by
  refine stretch_of_absent (.inr ?_)
  cases hbounds : l.bounds? (Chunk.count l.kind delimiter cs) with
  | none => rfl
  | some bounds => exact absurd (.of_bounds hbounds) h

/-- A chunk that is not there is the empty stretch at the end of the one around it. -/
theorem stretch_of_not_present {chunk : Chunk Place} {delimiter cs : List Char}
    (h : ¬ chunk.level.Present
      (count chunk.level.kind delimiter ((chunk.around delimiter cs).of cs))) :
    chunk.stretch delimiter cs =
      ⟨(chunk.around delimiter cs).stop, (chunk.around delimiter cs).stop⟩ := by
  cases chunk with
  | ofText l =>
    have hwhole : ((ofText l).around delimiter cs).of cs = cs := by
      rw [around, Stretch.of, List.take_length, List.drop_zero]
    rw [hwhole] at h
    exact Level.stretch_of_not_present h
  | within l outer =>
    have h : ¬ l.Present (count l.kind delimiter ((outer.stretch delimiter cs).of cs)) := h
    obtain ⟨hle, hlen⟩ := outer.stretch_bounds delimiter cs
    rw [stretch, Level.stretch_of_not_present h, Stretch.shift, Stretch.length_of hlen,
      Nat.add_sub_of_le hle]
    rfl

/-- **Chunks are cut in bounds.** Whatever is drawn for the indices left to chance, the range of a
chunk in bytes is a range of the text between characters and inside the range of the enclosing
chunk; if the chunk is out of range or reversed there, it is empty and at the end of that. Reading,
pinning and writing, with a check of each index and each cut they take, never fail one, and come to
what they come to by character positions. -/
theorem ranges_in_bounds (chunk : Chunk Index) (delimiter text : String) (source : Draws) :
    let cs := text.toList
    let pinned := chunk.pin source delimiter.toList cs
    let range := (pinned.stretch delimiter.toList cs).inBytes cs
    let outer := pinned.around delimiter.toList cs
    (chunk.range? source delimiter text = some range ∧
      CutsWithin text (outer.inBytes cs) range ∧
      (¬ pinned.level.Present (count pinned.level.kind delimiter.toList (outer.of cs)) →
        range = ((outer.inBytes cs).2, (outer.inBytes cs).2))) ∧
    chunk.get? source delimiter text =
      some (String.ofList (pinned.get delimiter.toList cs)) ∧
    chunk.pin? source delimiter text = some pinned ∧
    ∀ preposition new,
      (chunk.put? delimiter text source preposition new).isSome ∧
      ∀ again, pinned.certain.put? delimiter text again preposition new =
        some ((pinned.put delimiter.toList cs preposition new.toList).map String.ofList) := by
  intro cs pinned range outer
  have hstretch := pinned.stretch_bounds delimiter.toList cs
  have houter := pinned.stretch_within_around delimiter.toList cs
  refine ⟨⟨chunk.range?_eq source delimiter text, ?_, ?_⟩, chunk.get?_eq source delimiter text,
    chunk.pin?_eq source delimiter text, fun preposition new =>
      ⟨chunk.isSome_put? delimiter text source preposition new,
        fun again => pinned.put?_certain delimiter text again preposition new⟩⟩
  · constructor
    case outer_start_le => exact utf8Length_take_le cs houter.1
    case start_le_stop => exact utf8Length_take_le cs hstretch.1
    case stop_le_outer => exact utf8Length_take_le cs houter.2
    case stop_le_size =>
      have hle := utf8Length_take_le cs hstretch.2
      rwa [List.take_length, utf8Length_toList] at hle
    case start_valid => exact isValid_take text _
    case stop_valid => exact isValid_take text _
  · intro habsent
    show (pinned.stretch delimiter.toList cs).inBytes cs = _
    rw [stretch_of_not_present habsent]
    rfl

/-- The last character of the second line, which ends with a carriage return, and the fourth item
of it, which is not there: both at offsets behind characters of two bytes. -/
theorem ranges_in_bounds_umlauts :
    (within ⟨.char, .place .last, none⟩
      (ofText ⟨.line, .place (.at 2), none⟩)).range? {} "," "ä\nöü\r\nß" = some (5, 7) ∧
    (within ⟨.item, .place (.at 4), none⟩
      (ofText ⟨.line, .place (.at 2), none⟩)).range? {} "," "ä\nöü\r\nß" = some (7, 7) ∧
    CutsWithin "ä\nöü\r\nß" (3, 7) (7, 7) := by
  obtain ⟨⟨hlast, -, -⟩, -⟩ := ranges_in_bounds (within ⟨.char, .place .last, none⟩
    (ofText ⟨.line, .place (.at 2), none⟩)) "," "ä\nöü\r\nß" {}
  obtain ⟨⟨hfourth, hcuts, habsent⟩, -⟩ := ranges_in_bounds (within ⟨.item, .place (.at 4), none⟩
    (ofText ⟨.line, .place (.at 2), none⟩)) "," "ä\nöü\r\nß" {}
  rw [habsent (by decide)] at hfourth hcuts
  exact ⟨hlast.trans (by decide), hfourth.trans (by decide), hcuts⟩

end Chunk

end CardScript
