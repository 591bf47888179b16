import CardScript.Chunk.Writing
import CardScript.Proofs.Chunk.Segmentation

/-!
# Writing back what was read

Reading a chunk and writing the same text into it leaves the text alone (`put_get_eq_text`). At one
level there are two cases: the chunk is there, and both sides address the segments that `bounds?`
gives (`Level.put_of_bounds`), or it is not, nothing was read, and putting nothing has no effect
(`Level.put_nil_of_absent`). Enclosing chunks follow by induction, since a chunk inside another one
is read from the text of the latter (`get_within`).
-/

namespace CardScript.Chunk

namespace Stretch

theorem replace_of_self {s : Stretch} (h : s.start ≤ s.stop) (cs : List Char) :
    s.replace cs (s.of cs) = cs := by
  have htake : cs.take s.start = (cs.take s.stop).take s.start := by
    rw [List.take_take, Nat.min_eq_left h]
  rw [replace, of, htake, List.take_append_drop, List.take_append_drop]

theorem replace_nil {s : Stretch} (h : s.isEmpty) (cs : List Char) : s.replace cs [] = cs := by
  simp only [isEmpty, beq_iff_eq] at h
  rw [replace, List.append_nil, h, List.take_append_drop]

theorem length_of {s : Stretch} {cs : List Char} (h : s.stop ≤ cs.length) :
    (s.of cs).length = s.stop - s.start := by
  simp [of, Nat.min_eq_left h]

/-- A stretch of a stretch, seen from the whole text. -/
theorem shift_of {s t : Stretch} {cs : List Char} (hs : s.stop ≤ cs.length)
    (ht : t.start ≤ t.stop) (hle : t.stop ≤ (s.of cs).length) :
    (t.shift s.start).of cs = t.of (s.of cs) := by
  rw [length_of hs] at hle
  have hstop : min (s.start + t.stop) s.stop = s.start + t.stop ∨ t.stop = 0 := by omega
  rcases hstop with hstop | hstop
  · simp only [of, shift]
    rw [List.take_drop, List.take_take, hstop, List.drop_drop]
  · have hstart : t.start = 0 := by omega
    simp [of, shift, hstop, hstart]

end Stretch

/-! ## One level -/

theorem between_bounds {all : List Stretch} {hi : Nat} {first last : Int} (h : InOrder 0 hi all)
    (h1 : 1 ≤ first) (hle : first ≤ last) (hlast : last ≤ all.length) :
    (between all first last).start ≤ (between all first last).stop ∧
      (between all first last).stop ≤ hi := by
  have hf : (first - 1).toNat < all.length := by omega
  have hl : (last - 1).toNat < all.length := by omega
  simp only [between, List.getElem?_eq_getElem hf, List.getElem?_eq_getElem hl, Option.getD_some]
  have hs := List.getElem?_eq_getElem hf
  have ht := List.getElem?_eq_getElem hl
  exact ⟨h.start_le_stop (by omega) hs ht, (h.bounds ht).2.2⟩

namespace Level

variable {l : Level Place} {delimiter cs : List Char} {count : Nat} {first last : Int}

theorem bounds?_single (hstop : l.stop = none) :
    l.bounds? count = some (first, last) ↔
      first = l.start.number count ∧ last = first ∧ 1 ≤ first ∧ first ≤ count := by
  simp only [bounds?, hstop, Bool.or_eq_true, decide_eq_true_eq]
  split
  · simp only [reduceCtorEq, false_iff]
    omega
  · simp only [Option.some.injEq, Prod.mk.injEq]
    omega

theorem bounds?_range {stop : Place} (hstop : l.stop = some stop) :
    l.bounds? count = some (first, last) ↔
      first = max (l.start.number count) 1 ∧ last = min (stop.number count) count ∧
        first ≤ last := by
  simp only [bounds?, hstop]
  split
  · simp only [reduceCtorEq, false_iff]
    omega
  · simp only [Option.some.injEq, Prod.mk.injEq]
    omega

theorem bounds?_eq_some (h : l.bounds? count = some (first, last)) :
    1 ≤ first ∧ first ≤ last ∧ last ≤ count := by
  cases hstop : l.stop with
  | none =>
    have := (bounds?_single hstop).1 h
    omega
  | some stop =>
    have := (bounds?_range hstop).1 h
    omega

/-- The stretch of a level is a stretch of the text. -/
theorem stretch_bounds (l : Level Place) (delimiter cs : List Char) :
    (l.stretch delimiter cs).start ≤ (l.stretch delimiter cs).stop ∧
      (l.stretch delimiter cs).stop ≤ cs.length := by
  unfold stretch
  simp only
  split
  · exact ⟨Nat.le_refl _, Nat.le_refl _⟩
  · split
    · next first last hbounds =>
      obtain ⟨h1, hle, hlast⟩ := bounds?_eq_some hbounds
      have hcount := counted_le l.kind (segments l.kind delimiter cs)
      exact between_bounds (segments_inOrder ..) h1 hle (by omega)
    · exact ⟨Nat.le_refl _, Nat.le_refl _⟩

/-- A level that denotes segments is read from the first to the last of them. -/
theorem stretch_of_bounds (h0 : Chunk.count l.kind delimiter cs ≠ 0)
    (h : l.bounds? (Chunk.count l.kind delimiter cs) = some (first, last)) :
    l.stretch delimiter cs = between (segments l.kind delimiter cs) first last := by
  unfold Chunk.count at h0 h
  simp only [stretch, h, beq_iff_eq, h0, if_false]

/-- A level that denotes segments is written at these segments. -/
theorem put_of_bounds (preposition : Preposition) (new : List Char)
    (h0 : Chunk.count l.kind delimiter cs ≠ 0)
    (h : l.bounds? (Chunk.count l.kind delimiter cs) = some (first, last)) :
    l.put delimiter cs preposition new =
      .ok (((l.stretch delimiter cs).written preposition).replace cs new) := by
  obtain ⟨h1, hle, hlast⟩ := bounds?_eq_some h
  have hcount := counted_le l.kind (segments l.kind delimiter cs)
  rw [stretch_of_bounds h0 h]
  unfold Chunk.count at h0 h hlast
  unfold put
  simp only [Nat.max_eq_left (Nat.one_le_iff_ne_zero.2 h0)]
  cases hstop : l.stop with
  | none =>
    obtain ⟨hfirst, rfl, _, _⟩ := (bounds?_single hstop).1 h
    simp only [← hfirst, Int.max_eq_left h1]
    rw [if_neg (by simp; omega), if_neg (by omega), if_neg (by omega)]
  | some stop =>
    obtain ⟨hfirst, rfl, _⟩ := (bounds?_range hstop).1 h
    simp only [← hfirst]
    rw [if_neg (by simp), if_neg (by omega), if_neg (by omega)]

/-- Where a level denotes nothing, putting nothing has no effect. -/
theorem put_nil_of_absent
    (h : Chunk.count l.kind delimiter cs = 0 ∨
      l.bounds? (Chunk.count l.kind delimiter cs) = none) :
    l.put delimiter cs .into [] = .ok cs := by
  unfold Chunk.count at h
  unfold put
  simp only [List.isEmpty_nil, if_true]
  generalize hall : segments l.kind delimiter cs = all at h ⊢
  generalize hcount : counted l.kind all = count at h ⊢
  split
  · rfl
  split
  · rfl
  next hrequested hstart =>
  cases hstop : l.stop with
  | none =>
    -- a segment that is there without being counted is empty
    simp only [hstop, Option.isNone_none, Bool.and_true, decide_eq_true_eq] at hrequested
    have hpast : count < l.start.number (max count 1) := by
      rcases h with h | h
      · omega
      · rcases Nat.eq_zero_or_pos count with h0 | h0
        · omega
        rw [Nat.max_eq_left h0] at hrequested hstart ⊢
        by_cases hle : l.start.number count ≤ count
        · rw [(bounds?_single hstop).2 ⟨rfl, rfl, by omega, hle⟩] at h
          cases h
        · omega
    rw [Int.max_eq_left (by omega)] at hstart ⊢
    have hindex : (l.start.number (max count 1) - 1).toNat < all.length := by omega
    have hle : counted l.kind all ≤ (l.start.number (max count 1) - 1).toNat := by omega
    have hempty := isEmpty_of_counted_lt (List.getElem?_eq_getElem hindex) hle
    rw [if_neg (by simp), Stretch.written, Stretch.replace_nil]
    simpa only [between, List.getElem?_eq_getElem hindex, Option.getD_some] using hempty
  | some stop =>
    dsimp only
    rw [if_pos]
    by_cases h0 : count = 0
    · omega
    have hnone := h.resolve_left h0
    rw [Nat.max_eq_left (Nat.one_le_iff_ne_zero.2 h0)]
    by_cases hle : max (l.start.number count) 1 ≤ min (stop.number count) count
    · rw [(bounds?_range hstop).2 ⟨rfl, rfl, hle⟩] at hnone
      cases hnone
    · exact Int.not_le.1 hle

/-- Nothing is read where a level denotes nothing. -/
theorem stretch_of_absent
    (h : Chunk.count l.kind delimiter cs = 0 ∨
      l.bounds? (Chunk.count l.kind delimiter cs) = none) :
    l.stretch delimiter cs = ⟨cs.length, cs.length⟩ := by
  unfold Chunk.count at h
  rcases h with h | h
  · simp [stretch, h]
  · simp [stretch, h]

/-- Writing back at one level. -/
theorem put_stretch_of (l : Level Place) (delimiter cs : List Char) :
    l.put delimiter cs .into ((l.stretch delimiter cs).of cs) = .ok cs := by
  by_cases h0 : Chunk.count l.kind delimiter cs = 0
  · rw [stretch_of_absent (.inl h0), Stretch.of, List.take_length, List.drop_length]
    exact put_nil_of_absent (.inl h0)
  cases h : l.bounds? (Chunk.count l.kind delimiter cs) with
  | none =>
    rw [stretch_of_absent (.inr h), Stretch.of, List.take_length, List.drop_length]
    exact put_nil_of_absent (.inr h)
  | some bounds =>
    rw [put_of_bounds .into _ h0 h, Stretch.written]
    rw [Stretch.replace_of_self (l.stretch_bounds delimiter cs).1]

end Level

/-! ## Nested chunks -/

/-- The stretch of a chunk is a stretch of the text. -/
theorem stretch_bounds (chunk : Chunk Place) (delimiter cs : List Char) :
    (chunk.stretch delimiter cs).start ≤ (chunk.stretch delimiter cs).stop ∧
      (chunk.stretch delimiter cs).stop ≤ cs.length := by
  induction chunk with
  | ofText l => exact l.stretch_bounds delimiter cs
  | within l outer ih =>
    have hinner := l.stretch_bounds delimiter (outer.get delimiter cs)
    rw [get, Stretch.length_of ih.2] at hinner
    simp only [stretch, Stretch.shift]
    omega

/-- A chunk inside another one is read from the text of that one. -/
theorem get_within (l : Level Place) (outer : Chunk Place) (delimiter cs : List Char) :
    (within l outer).get delimiter cs =
      (l.stretch delimiter (outer.get delimiter cs)).of (outer.get delimiter cs) := by
  obtain ⟨hle, hlen⟩ := l.stretch_bounds delimiter (outer.get delimiter cs)
  exact Stretch.shift_of (outer.stretch_bounds delimiter cs).2 hle hlen

/-- Writing back what a chunk reads as changes nothing. -/
theorem put_get (chunk : Chunk Place) (delimiter cs : List Char) :
    chunk.put delimiter cs .into (chunk.get delimiter cs) = .ok cs := by
  induction chunk with
  | ofText l => exact l.put_stretch_of delimiter cs
  | within l outer ih =>
    rw [get_within, put, l.put_stretch_of]
    exact ih

/-- **Writing back is the identity**: whatever the text, the delimiter and the chunk, putting into
the chunk what it reads as succeeds and gives the text itself. -/
theorem put_get_eq_text (chunk : Chunk Place) (delimiter text : String) :
    (chunk.put delimiter.toList text.toList .into
      (chunk.get delimiter.toList text.toList)).map String.ofList = .ok text := by
  rw [put_get, Except.map, String.ofList_toList]

end CardScript.Chunk
