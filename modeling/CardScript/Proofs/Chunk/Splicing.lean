import CardScript.Proofs.Chunk.WriteBack

/-!
# Reading and writing address the same place

A chunk that is there at every level (`Chunk.Present`) is written where it is read: putting a text
splices it in at the chunk's stretch and leaves all else alone (`put_splices`). Reading goes from
the outside in and adds up positions, writing goes from the inside out and puts whole texts back;
that both come to the same is `Stretch.replace_within`, used once for each enclosing chunk.
-/

namespace CardScript.Chunk

/-! ## Chunks that are there -/

/-- The chunk that a single index names is there, or some chunk of a range. -/
def Level.Present (l : Level Place) (count : Nat) : Prop :=
  match l.stop with
  | none => 1 ≤ l.start.number count ∧ l.start.number count ≤ count
  | some stop => max (l.start.number count) 1 ≤ min (stop.number count) count

/-- Present at every level, each counted inside the chunk around it. -/
def Present (delimiter cs : List Char) : Chunk Place → Prop
  | ofText l => l.Present (count l.kind delimiter cs)
  | within l outer =>
    outer.Present delimiter cs ∧ l.Present (count l.kind delimiter (outer.get delimiter cs))

instance (l : Level Place) (count : Nat) : Decidable (l.Present count) := by
  unfold Level.Present
  exact match l.stop with
    | none => inferInstanceAs (Decidable (_ ∧ _))
    | some _ => inferInstanceAs (Decidable (_ ≤ _))

instance Present.decide (delimiter cs : List Char) :
    (chunk : Chunk Place) → Decidable (chunk.Present delimiter cs)
  | ofText l => inferInstanceAs (Decidable (l.Present _))
  | within l outer =>
    have := Present.decide delimiter cs outer
    inferInstanceAs (Decidable (outer.Present delimiter cs ∧ l.Present _))

theorem Level.Present.exists_bounds {l : Level Place} {count : Nat} (h : l.Present count) :
    count ≠ 0 ∧ ∃ bounds, l.bounds? count = some bounds := by
  unfold Level.Present at h
  split at h
  next hstop => exact ⟨by omega, _, (Level.bounds?_single hstop).2 ⟨rfl, rfl, h.1, h.2⟩⟩
  next stop hstop => exact ⟨by omega, _, (Level.bounds?_range hstop).2 ⟨rfl, rfl, h⟩⟩

/-- At one level, a present chunk is written at its stretch. -/
theorem Level.Present.put_eq {l : Level Place} {delimiter cs : List Char}
    (h : l.Present (Chunk.count l.kind delimiter cs)) (preposition : Preposition)
    (new : List Char) :
    l.put delimiter cs preposition new =
      .ok (((l.stretch delimiter cs).written preposition).replace cs new) := by
  obtain ⟨hcount, bounds, hbounds⟩ := h.exists_bounds
  exact Level.put_of_bounds preposition new hcount hbounds

/-! ## Splicing inside a stretch -/

namespace Stretch

theorem written_shift (s : Stretch) (n : Nat) (preposition : Preposition) :
    (s.shift n).written preposition = (s.written preposition).shift n := by
  cases preposition <;> rfl

theorem written_bounds {s : Stretch} (h : s.start ≤ s.stop) (preposition : Preposition) :
    s.start ≤ (s.written preposition).start ∧
      (s.written preposition).start ≤ (s.written preposition).stop ∧
      (s.written preposition).stop ≤ s.stop := by
  cases preposition with
  | before => exact ⟨Nat.le_refl _, Nat.le_refl _, h⟩
  | after => exact ⟨h, Nat.le_refl _, Nat.le_refl _⟩
  | into => exact ⟨Nat.le_refl _, h, Nat.le_refl _⟩

/-- Replacing inside a stretch and then putting the stretch back is replacing in the whole text. -/
theorem replace_within {s t : Stretch} {cs new : List Char} (hs : s.start ≤ s.stop)
    (hlen : s.stop ≤ cs.length) (ht : t.start ≤ t.stop) (hle : t.stop ≤ (s.of cs).length) :
    s.replace cs (t.replace (s.of cs) new) = (t.shift s.start).replace cs new := by
  rw [length_of hlen] at hle
  have hbefore : cs.take s.start ++ (s.of cs).take t.start = cs.take (s.start + t.start) := by
    have htake : cs.take s.start = (cs.take (s.start + t.start)).take s.start := by
      rw [List.take_take, Nat.min_eq_left (Nat.le_add_right ..)]
    rw [of, List.take_drop, List.take_take, Nat.min_eq_left (by omega), htake,
      List.take_append_drop]
  have hafter : (s.of cs).drop t.stop ++ cs.drop s.stop = cs.drop (s.start + t.stop) := by
    rw [of, List.drop_drop, ← List.drop_append_of_le_length (by simp; omega),
      List.take_append_drop]
  calc s.replace cs (t.replace (s.of cs) new)
      = (cs.take s.start ++ (s.of cs).take t.start) ++ new ++
          ((s.of cs).drop t.stop ++ cs.drop s.stop) := by simp [replace]
    _ = (t.shift s.start).replace cs new := by rw [hbefore, hafter, replace, shift]

/-- What lies before and after a stretch outlasts a replacement in it. -/
theorem replace_keeps {s t : Stretch} (hstart : s.start ≤ t.start) (hstop : t.stop ≤ s.stop)
    (cs new : List Char) :
    cs.take s.start <+: t.replace cs new ∧ cs.drop s.stop <:+ t.replace cs new := by
  constructor
  · rw [replace, List.append_assoc]
    exact (List.take_prefix_take_left hstart).trans (List.prefix_append ..)
  · exact (List.drop_suffix_drop_left cs hstop).trans (List.suffix_append ..)

end Stretch

/-! ## Nested chunks -/

/-- A present chunk is written at its stretch. -/
theorem Present.put_eq {chunk : Chunk Place} {delimiter cs : List Char}
    (h : chunk.Present delimiter cs) (preposition : Preposition) (new : List Char) :
    chunk.put delimiter cs preposition new =
      .ok (((chunk.stretch delimiter cs).written preposition).replace cs new) := by
  induction chunk generalizing preposition new with
  | ofText l => exact Level.Present.put_eq h preposition new
  | within l outer ih =>
    obtain ⟨houter, hlevel⟩ := h
    obtain ⟨hle, hlen⟩ := outer.stretch_bounds delimiter cs
    obtain ⟨hinner, hinnerLen⟩ := l.stretch_bounds delimiter (outer.get delimiter cs)
    obtain ⟨_, hwritten, hwrittenLen⟩ := Stretch.written_bounds hinner preposition
    rw [put, hlevel.put_eq]
    show outer.put delimiter cs .into _ = _
    rw [ih houter, stretch, Stretch.written_shift]
    exact congrArg Except.ok
      (Stretch.replace_within hle hlen hwritten (Nat.le_trans hwrittenLen hinnerLen))

/-- **Writing goes where reading looks.** Putting a text into, before or after a chunk that is
there at every level succeeds and splices it in at the stretch of the chunk: over it, at its start
or at its end. What lies outside the stretch is kept. -/
theorem put_splices (chunk : Chunk Place) (delimiter text new : List Char)
    (h : chunk.Present delimiter text) :
    let s := chunk.stretch delimiter text
    chunk.put delimiter text .into new = .ok (text.take s.start ++ new ++ text.drop s.stop) ∧
    chunk.put delimiter text .before new = .ok (text.take s.start ++ new ++ text.drop s.start) ∧
    chunk.put delimiter text .after new = .ok (text.take s.stop ++ new ++ text.drop s.stop) ∧
    ∀ preposition, ∃ out, chunk.put delimiter text preposition new = .ok out ∧
      text.take s.start <+: out ∧ text.drop s.stop <:+ out := by
  intro s
  refine ⟨h.put_eq .into new, h.put_eq .before new, h.put_eq .after new, fun preposition => ?_⟩
  obtain ⟨hstart, _, hstop⟩ :=
    Stretch.written_bounds (chunk.stretch_bounds delimiter text).1 preposition
  exact ⟨_, h.put_eq preposition new, Stretch.replace_keeps hstart hstop text new⟩

/-- Words two to three of the last line, with a carriage return before its end. -/
theorem put_splices_lastLine :
    let chunk : Chunk Place := .within ⟨.word, .at 2, some (.at 9)⟩ (.ofText ⟨.line, .last, none⟩)
    let text := "a b\r\nc  d e\r\n".toList
    chunk.Present [','] text ∧ chunk.stretch [','] text = ⟨8, 11⟩ ∧
    chunk.put [','] text .into "x".toList = .ok "a b\r\nc  x\r\n".toList ∧
    chunk.put [','] text .after "x".toList = .ok "a b\r\nc  d ex\r\n".toList := by
  have h : (within ⟨.word, .at 2, some (.at 9)⟩ (.ofText ⟨.line, .last, none⟩)).Present [',']
      "a b\r\nc  d e\r\n".toList := by decide
  obtain ⟨hinto, -, hafter, -⟩ := put_splices _ _ _ "x".toList h
  exact ⟨h, by decide, hinto, hafter⟩

end CardScript.Chunk
