import CardScript.Proofs.Chunk.WriteBack

/-!
# When writing is refused

Nothing can be put at a single number below one (`Level.BelowFirst`), and that is the only reason
for which writing fails (`put_eq_error_iff`). Levels are written from the inside out, and each one
hands its result on to the next. So a refusal further out depends on what comes from within: a text
that holds something never becomes empty on its way (`Level.put_of_not_below`), and nothing at all
stays nothing, since a chunk with such a number in it reads as empty (`get_of_below`).
-/

namespace CardScript.Chunk

/-- All levels, the innermost first. -/
def levels {ι : Type} : Chunk ι → List (Level ι)
  | ofText l => [l]
  | within l outer => l :: outer.levels

/-- The level is the single number `n`, which lies below one. -/
def Level.BelowFirst (l : Level Place) (n : Int) : Prop :=
  l.start = .at n ∧ l.stop = none ∧ n < 1

/-! ## One level -/

theorem Place.one_le_number {p : Place} (h : ∀ n, p = .at n → 1 ≤ n) {count : Nat}
    (hcount : 1 ≤ count) : 1 ≤ p.number count := by
  cases p with
  | «at» n => exact h n rfl
  | last =>
    simp only [number]
    omega
  | middle =>
    simp only [number]
    omega

theorem Stretch.replace_ne_nil {new : List Char} (h : new ≠ []) (s : Stretch) (cs : List Char) :
    s.replace cs new ≠ [] := by
  simp [replace, h]

theorem extend_ne_nil {new : List Char} (h : new ≠ []) (kind : Kind) (missing : Nat)
    (delimiter cs : List Char) : extend kind missing delimiter cs new ≠ [] := by
  cases kind with
  | word =>
    simp only [extend]
    split
    · split <;> simp [h]
    · exact h
  | char | item | line => simp [extend, h]

namespace Level

variable {l : Level Place} {n : Int}

theorem put_of_below (h : l.BelowFirst n) {new : List Char} (hnew : new ≠ [])
    (delimiter cs : List Char) (preposition : Preposition) :
    l.put delimiter cs preposition new = .error (.chunkRange (.beforeFirst l.kind n)) := by
  obtain ⟨hstart, hstop, hlt⟩ := h
  simp [put, hstart, hstop, Place.number, hlt, hnew]

theorem put_nil_of_below (h : l.BelowFirst n) (delimiter cs : List Char)
    (preposition : Preposition) : l.put delimiter cs preposition [] = .ok cs := by
  obtain ⟨hstart, hstop, hlt⟩ := h
  simp [put, hstart, hstop, Place.number, hlt]

/-- Nothing is read at a number below one. -/
theorem stretch_of_below (h : l.BelowFirst n) (delimiter cs : List Char) :
    l.stretch delimiter cs = ⟨cs.length, cs.length⟩ := by
  obtain ⟨hstart, hstop, hlt⟩ := h
  refine stretch_of_absent (.inr ?_)
  simp [bounds?, hstart, hstop, Place.number, hlt]

/-- All that putting a text at one level can come to. -/
theorem put_cases (l : Level Place) (delimiter cs : List Char) (preposition : Preposition)
    (new : List Char) :
    (∃ n, l.BelowFirst n) ∨ (new = [] ∧ l.put delimiter cs preposition new = .ok cs) ∨
      (∃ missing, new ≠ [] ∧
        l.put delimiter cs preposition new = .ok (extend l.kind missing delimiter cs new)) ∨
      ∃ s : Stretch, l.put delimiter cs preposition new = .ok (s.replace cs new) := by
  by_cases hbelow : ∃ n, l.BelowFirst n
  · exact .inl hbelow
  refine .inr ?_
  have hrequested (count : Nat) (hstop : l.stop = none) : 1 ≤ l.start.number (max count 1) :=
    Place.one_le_number
      (fun n hn => Int.not_lt.1 fun hlt => hbelow ⟨n, hn, hstop, hlt⟩) (Nat.le_max_right ..)
  unfold put
  simp only
  split
  next hlow =>
    simp only [Bool.and_eq_true, decide_eq_true_eq, Option.isNone_iff_eq_none] at hlow
    exact absurd hlow.1 (Int.not_lt.2 (hrequested _ hlow.2))
  split
  · split
    next hnew => exact .inl ⟨List.isEmpty_iff.1 hnew, rfl⟩
    next hnew => exact .inr (.inl ⟨_, fun h => hnew (List.isEmpty_iff.2 h), rfl⟩)
  -- a range and a single number differ only in where they end
  split
  all_goals
    split
    · split
      next hnew => exact .inl ⟨List.isEmpty_iff.1 hnew, rfl⟩
      next => exact .inr (.inr ⟨_, rfl⟩)
    · exact .inr (.inr ⟨_, rfl⟩)

/-- A level that is no single number below one takes any text, and does not lose it. -/
theorem put_of_not_below (h : ∀ n, ¬ l.BelowFirst n) (delimiter cs : List Char)
    (preposition : Preposition) (new : List Char) :
    ∃ out, l.put delimiter cs preposition new = .ok out ∧ (new ≠ [] → out ≠ []) := by
  rcases l.put_cases delimiter cs preposition new with
    ⟨n, hn⟩ | ⟨hnew, hput⟩ | ⟨missing, _, hput⟩ | ⟨s, hput⟩
  · exact absurd hn (h n)
  · exact ⟨cs, hput, fun hne => absurd hnew hne⟩
  · exact ⟨_, hput, fun hne => extend_ne_nil hne _ _ _ _⟩
  · exact ⟨_, hput, fun hne => Stretch.replace_ne_nil hne _ _⟩

/-- Nothing can always be put, and in no text it leaves nothing. -/
theorem put_nil (l : Level Place) (delimiter cs : List Char) (preposition : Preposition) :
    ∃ out, l.put delimiter cs preposition [] = .ok out ∧ (cs = [] → out = []) := by
  rcases l.put_cases delimiter cs preposition [] with
    ⟨n, hn⟩ | ⟨-, hput⟩ | ⟨_, hnew, _⟩ | ⟨s, hput⟩
  · exact ⟨cs, l.put_nil_of_below hn delimiter cs preposition, id⟩
  · exact ⟨cs, hput, id⟩
  · exact absurd rfl hnew
  · refine ⟨_, hput, ?_⟩
    rintro rfl
    simp [Stretch.replace]

end Level

/-! ## Nested chunks -/

variable {chunk : Chunk Place} {delimiter cs new : List Char} {preposition : Preposition}

/-- A chunk with a number below one at any level reads as empty. -/
theorem get_of_below {l : Level Place} {n : Int} (hl : l ∈ chunk.levels) (h : l.BelowFirst n) :
    chunk.get delimiter cs = [] := by
  induction chunk with
  | ofText k =>
    obtain rfl := List.mem_singleton.1 hl
    rw [get, stretch, Level.stretch_of_below h, Stretch.of, List.take_length, List.drop_length]
  | within k outer ih =>
    rw [get_within]
    rcases List.mem_cons.1 hl with rfl | hl
    · rw [Level.stretch_of_below h, Stretch.of, List.take_length, List.drop_length]
    · rw [ih hl]
      simp [Stretch.of]

/-- A chunk without such a number takes any text. -/
theorem put_of_not_below (h : ∀ l ∈ chunk.levels, ∀ n, ¬ l.BelowFirst n) :
    ∃ out, chunk.put delimiter cs preposition new = .ok out := by
  induction chunk generalizing preposition new with
  | ofText l =>
    obtain ⟨out, hout, _⟩ :=
      l.put_of_not_below (h l List.mem_cons_self) delimiter cs preposition new
    exact ⟨out, hout⟩
  | within l outer ih =>
    obtain ⟨updated, hupdated, _⟩ := l.put_of_not_below (h l List.mem_cons_self) delimiter
      (outer.get delimiter cs) preposition new
    rw [put, hupdated]
    exact ih fun k hk => h k (List.mem_cons_of_mem _ hk)

/-- Nothing can be put anywhere. -/
theorem put_nil : ∃ out, chunk.put delimiter cs preposition [] = .ok out := by
  induction chunk generalizing preposition with
  | ofText l =>
    obtain ⟨out, hout, _⟩ := l.put_nil delimiter cs preposition
    exact ⟨out, hout⟩
  | within l outer ih =>
    obtain ⟨updated, hupdated, hempty⟩ := l.put_nil delimiter (outer.get delimiter cs) preposition
    rw [put, hupdated]
    by_cases hbelow : ∃ k ∈ outer.levels, ∃ n, k.BelowFirst n
    · -- what a refusing chunk encloses is empty, so that nothing goes on to be put
      obtain ⟨k, hk, n, hn⟩ := hbelow
      rw [hempty (get_of_below hk hn)]
      exact ih
    · exact put_of_not_below fun k hk n hn => hbelow ⟨k, hk, n, hn⟩

/-- The innermost number below one is `n`, and counts chunks of a kind. -/
def Refuses (chunk : Chunk Place) (kind : Kind) (n : Int) : Prop :=
  ∃ inner l outer, chunk.levels = inner ++ l :: outer ∧
    (∀ k ∈ inner, ∀ i, ¬ k.BelowFirst i) ∧ l.BelowFirst n ∧ l.kind = kind

namespace Refuses

variable {kind : Kind} {n i : Int} {l : Level Place} {outer : Chunk Place}

theorem exists_level (h : chunk.Refuses kind n) : ∃ l ∈ chunk.levels, l.BelowFirst n := by
  obtain ⟨inner, l, outer, hlevels, _, hl, _⟩ := h
  exact ⟨l, by simp [hlevels], hl⟩

/-- A level that refuses is the first to do so of those from there on outward. -/
theorem of_head (chunk : Chunk Place) (hl : l.BelowFirst i) {rest : List (Level Place)}
    (hlevels : chunk.levels = l :: rest) : chunk.Refuses kind n ↔ kind = l.kind ∧ n = i := by
  constructor
  · rintro ⟨inner, k, outer, hsplit, hinner, hk, hkind⟩
    cases inner with
    | nil =>
      obtain ⟨rfl, -⟩ := List.cons.inj (hlevels.symm.trans hsplit)
      exact ⟨hkind.symm, Place.at.inj (hk.1.symm.trans hl.1)⟩
    | cons j inner =>
      obtain ⟨rfl, -⟩ := List.cons.inj (hlevels.symm.trans hsplit)
      exact absurd hl (hinner l List.mem_cons_self i)
  · rintro ⟨rfl, rfl⟩
    exact ⟨[], l, rest, hlevels, nofun, hl, rfl⟩

/-- A level that does not refuse leaves it to those around it. -/
theorem within (hl : ∀ i, ¬ l.BelowFirst i) :
    (within l outer).Refuses kind n ↔ outer.Refuses kind n := by
  constructor
  · rintro ⟨inner, k, rest, hlevels, hinner, hk, hkind⟩
    cases inner with
    | nil =>
      obtain ⟨rfl, -⟩ := List.cons.inj hlevels
      exact absurd hk (hl n)
    | cons _ inner =>
      have hlevels := (List.cons.inj hlevels).2
      exact ⟨inner, k, rest, hlevels, fun j hj => hinner j (List.mem_cons_of_mem _ hj), hk, hkind⟩
  · rintro ⟨inner, k, rest, hlevels, hinner, hk, hkind⟩
    refine ⟨l :: inner, k, rest, ?_, ?_, hk, hkind⟩
    · rw [levels, hlevels, List.cons_append]
    · intro j hj
      rcases List.mem_cons.1 hj with rfl | hj
      · exact hl
      · exact hinner j hj

/-- If any level refuses, there is an innermost one that does. -/
theorem exists_of_mem {l : Level Place} (hl : l ∈ chunk.levels) (hn : l.BelowFirst n) :
    ∃ kind i, chunk.Refuses kind i := by
  induction chunk with
  | ofText k =>
    obtain rfl := List.mem_singleton.1 hl
    exact ⟨l.kind, n, (of_head (.ofText l) hn rfl).2 ⟨rfl, rfl⟩⟩
  | within k outer ih =>
    by_cases hk : ∃ i, k.BelowFirst i
    · obtain ⟨i, hi⟩ := hk
      exact ⟨k.kind, i, (of_head (.within k outer) hi rfl).2 ⟨rfl, rfl⟩⟩
    · rcases List.mem_cons.1 hl with rfl | hl
      · exact absurd ⟨n, hn⟩ hk
      · obtain ⟨kind, i, hrefuses⟩ := ih hl
        exact ⟨kind, i, (Refuses.within (not_exists.1 hk)).2 hrefuses⟩

end Refuses

/-- A text that holds something is refused for the innermost number below one, and for no other
reason. -/
theorem put_eq_error (hnew : new ≠ []) {e : Failure} :
    chunk.put delimiter cs preposition new = .error e ↔
      ∃ kind n, chunk.Refuses kind n ∧ e = .chunkRange (.beforeFirst kind n) := by
  induction chunk generalizing preposition new with
  | ofText l =>
    by_cases hl : ∃ n, l.BelowFirst n
    · obtain ⟨n, hn⟩ := hl
      rw [put, Level.put_of_below hn hnew, Except.error.injEq, eq_comm]
      simp [Refuses.of_head (.ofText l) hn rfl, and_assoc]
    · obtain ⟨out, hout, _⟩ :=
        l.put_of_not_below (not_exists.1 hl) delimiter cs preposition new
      rw [put, hout]
      refine ⟨fun h => (by cases h), ?_⟩
      rintro ⟨kind, n, hrefuses, -⟩
      obtain ⟨k, hk, hn⟩ := hrefuses.exists_level
      obtain rfl := List.mem_singleton.1 hk
      exact absurd ⟨n, hn⟩ hl
  | within l outer ih =>
    by_cases hl : ∃ n, l.BelowFirst n
    · obtain ⟨n, hn⟩ := hl
      rw [put, Level.put_of_below hn hnew]
      show Except.error _ = Except.error _ ↔ _
      rw [Except.error.injEq, eq_comm]
      simp [Refuses.of_head (.within l outer) hn rfl, and_assoc]
    · -- the level hands on something, so those around it decide
      obtain ⟨updated, hupdated, hne⟩ := l.put_of_not_below (not_exists.1 hl) delimiter
        (outer.get delimiter cs) preposition new
      rw [put, hupdated]
      simp only [Refuses.within (not_exists.1 hl)]
      exact ih (hne hnew)

/-- **When writing is refused.** Putting a text into, before or after a chunk fails if and only if
the text is not empty and some level of the chunk is a single number below one. The failure is one
of range, and names the kind and the number of the innermost such level. -/
theorem put_eq_error_iff (chunk : Chunk Place) (delimiter text new : List Char)
    (preposition : Preposition) :
    ((∃ e, chunk.put delimiter text preposition new = .error e) ↔
      new ≠ [] ∧ ∃ l ∈ chunk.levels, ∃ n, l.BelowFirst n) ∧
    ∀ e, chunk.put delimiter text preposition new = .error e ↔
      new ≠ [] ∧ ∃ kind n, chunk.Refuses kind n ∧ e = .chunkRange (.beforeFirst kind n) ∧
        e.message = s!"Can't put into {kind.name} {n}." := by
  have herror (e : Failure) : chunk.put delimiter text preposition new = .error e ↔
      new ≠ [] ∧ ∃ kind n, chunk.Refuses kind n ∧ e = .chunkRange (.beforeFirst kind n) := by
    by_cases hnew : new = []
    · obtain ⟨out, hout⟩ : ∃ out, chunk.put delimiter text preposition [] = .ok out := put_nil
      simp [hnew, hout]
    · simp [put_eq_error hnew, hnew]
  refine ⟨⟨?_, ?_⟩, fun e => (herror e).trans ⟨?_, ?_⟩⟩
  · rintro ⟨e, he⟩
    obtain ⟨hnew, kind, n, hrefuses, -⟩ := (herror e).1 he
    obtain ⟨l, hl, hn⟩ := hrefuses.exists_level
    exact ⟨hnew, l, hl, n, hn⟩
  · rintro ⟨hnew, l, hl, n, hn⟩
    obtain ⟨kind, i, hrefuses⟩ := Refuses.exists_of_mem hl hn
    exact ⟨_, (herror _).2 ⟨hnew, kind, i, hrefuses, rfl⟩⟩
  · rintro ⟨hnew, kind, n, hrefuses, rfl⟩
    exact ⟨hnew, kind, n, hrefuses, rfl, rfl⟩
  · rintro ⟨hnew, kind, n, hrefuses, he, -⟩
    exact ⟨hnew, kind, n, hrefuses, he⟩

/-- Of two numbers below one the inner one is named, and an empty text meets with no refusal. -/
example :
    let chunk : Chunk Place :=
      .within ⟨.char, .at 2, none⟩
        (.within ⟨.word, .at (-3), none⟩ (.ofText ⟨.line, .at 0, none⟩))
    chunk.put [','] "a b".toList .after "x".toList =
        .error (.chunkRange (.beforeFirst .word (-3))) ∧
      chunk.put [','] "a b".toList .after [] = .ok "a b".toList := by
  exact ⟨rfl, rfl⟩

end CardScript.Chunk
