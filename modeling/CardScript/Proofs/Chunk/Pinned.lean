import CardScript.Chunk.Pinning
import CardScript.Proofs.Chunk.WriteBack

/-!
# What pinning may come to

`Chunk.PinsTo` says what a chunk may be pinned to, without any draws: the same chunk, with a number
that counts in the place of every `any`. The enclosing chunk is settled first, since its text
decides which numbers count. Whatever the draws, pinning comes to such a chunk (`pinsTo_pin`), and
to every one of them for some draws (`PinsTo.exists_pin`).
-/

namespace CardScript

/-! ## Draws to come -/

/-- The numbers that are drawn next begin with `numbers`. -/
def Draws.Yields (source : Draws) (numbers : List Nat) : Prop :=
  ∀ i n, numbers[i]? = some n → source.number (source.used + i) = n

namespace Draws.Yields

variable {source : Draws} {front back : List Nat}

theorem left (h : source.Yields (front ++ back)) : source.Yields front := by
  intro i n hi
  have hlt : i < front.length := (List.getElem?_eq_some_iff.1 hi).1
  exact h i n (by rwa [List.getElem?_append_left hlt])

theorem right (h : source.Yields (front ++ back)) : (source.skip front.length).Yields back := by
  intro i n hi
  have hnext := h (front.length + i) n
    (by rwa [List.getElem?_append_right (Nat.le_add_right ..), Nat.add_sub_cancel_left])
  rwa [← Nat.add_assoc] at hnext

theorem head {n : Nat} (h : source.Yields [n]) : source.number source.used = n :=
  h 0 n rfl

end Draws.Yields

/-- Any numbers may be drawn. -/
theorem Draws.exists_yields (numbers : List Nat) : ∃ source : Draws, source.Yields numbers := by
  refine ⟨{ number := fun i => numbers[i]?.getD 0 }, fun i n hi => ?_⟩
  show numbers[0 + i]?.getD 0 = n
  rw [Nat.zero_add, hi, Option.getD_some]

theorem Draws.pick_of_yields {source : Draws} {n count : Nat} (h : source.Yields [n - 1])
    (hone : 1 ≤ n) (hle : n ≤ max 1 count) : max (source.pick count) 1 = n := by
  have hnumber := h.head
  unfold pick
  split
  next hcount =>
    have : count = 0 := by simpa using hcount
    omega
  next hcount =>
    have hpos : count ≠ 0 := by simpa using hcount
    rw [hnumber, Nat.mod_eq_of_lt (by omega)]
    omega

theorem Draws.pick_le (source : Draws) (count : Nat) : source.pick count ≤ count := by
  unfold pick
  split
  next => exact Nat.zero_le _
  next hcount =>
    have hpos : 0 < count := Nat.pos_of_ne_zero (by simpa using hcount)
    exact Nat.mod_lt _ hpos

namespace Chunk

/-! ## Chunks without chance -/

def Level.certain (l : Level Place) : Level Index where
  kind := l.kind
  start := .place l.start
  stop := l.stop.map .place

/-- A chunk of places as one in which no index is left to chance. -/
def certain : Chunk Place → Chunk Index
  | ofText l => ofText l.certain
  | within l outer => within l.certain outer.certain

theorem Level.settled?_eq_some_iff {l : Level Index} {l' : Level Place} :
    l.settled? = some l' ↔ l = l'.certain := by
  obtain ⟨kind, start, stop⟩ := l
  obtain ⟨kind', start', stop'⟩ := l'
  cases start with
  | any => simp [settled?, Index.settled?, certain]
  | place p =>
    rcases stop with _ | _ | q
    all_goals cases stop' <;> simp [settled?, Index.settled?, certain, eq_comm]

/-- Nothing in a chunk is left to chance exactly if it is a chunk of places. -/
theorem settled?_eq_some_iff {chunk : Chunk Index} {settled : Chunk Place} :
    chunk.settled? = some settled ↔ chunk = settled.certain := by
  induction chunk generalizing settled with
  | ofText l =>
    cases settled with
    | ofText l' => simp [settled?, certain, Option.bind_eq_some_iff, Level.settled?_eq_some_iff]
    | within l' outer' => simp [settled?, certain, Option.bind_eq_some_iff]
  | within l outer ih =>
    cases settled with
    | ofText l' => simp [settled?, certain, Option.bind_eq_some_iff]
    | within l' outer' =>
      simp [settled?, certain, Option.bind_eq_some_iff, Level.settled?_eq_some_iff, ih]

theorem Level.pin_certain (l : Level Place) (source : Draws) (count : Nat) :
    l.certain.pin source count = l := by
  obtain ⟨kind, start, stop⟩ := l
  cases stop with
  | none => rfl
  | some stop => rfl

/-- A chunk without chance is pinned to itself, whatever the text. -/
theorem pin_certain (chunk : Chunk Place) (source : Draws) (delimiter cs : List Char) :
    chunk.certain.pin source delimiter cs = chunk := by
  induction chunk with
  | ofText l => rw [certain, pin, l.pin_certain]
  | within l outer ih => simp only [certain, pin, l.pin_certain, ih]

/-! ## What an index, a level and a chunk may be pinned to -/

/-- An index keeps its place; `any` becomes a number that counts, or one if nothing counts. -/
def Index.PinsTo (count : Nat) : Index → Place → Prop
  | .place p, q => q = p
  | .any, q => ∃ n : Nat, q = .at n ∧ 1 ≤ n ∧ n ≤ max 1 count

structure Level.PinsTo (count : Nat) (l : Level Index) (l' : Level Place) : Prop where
  kind_eq : l'.kind = l.kind
  start : l.start.PinsTo count l'.start
  stop : Option.Rel (Index.PinsTo count) l.stop l'.stop

/-- The same chunk with every `any` pinned, each level inside the text that the pinned chunk around
it has. -/
inductive PinsTo (delimiter cs : List Char) : Chunk Index → Chunk Place → Prop
  | ofText {l : Level Index} {l' : Level Place} :
      l.PinsTo (count l.kind delimiter cs) l' → PinsTo delimiter cs (.ofText l) (.ofText l')
  | within {l : Level Index} {l' : Level Place} {outer : Chunk Index} {outer' : Chunk Place} :
      PinsTo delimiter cs outer outer' →
      l.PinsTo (count l.kind delimiter (outer'.get delimiter cs)) l' →
      PinsTo delimiter cs (.within l outer) (.within l' outer')

/-! ## Whatever the draws -/

theorem Index.pinsTo_pin (i : Index) (source : Draws) (count : Nat) :
    i.PinsTo count (i.pin source count) := by
  cases i with
  | place p => rfl
  | any =>
    have hle := source.pick_le count
    refine ⟨max (source.pick count) 1, ?_, by omega, by omega⟩
    exact congrArg Place.at (by omega)

theorem Level.pinsTo_pin (l : Level Index) (source : Draws) (count : Nat) :
    l.PinsTo count (l.pin source count) where
  kind_eq := rfl
  start := l.start.pinsTo_pin source count
  stop := by
    rw [pin]
    cases l.stop with
    | none => exact .none
    | some stop => exact .some (stop.pinsTo_pin _ count)

theorem pinsTo_pin (chunk : Chunk Index) (source : Draws) (delimiter cs : List Char) :
    chunk.PinsTo delimiter cs (chunk.pin source delimiter cs) := by
  induction chunk with
  | ofText l => exact .ofText (l.pinsTo_pin ..)
  | within l outer ih => exact .within ih (l.pinsTo_pin ..)

/-! ## Some draws for each outcome -/

theorem Index.PinsTo.exists_numbers {count : Nat} {i : Index} {p : Place} (h : i.PinsTo count p) :
    ∃ numbers : List Nat, numbers.length = i.draws ∧
      ∀ source : Draws, source.Yields numbers → i.pin source count = p := by
  cases i with
  | place q => exact ⟨[], rfl, fun _ _ => h.symm⟩
  | any =>
    obtain ⟨n, rfl, hone, hle⟩ := h
    refine ⟨[n - 1], rfl, fun source hsource => ?_⟩
    have hpick := Draws.pick_of_yields hsource hone hle
    exact congrArg Place.at (by omega)

theorem Level.PinsTo.exists_numbers {count : Nat} {l : Level Index} {l' : Level Place}
    (h : l.PinsTo count l') :
    ∃ numbers : List Nat, numbers.length = l.draws ∧
      ∀ source : Draws, source.Yields numbers → l.pin source count = l' := by
  obtain ⟨kind, start, stop⟩ := l
  obtain ⟨kind', start', stop'⟩ := l'
  obtain ⟨rfl, hstart, hstop⟩ := h
  obtain ⟨numbers, hlength, hpin⟩ := Index.PinsTo.exists_numbers hstart
  cases hstop with
  | none =>
    refine ⟨numbers, hlength, fun source hsource => ?_⟩
    rw [pin, hpin source hsource]
    rfl
  | some hstop =>
    obtain ⟨more, hmore, hpinStop⟩ := Index.PinsTo.exists_numbers hstop
    refine ⟨numbers ++ more, by simp [hlength, hmore, draws], fun source hsource => ?_⟩
    have hskip := hsource.right
    rw [hlength] at hskip
    rw [pin, hpin source hsource.left, Option.map_some, hpinStop _ hskip]

theorem PinsTo.exists_numbers {delimiter cs : List Char} {chunk : Chunk Index} {p : Chunk Place}
    (h : chunk.PinsTo delimiter cs p) :
    ∃ numbers : List Nat, numbers.length = chunk.draws ∧
      ∀ source : Draws, source.Yields numbers → chunk.pin source delimiter cs = p := by
  induction h with
  | ofText hl =>
    obtain ⟨numbers, hlength, hpin⟩ := hl.exists_numbers
    exact ⟨numbers, hlength, fun source hsource => by rw [pin, hpin source hsource]⟩
  | within _ hl ih =>
    obtain ⟨numbers, hlength, hpin⟩ := ih
    obtain ⟨more, hmore, hpinLevel⟩ := hl.exists_numbers
    refine ⟨numbers ++ more, by simp [hlength, hmore, draws], fun source hsource => ?_⟩
    have hskip := hsource.right
    rw [hlength] at hskip
    simp only [pin, hpin source hsource.left, hpinLevel _ hskip]

/-- Every outcome comes about for some draws. -/
theorem PinsTo.exists_pin {delimiter cs : List Char} {chunk : Chunk Index} {p : Chunk Place}
    (h : chunk.PinsTo delimiter cs p) : ∃ source, chunk.pin source delimiter cs = p := by
  obtain ⟨numbers, -, hpin⟩ := h.exists_numbers
  obtain ⟨source, hsource⟩ := Draws.exists_yields numbers
  exact ⟨source, hpin source hsource⟩

/-- **Pinning settles every index.** What a chunk is pinned to, as the draws vary, are exactly the
chunks that differ from it in having a number for every `any`, from one to the count of that kind
in the text of the pinned chunk around it (or one, if nothing counts there). Whatever the draws,
nothing in the pinned chunk is left to chance, pinning it again changes nothing, and writing back
what is read through it leaves the text alone. -/
theorem pin_settles (chunk : Chunk Index) (delimiter text : List Char) :
    (∀ p, (∃ source, chunk.pin source delimiter text = p) ↔ chunk.PinsTo delimiter text p) ∧
    ∀ source,
      let pinned := chunk.pin source delimiter text
      pinned.certain.settled? = some pinned ∧
      (∀ again, pinned.certain.pin again delimiter text = pinned) ∧
      pinned.put delimiter text .into (pinned.get delimiter text) = .ok text := by
  constructor
  · intro p
    constructor
    · rintro ⟨source, rfl⟩
      exact chunk.pinsTo_pin source delimiter text
    · exact PinsTo.exists_pin
  · intro source pinned
    exact ⟨settled?_eq_some_iff.2 rfl, fun again => pinned.pin_certain again delimiter text,
      pinned.put_get delimiter text⟩

end Chunk

end CardScript
