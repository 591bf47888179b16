import CardScript.Proofs.Part.Numbering

/-!
# Relative addresses

The next and the previous card are the neighbours of the current one in the row of cards. The next
and the previous background are those of the nearest cards on another background, so they go by
runs of cards, however often a background comes up again (`Scope.find_background_position`). Both
are said for the two directions at once, by the number of steps between cards (`Position.Steps`).
Steps in one direction are undone by steps in the other; the way to another background is undone
but for the rest of the run in which it began (`Stack.FirstElsewhere.opposite`).
-/

namespace CardScript

namespace Position

/-- The other direction. -/
def opposite : Position → Position
  | next => prev
  | prev => next
  | this => this

/-- So many steps from index `i` lead to index `j`. -/
def Steps : Position → (n i j : Nat) → Prop
  | next, n, i, j => i + n = j
  | prev, n, i, j => j + n = i
  | this, _, i, j => i = j

variable {p : Position} {m n i j k : Nat}

theorem opposite_opposite (p : Position) : p.opposite.opposite = p := by
  cases p with
  | next | prev | this => rfl

theorem opposite_ne_this (h : p ≠ this) : p.opposite ≠ this := by
  cases p with
  | next | prev => nofun
  | this => exact h

theorem steps_opposite : p.opposite.Steps n j i ↔ p.Steps n i j := by
  cases p with
  | next | prev => exact Iff.rfl
  | this => exact eq_comm

theorem steps_zero : p.Steps 0 i j ↔ i = j := by
  cases p with
  | next | this => exact Iff.rfl
  | prev => exact eq_comm

/-- The last step comes from a place between. -/
theorem Steps.exists_last (h : p.Steps (n + 1) i j) : ∃ k, p.Steps n i k ∧ p.Steps 1 k j := by
  cases p with
  | next => exact ⟨i + n, rfl, h⟩
  | prev => exact ⟨j + 1, by simp only [Steps] at h ⊢; omega, rfl⟩
  | this => exact ⟨i, rfl, h⟩

/-- A place between is in a row if both ends are. -/
theorem Steps.lt_of_lt {length : Nat} (h : p.Steps n i k) (hlast : p.Steps 1 k j)
    (hi : i < length) (hj : j < length) : k < length := by
  cases p with
  | next | prev | this =>
    simp only [Steps] at h hlast
    omega

end Position

namespace Scope

open Finding

variable {s : Stack} {c d : Card} {p : Position} {i : Nat} {f : Found}
  {describe : Handle → String} {draws : Draws}

/-! ## Cards -/

theorem relativeCard?_eq_some_iff :
    relativeCard? s i p = some d ↔ ∃ j, p.Steps 1 i j ∧ s.cards[j]? = some d := by
  cases p with
  | next | this => simp [relativeCard?, Position.Steps]
  | prev =>
    rw [relativeCard?]
    cases i with
    | zero => simp [Position.Steps]
    | succ i => simp [Position.Steps]

theorem currentIndex_eq (hs : s.Orderly) (hi : s.cards[i]? = some c) :
    currentIndex s c.id = .ok i := by
  have hindex : s.cardIndex? c.id = some i := findIdx?_of_getElem? hs.cards_nodup hi
  simp only [currentIndex, hindex]

/-- The card one step away, if there is one. -/
theorem find_card_position (hs : s.Orderly) (hi : s.cards[i]? = some c) :
    find s describe draws (.stack c.id) (.position .card p) = .ok f ↔
      ∃ j d, p.Steps 1 i j ∧ s.cards[j]? = some d ∧ f = .ofCard d.id := by
  have hfind : find s describe draws (.stack c.id) (.position .card p) = .ok f ↔
      ∃ d, relativeCard? s i p = some d ∧ f = .ofCard d.id := by
    simp only [find, findInStack, Specifier.type, findCard, currentIndex_eq hs hi, bind,
      Except.bind, pure, Except.pure]
    cases relativeCard? s i p with
    | some d => simp [eq_comm]
    | none => simp [throw, throwThe, MonadExceptOf.throw]
  rw [hfind]
  constructor
  · rintro ⟨d, hd, hf⟩
    obtain ⟨j, hstep, hj⟩ := relativeCard?_eq_some_iff.1 hd
    exact ⟨j, d, hstep, hj, hf⟩
  · rintro ⟨j, d, hstep, hj, hf⟩
    exact ⟨d, relativeCard?_eq_some_iff.2 ⟨j, hstep, hj⟩, hf⟩

/-- A step that leads to a card is undone by a step in the other direction. -/
theorem find_card_opposite (hs : s.Orderly) (hc : c ∈ s.cards) (hd : d ∈ s.cards)
    (h : find s describe draws (.stack c.id) (.position .card p) = .ok (.ofCard d.id)) :
    find s describe draws (.stack d.id) (.position .card p.opposite) = .ok (.ofCard c.id) := by
  obtain ⟨i, hi⟩ := List.mem_iff_getElem?.1 hc
  obtain ⟨j, e, hstep, hj, hid⟩ := (find_card_position hs hi).1 h
  have hsame : e = d := by
    injection hid with hid
    injection hid with hid
    exact hs.card_eq_of_id_eq (List.mem_of_getElem? hj) hd hid.symm
  rw [hsame] at hj
  exact (find_card_position hs hj).2 ⟨i, c, Position.steps_opposite.2 hstep, hi, rfl⟩

end Scope

/-! ## Backgrounds -/

/-- In a direction from index `i`, the first card that does not lie on the background `here` is `d`,
after `n` steps at index `j`. -/
structure Stack.FirstElsewhere (s : Stack) (p : Position) (here : PartId) (i n j : Nat)
    (d : Card) : Prop where
  steps : p.Steps n i j
  there : s.cards[j]? = some d
  other : d.background ≠ here
  before : ∀ m k e, m < n → p.Steps m i k → s.cards[k]? = some e → e.background = here

namespace Stack

variable {s : Stack} {c d : Card} {p : Position} {here : PartId} {i n j : Nat}

/-- There is a first card elsewhere if there is any. -/
theorem exists_firstElsewhere_iff :
    (∃ n j d, s.FirstElsewhere p here i n j d) ↔
      ∃ n j d, p.Steps n i j ∧ s.cards[j]? = some d ∧ d.background ≠ here := by
  constructor
  · rintro ⟨n, j, d, h⟩
    exact ⟨n, j, d, h.steps, h.there, h.other⟩
  · rintro ⟨n, j, d, hsteps, hj, hother⟩
    induction n using Nat.strongRecOn generalizing j d with
    | ind n ih =>
      by_cases hbefore : ∀ m k e, m < n → p.Steps m i k → s.cards[k]? = some e →
          e.background = here
      · exact ⟨n, j, d, hsteps, hj, hother, hbefore⟩
      · simp only [Classical.not_forall] at hbefore
        obtain ⟨m, k, e, hm, hk, he, helsewhere⟩ := hbefore
        exact ih m hm k e hk he helsewhere

/-- Seen from the first card elsewhere, the card before it is the first elsewhere. -/
theorem FirstElsewhere.opposite (hi : s.cards[i]? = some c)
    (h : s.FirstElsewhere p c.background i n j d) :
    ∃ k e, p.Steps 1 k j ∧ e.background = c.background ∧
      s.FirstElsewhere p.opposite d.background j 1 k e := by
  cases n with
  | zero =>
    have hj := h.there
    rw [← Position.steps_zero.1 h.steps, hi] at hj
    cases hj
    exact absurd rfl h.other
  | succ n =>
    obtain ⟨k, hsteps, hlast⟩ := h.steps.exists_last
    obtain ⟨hilt, -⟩ := List.getElem?_eq_some_iff.1 hi
    obtain ⟨hjlt, -⟩ := List.getElem?_eq_some_iff.1 h.there
    have hk := List.getElem?_eq_getElem (hsteps.lt_of_lt hlast hilt hjlt)
    have hon := h.before n k _ (Nat.lt_succ_self n) hsteps hk
    refine ⟨k, _, hlast, hon, Position.steps_opposite.2 hlast, hk, ?_, fun m l e hm hl he => ?_⟩
    · rw [hon]
      exact h.other.symm
    · obtain rfl : m = 0 := by omega
      rw [← Position.steps_zero.1 hl, h.there] at he
      cases he
      rfl

end Stack

namespace Scope

open Finding

variable {s : Stack} {c d : Card} {p : Position} {i : Nat} {f : Found}
  {describe : Handle → String} {draws : Draws}

theorem relativeBackground?_eq_some_iff {here : PartId} (hp : p ≠ .this)
    (hi : i < s.cards.length) :
    relativeBackground? s i here p = some d ↔
      ∃ n j, s.FirstElsewhere p here i n j d := by
  have hrow {row : List Card}
      (h : ∀ n e, row[n]? = some e ↔ ∃ j, p.Steps n i j ∧ s.cards[j]? = some e) :
      row.find? (·.background != here) = some d ↔
        ∃ n j, s.FirstElsewhere p here i n j d := by
    simp only [find?_eq_some_iff, h, bne_iff_ne, bne_eq_false_iff_eq]
    constructor
    · rintro ⟨n, ⟨j, hsteps, hj⟩, hother, hbefore⟩
      exact ⟨n, j, hsteps, hj, hother, fun m k e hm hk he => hbefore m e hm ⟨k, hk, he⟩⟩
    · rintro ⟨n, j, ⟨hsteps, hj, hother, hbefore⟩⟩
      exact ⟨n, ⟨j, hsteps, hj⟩, hother, fun m e hm ⟨k, hk, he⟩ => hbefore m k e hm hk he⟩
  cases p with
  | next => exact hrow fun n e => by simp [Position.Steps]
  | prev =>
    refine hrow fun n e => ?_
    have hlength : (s.cards.take (i + 1)).length = i + 1 := by
      rw [List.length_take]
      omega
    by_cases hn : n < i + 1
    · rw [List.getElem?_reverse (by omega), hlength, List.getElem?_take_of_lt (by omega)]
      constructor
      · intro h
        exact ⟨_, by simp only [Position.Steps]; omega, h⟩
      · rintro ⟨j, hsteps, hj⟩
        simp only [Position.Steps] at hsteps
        rwa [show i + 1 - 1 - n = j by omega]
    · rw [List.getElem?_eq_none (by rw [List.length_reverse]; omega)]
      refine ⟨nofun, ?_⟩
      rintro ⟨j, hsteps, -⟩
      simp only [Position.Steps] at hsteps
      omega
  | this => exact absurd rfl hp

/-- The background of the first card elsewhere, seen through that card. -/
theorem find_background_position (hs : s.Orderly) (hp : p ≠ .this) (hi : s.cards[i]? = some c) :
    find s describe draws (.stack c.id) (.position .background p) = .ok f ↔
      ∃ n j d, s.FirstElsewhere p c.background i n j d ∧
        f = ⟨.background d.background, some d.id⟩ := by
  have hfind : find s describe draws (.stack c.id) (.position .background p) = .ok f ↔
      ∃ d, relativeBackground? s i c.background p = some d ∧
        f = ⟨.background d.background, some d.id⟩ := by
    simp only [find, findInStack, Specifier.type, findBackground, currentIndex_eq hs hi, hi,
      Option.map_some, Option.getD_some, bind, Except.bind]
    cases relativeBackground? s i c.background p with
    | some d => simp [eq_comm, pure, Except.pure]
    | none => simp [throw, throwThe, MonadExceptOf.throw]
  obtain ⟨hlt, -⟩ := List.getElem?_eq_some_iff.1 hi
  rw [hfind]
  constructor
  · rintro ⟨d, hd, hf⟩
    obtain ⟨n, j, hfirst⟩ := (relativeBackground?_eq_some_iff hp hlt).1 hd
    exact ⟨n, j, d, hfirst, hf⟩
  · rintro ⟨n, j, d, hfirst, hf⟩
    exact ⟨d, (relativeBackground?_eq_some_iff hp hlt).2 ⟨n, j, hfirst⟩, hf⟩

end Scope

/-! ## Both directions -/

namespace Stack

open Scope

variable {s : Stack} {c : Card} {p : Position} {i : Nat}

/-- In both directions, another background is found exactly if some card there lies on one, and is
that of the first such card; the way back leads to the card before it, on the background one came
from. The card in a direction is the neighbour, so that none follows the last card and none comes
before the first, and the way back leads to where one was. -/
theorem relative_positions (hs : s.Reachable) (hi : s.cards[i]? = some c) (hp : p ≠ .this)
    (describe : Handle → String) (draws : Draws) :
    ((∃ f, find s describe draws (.stack c.id) (.position .background p) = .ok f) ↔
      ∃ n j d, p.Steps n i j ∧ s.cards[j]? = some d ∧ d.background ≠ c.background) ∧
    (∀ f, find s describe draws (.stack c.id) (.position .background p) = .ok f →
      ∃ n j d, s.FirstElsewhere p c.background i n j d ∧
        f = ⟨.background d.background, some d.id⟩ ∧
        ∃ k e, p.Steps 1 k j ∧ s.cards[k]? = some e ∧ e.background = c.background ∧
          find s describe draws (.stack d.id) (.position .background p.opposite) =
            .ok ⟨.background c.background, some e.id⟩) ∧
    (∀ f, find s describe draws (.stack c.id) (.position .card p) = .ok f ↔
      ∃ j d, p.Steps 1 i j ∧ s.cards[j]? = some d ∧ f = .ofCard d.id) ∧
    ∀ d ∈ s.cards,
      find s describe draws (.stack c.id) (.position .card p) = .ok (.ofCard d.id) ↔
        find s describe draws (.stack d.id) (.position .card p.opposite) = .ok (.ofCard c.id) := by
  have hs := hs.coherent.toOrderly
  have hc := List.mem_of_getElem? hi
  refine ⟨?_, fun f hf => ?_, fun f => find_card_position hs hi, fun d hd => ⟨?_, fun h => ?_⟩⟩
  · rw [← exists_firstElsewhere_iff]
    constructor
    · rintro ⟨f, hf⟩
      obtain ⟨n, j, d, hfirst, -⟩ := (find_background_position hs hp hi).1 hf
      exact ⟨n, j, d, hfirst⟩
    · rintro ⟨n, j, d, hfirst⟩
      exact ⟨_, (find_background_position hs hp hi).2 ⟨n, j, d, hfirst, rfl⟩⟩
  · obtain ⟨n, j, d, hfirst, hf⟩ := (find_background_position hs hp hi).1 hf
    obtain ⟨k, e, hlast, hon, hback⟩ := hfirst.opposite hi
    refine ⟨n, j, d, hfirst, hf, k, e, hlast, hback.there, hon, ?_⟩
    have hopposite := Position.opposite_ne_this hp
    rw [← hon]
    exact (find_background_position hs hopposite hfirst.there).2 ⟨1, k, e, hback, rfl⟩
  · exact find_card_opposite hs hc hd
  · rw [← p.opposite_opposite]
    exact find_card_opposite hs hd hc h

end Stack

/-- Four cards, of which the third interrupts a run on the first background. -/
def StackSnapshot.threeRuns : StackSnapshot where
  backgrounds := [{}, {}]
  cards := [{}, {}, { background := 1 }, {}]

theorem Stack.relative_positions_threeRuns :
    ∃ s : Stack, s.Reachable ∧ s.cards.map (·.id) = [102, 103, 104, 105] ∧
      Scope.find s (fun _ => "") {} (.stack 102) (.position .background .next) =
        .ok ⟨.background 101, some 104⟩ ∧
      (∃ e ∈ s.cards, Scope.find s (fun _ => "") {} (.stack 104) (.position .background .prev) =
        .ok ⟨.background 100, some e.id⟩) ∧
      ¬∃ f, Scope.find s (fun _ => "") {} (.stack 105) (.position .card .next) = .ok f := by
  obtain ⟨s, c, d, hs, hids, hc, hd, hcid, hdid, hon, hfind⟩ :
      ∃ (s : Stack) (c d : Card), s.Reachable ∧ s.cards.map (·.id) = [102, 103, 104, 105] ∧
        s.cards[0]? = some c ∧ s.cards[3]? = some d ∧ c.id = 102 ∧ d.id = 105 ∧
        c.background = 100 ∧
        Scope.find s (fun _ => "") {} (.stack 102) (.position .background .next) =
          .ok ⟨.background 101, some 104⟩ :=
    ⟨_, _, _, ⟨.threeRuns, _, rfl, .refl⟩, rfl, rfl, rfl, rfl, rfl, rfl, rfl⟩
  obtain ⟨-, hback, -⟩ := relative_positions (p := .next) hs hc nofun (fun _ => "") {}
  obtain ⟨-, -, hcard, -⟩ := relative_positions (p := .next) hs hd nofun (fun _ => "") {}
  refine ⟨s, hs, hids, hfind, ?_, ?_⟩
  · rw [hcid] at hback
    obtain ⟨n, j, e, -, hf, k, e', -, he', -, hprev⟩ := hback _ hfind
    injection hf with hpart hcontext
    injection hcontext with hid
    rw [← hid, hon] at hprev
    exact ⟨e', List.mem_of_getElem? he', hprev⟩
  · rintro ⟨f, hf⟩
    rw [← hdid] at hf
    obtain ⟨j, e, hstep, hj, -⟩ := (hcard f).1 hf
    have hlength : s.cards.length = 4 := by rw [← List.length_map, hids]; rfl
    obtain ⟨hlt, -⟩ := List.getElem?_eq_some_iff.1 hj
    have hstep : 3 + 1 = j := hstep
    omega

end CardScript
