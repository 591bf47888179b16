import CardScript.World.Desktop
import Mathlib.Data.List.Infix
import Mathlib.Data.List.Nodup

/-!
# The history of a desktop

Opening a stack, going to a card and going back are the moves on a desktop. Every move keeps it in
order (`Desktop.InOrder`): the open stacks are distinct, they include those of the location and of
the history, and the focus is where the stack of the location lies among them. The focus is
therefore settled by the location, so going somewhere and coming back restores it too, although
stacks may have been opened on the way (`Desktop.InOrder.goBackTimes`).
-/

namespace CardScript

/-- A move on the desktop. A stack is opened at whichever card is the current one. -/
inductive Move where
  | openStack (stack : Nat) (card : PartId)
  | navigate (destination : Destination)
  | goBack

namespace Move

/-- The stack a move is to. Going back names none. -/
def stack? : Move → Option Nat
  | openStack stack _ => some stack
  | navigate destination => some destination.stack
  | goBack => none

/-- The destination that is navigated to. -/
def destination? : Move → Option Destination
  | navigate destination => some destination
  | _ => none

end Move

namespace Desktop

def move (d : Desktop) : Move → Desktop
  | .openStack stack card => d.openStack stack card
  | .navigate destination => d.navigate destination
  | .goBack => d.goBack.2

/-- The desktop after some moves. -/
def after (d : Desktop) (moves : List Move) : Desktop :=
  moves.foldl move d

/-- Goes back a number of times: what was answered, and the desktop then. -/
def goBackTimes : Nat → Desktop → List (Option Destination) × Desktop
  | 0, d => ([], d)
  | n + 1, d =>
    let (answer, d) := d.goBack
    let (answers, d) := goBackTimes n d
    (answer :: answers, d)

variable {d : Desktop} {stack : Nat}

/-! ## The focus -/

theorem opened_focus (d : Desktop) (stack : Nat) :
    (d.focus stack).opened = if stack ∈ d.opened then d.opened else d.opened ++ [stack] := by
  unfold focus
  split
  next i hi =>
    have hmem : stack ∈ d.opened := by
      obtain ⟨hlt, hget, -⟩ := List.findIdx?_eq_some_iff_getElem.1 hi
      exact eq_of_beq hget ▸ List.getElem_mem hlt
    rw [if_pos hmem]
  next hnone =>
    have hmem : stack ∉ d.opened := by
      intro hmem
      simpa using List.findIdx?_eq_none_iff.1 hnone stack hmem
    rw [if_neg hmem]

/-- The stack with the focus is found at its first place among the open ones. -/
theorem focused_focus (d : Desktop) (stack : Nat) :
    (d.focus stack).focused = some ((d.focus stack).opened.idxOf stack) := by
  unfold focus
  split
  next i hi =>
    obtain ⟨-, hi⟩ := List.findIdx?_eq_some_iff_findIdx_eq.1 hi
    rw [List.idxOf, hi]
  next hnone =>
    have hmem : stack ∉ d.opened := by
      intro hmem
      simpa using List.findIdx?_eq_none_iff.1 hnone stack hmem
    rw [List.idxOf_append_of_notMem hmem, List.idxOf_cons_self, Nat.add_zero]

@[simp] theorem history_focus (d : Desktop) (stack : Nat) :
    (d.focus stack).history = d.history := by
  unfold focus
  split <;> rfl

@[simp] theorem navigations_focus (d : Desktop) (stack : Nat) :
    (d.focus stack).navigations = d.navigations := by
  unfold focus
  split <;> rfl

theorem opened_prefix_focus (d : Desktop) (stack : Nat) : d.opened <+: (d.focus stack).opened := by
  rw [opened_focus]
  split
  · exact List.prefix_refl _
  · exact List.prefix_append ..

theorem mem_opened_focus {other : Nat} :
    other ∈ (d.focus stack).opened ↔ other ∈ d.opened ∨ other = stack := by
  rw [opened_focus]
  split
  next hmem =>
    constructor
    · exact Or.inl
    · rintro (h | rfl)
      · exact h
      · exact hmem
  next => simp

theorem goBack_of_nil (h : d.history = []) : d.goBack = (none, d) := by
  rw [goBack, h]

theorem goBack_of_cons {previous : Destination} {rest : List Destination}
    (h : d.history = previous :: rest) :
    d.goBack = (some previous,
      { d.focus previous.stack with location := some previous, history := rest }) := by
  rw [goBack, h]

/-! ## Desktops in order -/

/-- The open stacks are distinct and include all those one is at or can go back to, and the focus
is on the stack one is at. -/
structure InOrder (d : Desktop) : Prop where
  opened_nodup : d.opened.Nodup
  location_mem : ∀ place ∈ d.location, place.stack ∈ d.opened
  history_mem : ∀ place ∈ d.history, place.stack ∈ d.opened
  focused_eq : d.focused = d.location.map fun place => d.opened.idxOf place.stack

namespace InOrder

theorem new : InOrder {} := by
  constructor
  · exact List.nodup_nil
  · intro place hplace
    cases hplace
  · intro place hplace
    cases hplace
  · rfl

/-- Wherever one comes to, with the focus on the stack of that place, all is in order. -/
theorem arrive (h : d.InOrder) (place : Destination) {history : List Destination}
    (hhistory : ∀ earlier ∈ history, earlier ∈ d.location ∨ earlier ∈ d.history)
    (navigations : List Destination) :
    ({ d.focus place.stack with location := some place, history, navigations } :
      Desktop).InOrder := by
  constructor
  · show (d.focus place.stack).opened.Nodup
    rw [opened_focus]
    split
    · exact h.opened_nodup
    next hmem => exact List.nodup_append_comm.1 (List.nodup_cons.2 ⟨hmem, h.opened_nodup⟩)
  · intro there hthere
    cases hthere
    exact mem_opened_focus.2 (.inr rfl)
  · intro earlier hearlier
    rcases hhistory earlier hearlier with hmem | hmem
    · exact mem_opened_focus.2 (.inl (h.location_mem earlier hmem))
    · exact mem_opened_focus.2 (.inl (h.history_mem earlier hmem))
  · exact d.focused_focus place.stack

theorem openStack (h : d.InOrder) (stack : Nat) (card : PartId) :
    (d.openStack stack card).InOrder := by
  apply h.arrive { stack, card }
  intro earlier hearlier
  rw [history_focus] at hearlier
  exact .inr hearlier

theorem navigate (h : d.InOrder) (destination : Destination) :
    (d.navigate destination).InOrder := by
  apply h.arrive destination
  intro earlier hearlier
  split at hearlier
  next previous hprevious =>
    rcases List.mem_cons.1 hearlier with rfl | hmem
    · exact .inl hprevious
    · exact .inr hmem
  next => exact .inr hearlier

theorem goBack (h : d.InOrder) : d.goBack.2.InOrder := by
  cases hhistory : d.history with
  | nil =>
    rw [goBack_of_nil hhistory]
    exact h
  | cons previous rest =>
    rw [goBack_of_cons hhistory]
    apply h.arrive previous
    intro earlier hearlier
    rw [hhistory]
    exact .inr (List.mem_cons_of_mem _ hearlier)

theorem move (h : d.InOrder) (m : Move) : (d.move m).InOrder := by
  cases m with
  | openStack stack card => exact h.openStack stack card
  | navigate destination => exact h.navigate destination
  | goBack => exact h.goBack

theorem after (h : d.InOrder) (moves : List Move) : (d.after moves).InOrder := by
  induction moves generalizing d with
  | nil => exact h
  | cons m moves ih => exact ih (h.move m)

/-- The focus is a place among the open stacks, that of the stack one is at. -/
theorem getElem?_focused (h : d.InOrder) {place : Destination} (hplace : d.location = some place) :
    ∃ i, d.focused = some i ∧ d.opened[i]? = some place.stack := by
  have hmem := h.location_mem place hplace
  refine ⟨d.opened.idxOf place.stack, ?_, ?_⟩
  · rw [h.focused_eq, hplace]
    rfl
  · rw [List.getElem?_eq_getElem (List.idxOf_lt_length_of_mem hmem), List.getElem_idxOf]

theorem focused_lt (h : d.InOrder) {i : Nat} (hi : d.focused = some i) : i < d.opened.length := by
  rw [h.focused_eq] at hi
  obtain ⟨place, hplace, rfl⟩ := Option.map_eq_some_iff.1 hi
  exact List.idxOf_lt_length_of_mem (h.location_mem place hplace)

/-- Whoever is back at a place has the focus back that was there, however many stacks were opened
meanwhile. -/
theorem focused_eq_of_grown {d' : Desktop} (h : d.InOrder) (h' : d'.InOrder)
    (hgrown : d.opened <+: d'.opened) (hlocation : d'.location = d.location) :
    d'.focused = d.focused := by
  rw [h.focused_eq, h'.focused_eq, hlocation]
  cases hplace : d.location with
  | none => rfl
  | some place =>
    obtain ⟨added, hadded⟩ := hgrown
    rw [Option.map_some, Option.map_some, ← hadded,
      List.idxOf_append_of_mem (h.location_mem place hplace)]

end InOrder

/-! ## The open stacks -/

theorem opened_prefix_move (d : Desktop) (m : Move) : d.opened <+: (d.move m).opened := by
  cases m with
  | openStack stack card => exact d.opened_prefix_focus stack
  | navigate destination => exact d.opened_prefix_focus destination.stack
  | goBack =>
    rw [move]
    cases hhistory : d.history with
    | nil => rw [goBack_of_nil hhistory]
    | cons previous rest =>
      rw [goBack_of_cons hhistory]
      exact d.opened_prefix_focus previous.stack

theorem opened_prefix_after (d : Desktop) (moves : List Move) :
    d.opened <+: (d.after moves).opened := by
  induction moves generalizing d with
  | nil => exact List.prefix_refl _
  | cons m moves ih => exact (d.opened_prefix_move m).trans (ih (d.move m))

/-- Going back opens no stack: those one can go back to are open. -/
theorem InOrder.opened_goBack (h : d.InOrder) : d.goBack.2.opened = d.opened := by
  cases hhistory : d.history with
  | nil => rw [goBack_of_nil hhistory]
  | cons previous rest =>
    have hmem : previous.stack ∈ d.opened :=
      h.history_mem previous (hhistory ▸ List.mem_cons_self)
    rw [goBack_of_cons hhistory]
    show (d.focus previous.stack).opened = d.opened
    rw [opened_focus, if_pos hmem]

theorem InOrder.mem_opened_move (h : d.InOrder) (m : Move) :
    stack ∈ (d.move m).opened ↔ stack ∈ d.opened ∨ m.stack? = some stack := by
  cases m with
  | openStack other card =>
    rw [Move.stack?, Option.some.injEq, eq_comm (a := other)]
    exact mem_opened_focus
  | navigate destination =>
    rw [Move.stack?, Option.some.injEq, eq_comm (a := destination.stack)]
    exact mem_opened_focus
  | goBack =>
    rw [Desktop.move, h.opened_goBack]
    simp [Move.stack?]

/-- A stack is open if it was before or some move was to it. -/
theorem InOrder.mem_opened_after (h : d.InOrder) (moves : List Move) :
    stack ∈ (d.after moves).opened ↔
      stack ∈ d.opened ∨ ∃ m ∈ moves, m.stack? = some stack := by
  induction moves generalizing d with
  | nil => simp [Desktop.after]
  | cons m moves ih =>
    rw [Desktop.after, List.foldl_cons, ← Desktop.after, ih (h.move m), h.mem_opened_move m,
      List.exists_mem_cons_iff, or_assoc]

/-! ## The log -/

theorem navigations_move (d : Desktop) (m : Move) :
    (d.move m).navigations = d.navigations ++ m.destination?.toList := by
  cases m with
  | openStack stack card => simp [move, openStack, Move.destination?]
  | navigate destination => rfl
  | goBack =>
    show d.goBack.2.navigations = d.navigations ++ []
    rw [List.append_nil]
    cases hhistory : d.history with
    | nil => rw [goBack_of_nil hhistory]
    | cons previous rest =>
      rw [goBack_of_cons hhistory]
      exact d.navigations_focus previous.stack

theorem navigations_after (d : Desktop) (moves : List Move) :
    (d.after moves).navigations = d.navigations ++ moves.filterMap Move.destination? := by
  induction moves generalizing d with
  | nil => simp [after]
  | cons m moves ih =>
    rw [after, List.foldl_cons, ← after, ih, navigations_move, List.append_assoc]
    congr 1
    cases h : m.destination? with
    | none => simp [List.filterMap_cons_none h]
    | some destination => simp [List.filterMap_cons_some h]

/-! ## Going and coming back -/

/-- Who goes from place to place leaves them all behind but the last. -/
theorem after_navigations {origin : Destination} (hd : d.location = some origin)
    (places : List Destination) :
    (d.after (places.map .navigate)).location = (origin :: places).getLast? ∧
      (d.after (places.map .navigate)).history =
        (origin :: places).dropLast.reverse ++ d.history := by
  induction places generalizing d origin with
  | nil => exact ⟨hd, rfl⟩
  | cons place places ih =>
    have hstep : (d.navigate place).history = origin :: d.history := by
      simp only [navigate, hd]
    obtain ⟨hlocation, hhistory⟩ := ih (d := d.navigate place) rfl
    constructor
    · rw [List.getLast?_cons_cons]
      exact hlocation
    · rw [List.dropLast_cons_cons, List.reverse_cons, List.append_assoc, List.singleton_append,
        ← hstep]
      exact hhistory

/-- Going back takes the latest places of the history, in order, and leaves the rest. -/
theorem InOrder.goBackTimes (h : d.InOrder) {places rest : List Destination}
    (hhistory : d.history = places ++ rest) :
    (Desktop.goBackTimes places.length d).1 = places.map some ∧
      (Desktop.goBackTimes places.length d).2.location = places.getLast?.or d.location ∧
      (Desktop.goBackTimes places.length d).2.history = rest ∧
      (Desktop.goBackTimes places.length d).2.opened = d.opened ∧
      (Desktop.goBackTimes places.length d).2.InOrder := by
  induction places generalizing d with
  | nil => exact ⟨rfl, rfl, hhistory, rfl, h⟩
  | cons place places ih =>
    have hback := goBack_of_cons hhistory
    obtain ⟨hanswers, hlocation, hrest, hopened, horder⟩ := ih h.goBack (by rw [hback]; rfl)
    rw [List.length_cons, Desktop.goBackTimes]
    refine ⟨?_, ?_, hrest, hopened.trans h.opened_goBack, horder⟩
    · rw [List.map_cons, ← hanswers, hback]
    · rw [hlocation, hback]
      cases places with
      | nil => rfl
      | cons next places =>
        rw [List.getLast?_cons_cons, List.getLast?_cons, Option.some_or, Option.some_or]

/-- Going to places one after another and then back as often answers with where one was before each
of them, the latest first, and leaves one where one was. -/
theorem InOrder.retrace (h : d.InOrder) {origin : Destination} (hd : d.location = some origin)
    (places : List Destination) {d' : Desktop} {answers : List (Option Destination)}
    (hd' : Desktop.goBackTimes places.length (d.after (places.map .navigate)) = (answers, d')) :
    answers = (origin :: places).dropLast.reverse.map some ∧
      d'.location = d.location ∧ d'.history = d.history ∧ d'.focused = d.focused := by
  obtain ⟨hlocation, hhistory⟩ := after_navigations hd places
  have hlength : (origin :: places).dropLast.reverse.length = places.length := by simp
  obtain ⟨hanswers, hback, hrest, hopened, horder⟩ := (h.after _).goBackTimes hhistory
  rw [hlength, hd'] at hanswers hback hrest hopened horder
  have hsame : d'.location = d.location := by
    rw [hback, hlocation, hd]
    cases places with
    | nil => rfl
    | cons place places => simp
  have hgrown : d.opened <+: d'.opened := by
    rw [hopened]
    exact d.opened_prefix_after _
  exact ⟨hanswers, hsame, hrest, h.focused_eq_of_grown horder hgrown hsame⟩

/-- **The history of a desktop is a stack.** Whatever the moves on a new desktop, the open stacks
are distinct, they are those some move was to, and they stay open and keep their places; the focus
is a place among them, and the stack of the location is there; and the log holds the destinations
navigated to, in order. Wherever one is then, going to places one after another and back as often
answers with the places in between and in the end with the first one, and restores the location,
the history and the focus. -/
theorem history_is_stack (moves : List Move) :
    let d := after {} moves
    d.opened.Nodup ∧
    (∀ stack, stack ∈ d.opened ↔ ∃ m ∈ moves, m.stack? = some stack) ∧
    (∀ later, d.opened <+: (d.after later).opened) ∧
    (∀ i, d.focused = some i → i < d.opened.length) ∧
    (∀ place, d.location = some place →
      ∃ i, d.focused = some i ∧ d.opened[i]? = some place.stack) ∧
    d.navigations = moves.filterMap Move.destination? ∧
    ∀ (origin : Destination) (places : List Destination), d.location = some origin →
      ∃ d' : Desktop,
        goBackTimes places.length (d.after (places.map .navigate)) =
          ((origin :: places).dropLast.reverse.map some, d') ∧
        d'.location = d.location ∧ d'.history = d.history ∧ d'.focused = d.focused := by
  intro d
  have horder : d.InOrder := InOrder.new.after moves
  refine ⟨horder.opened_nodup, ?_, d.opened_prefix_after, ?_, ?_, ?_, ?_⟩
  · intro stack
    rw [InOrder.new.mem_opened_after moves]
    simp
  · intro i hi
    exact horder.focused_lt hi
  · intro place hplace
    exact horder.getElem?_focused hplace
  · rw [navigations_after]
    rfl
  · intro origin places horigin
    obtain ⟨hanswers, hrestored⟩ := horder.retrace horigin places rfl
    exact ⟨_, by rw [← hanswers], hrestored⟩

/-- From the second of two stacks to a third one and through the first, and back again. -/
theorem history_is_stack_threeStacks :
    let d := after {} [.openStack 0 103, .navigate ⟨1, 205, none⟩, .goBack,
      .navigate ⟨1, 206, some "dissolve"⟩]
    d.location = some ⟨1, 206, some "dissolve"⟩ ∧ d.opened = [0, 1] ∧ d.focused = some 1 ∧
    ∃ d' : Desktop,
      goBackTimes 2 (d.after [.navigate ⟨2, 300, none⟩, .navigate ⟨0, 103, none⟩]) =
        ([some ⟨2, 300, none⟩, some ⟨1, 206, some "dissolve"⟩], d') ∧
      d'.location = d.location ∧ d'.focused = some 1 := by
  intro d
  obtain ⟨-, -, -, -, -, -, hback⟩ := history_is_stack [.openStack 0 103,
    .navigate ⟨1, 205, none⟩, .goBack, .navigate ⟨1, 206, some "dissolve"⟩]
  obtain ⟨d', hd', hlocation, -, hfocused⟩ :=
    hback ⟨1, 206, some "dissolve"⟩ [⟨2, 300, none⟩, ⟨0, 103, none⟩] rfl
  exact ⟨rfl, rfl, rfl, d', hd', hlocation, hfocused⟩

end Desktop

end CardScript
