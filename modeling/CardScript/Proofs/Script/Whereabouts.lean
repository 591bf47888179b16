import CardScript.Proofs.Script.Accord

/-!
# Where one is

The desktop keeps a location, and each stack a current card. Scripts move both, one after the
other. Whatever they do, the location is in the stack with the focus (`Machine.Course.focused`).
That it is at the current card of that stack holds as long as nobody goes back and no card is gone
when it is to be shown (`World.Placed.answers`): going back tells the desktop before the card one
leaves is told, and that card may have other plans.
-/

namespace CardScript

variable {α β : Type}

/-! ## The stack with the focus -/

namespace Desktop

variable {d : Desktop}

/-- The location is in the stack with the focus. -/
def Focused (d : Desktop) : Prop :=
  d.location.map (·.stack) = d.focusedStack?

theorem focusedStack?_focus (d : Desktop) (stack : Nat) :
    (d.focus stack).focusedStack? = some stack := by
  unfold focus
  split
  next i hi =>
    obtain ⟨hlength, hget, -⟩ := List.findIdx?_eq_some_iff_getElem.1 hi
    simp only [focusedStack?, Option.bind_some, List.getElem?_eq_getElem hlength]
    exact congrArg some (beq_iff_eq.1 hget)
  next => simp [focusedStack?]

theorem focused_openStack (d : Desktop) (stack : Nat) (card : PartId) :
    (d.openStack stack card).Focused :=
  (d.focusedStack?_focus stack).symm

theorem focused_navigate (d : Desktop) (destination : Destination) :
    (d.navigate destination).Focused :=
  (d.focusedStack?_focus destination.stack).symm

theorem Focused.goBack (h : d.Focused) : d.goBack.2.Focused := by
  unfold Desktop.goBack
  split
  · exact h
  next previous rest _ => exact (d.focusedStack?_focus previous.stack).symm

end Desktop

theorem World.Change.focused {w w' : World} (h : World.Change w w') (hw : w.desktop.Focused) :
    w'.desktop.Focused := by
  cases h with
  | navigate destination => exact Desktop.focused_navigate ..
  | goBack => exact hw.goBack
  | property h =>
    obtain ⟨table, -, rfl, -⟩ := World.setProperty_eq_ok h
    exact hw
  | contents h | partProperty h =>
    obtain ⟨s, -, h⟩ := Failure.bind_eq_ok.1 h
    cases h
    exact hw
  | _ => exact hw

theorem Machine.Course.focused {m m' : Machine} (h : Course e m m')
    (hm : m.world.desktop.Focused) : m'.world.desktop.Focused := by
  induction h with
  | trans _ _ ih₁ ih₂ => exact ih₂ (ih₁ hm)
  | world h => exact h.focused hm
  | call hpush _ ih =>
    obtain ⟨_, _, _, _, _, _, _, _, hworld⟩ := pushFrame_eq_ok hpush
    exact ih (by rw [hworld]; exact hm)
  | send _ ih => exact ih hm
  | _ => exact hm

theorem Machine.Course.length_eq {m m' : Machine} (h : Course e m m') :
    m'.world.allStacks.length = m.world.allStacks.length := by
  induction h with
  | trans _ _ ih₁ ih₂ => exact ih₂.trans ih₁
  | world h => exact h.length_eq
  | call hpush _ ih =>
    obtain ⟨_, _, _, _, _, _, _, _, hworld⟩ := pushFrame_eq_ok hpush
    exact ih.trans (by rw [hworld])
  | send _ ih => exact ih
  | _ => rfl

/-! ## The current card -/

/-- A command other than to go back. -/
def Command.isOnward : Command → Bool
  | .go none => false
  | _ => true

namespace World

/-- The location is at the current card of its stack, there are only stacks of the world on the
desktop, and no script goes back. -/
structure Placed (w : World) : Prop where
  current : ∀ place ∈ w.desktop.location, (w.stack place.stack).currentCard = place.card
  within : w.desktop.Within (· < w.allStacks.length)
  scripts : ∀ n, (w.stack n).Scripted fun script => script.every Command.isOnward

theorem lt_of_card? {w : World} {id : PartId} (h : ((w.stack number).card? id).isSome) :
    number < w.allStacks.length := by
  by_contra hlength
  rw [stack, List.getElem?_eq_none (Nat.not_lt.1 hlength)] at h
  cases h

theorem length_withStack (w : World) (number : Nat) (s : Stack) :
    (w.withStack number s).allStacks.length = w.allStacks.length :=
  List.length_set

/-- Wherever one was, one is now at the current card of a stack that was changed. -/
theorem Placed.navigate {w : World} {card : PartId} (h : w.Placed)
    (hnumber : number < w.allStacks.length)
    (hstep : (w.stack number).Step s) (hcard : s.currentCard = card) (effect : Option String) :
    Placed { w.withStack number s with
      desktop := w.desktop.navigate { stack := number, card, effect } } where
  current place hplace := by
    cases hplace
    show ((w.withStack number s).stack number).currentCard = card
    rw [stack_withStack_self hnumber, hcard]
  within := w.length_withStack number s ▸ h.within.navigate hnumber
  scripts n := (h.scripts n).leads rfl (leads_withStack hstep n)

end World

/-- A run in a world where the location is at the current card, on a stack of that world. -/
structure Machine.Placed (m : Machine) : Prop where
  world : m.world.Placed
  bound : ∀ n ∈ m.context.stack, n < m.world.allStacks.length

namespace Machine.Placed

variable {m m' : Machine}

theorem stays (hm : m.Placed) (h : m.Stays m') : m'.Placed := by
  have hdesktop := h.desktop
  refine ⟨⟨fun place hplace => ?_, ⟨?_, ?_, ?_⟩, fun n => ?_⟩, ?_⟩
  · rw [hdesktop.location] at hplace
    rw [h.current]
    exact hm.world.current place hplace
  · rw [hdesktop.opened, h.count]
    exact hm.world.within.opened
  · rw [hdesktop.location, h.count]
    exact hm.world.within.location
  · rw [hdesktop.history, h.count]
    exact hm.world.within.history
  · exact (hm.world.scripts n).leads rfl (h.leads n)
  · rw [h.bound, h.count]
    exact hm.bound

theorem navigate {number : Nat} {card : PartId} {c : Context} (hm : m.Placed)
    (hnumber : number < m.world.allStacks.length) (hstep : (m.world.stack number).Step s)
    (hcard : s.currentCard = card) (effect : Option String)
    (hbound : ∀ n ∈ c.stack, n < m.world.allStacks.length) :
    Machine.Placed
      { world := { m.world.withStack number s with
          desktop := m.world.desktop.navigate { stack := number, card, effect } }
        context := c } :=
  ⟨hm.world.navigate hnumber hstep hcard effect,
    fun n hn => Nat.lt_of_lt_of_eq (hbound n hn) (m.world.length_withStack number s).symm⟩

theorem currentStack (hm : m.Placed) (h : m.currentStack = .ok n) :
    n < m.world.allStacks.length := by
  unfold Machine.currentStack at h
  split at h
  next number hnumber =>
    cases h
    rcases Option.or_eq_some_iff.1 hnumber with hstack | ⟨-, hfocused⟩
    · exact hm.bound n hstack
    · exact hm.world.within.focusedStack? hfocused
  next => cases h

theorem push (hm : m.Placed) (hpush : m.pushFrame name me values = .ok m') : m'.Placed := by
  obtain ⟨-, f, -, -, -, -, -, hcontext, hworld⟩ := Machine.pushFrame_eq_ok hpush
  refine ⟨?_, ?_⟩
  · rw [hworld]
    exact ⟨hm.world.current, hm.world.within, hm.world.scripts⟩
  · rw [hcontext, hworld]
    exact hm.bound

theorem pop (hm : m.Placed) : m.popFrame.Placed := ⟨hm.world, hm.bound⟩

end Machine.Placed

/-! ## Actions -/

namespace Action

/-- An action fails because a part is gone. -/
def Loses (x : Action α) (m : Machine) : Prop :=
  ∃ error m' part, x m = .error (.failed error) m' ∧ error.failure = .noSuchPart part

/-- An action from a machine leaves one at the current card, or fails because a part is gone. -/
def EndsPlaced (x : Action α) (m : Machine) : Prop :=
  (x.after m).Placed ∨ x.Loses m

def KeepsPlace (x : Action α) : Prop :=
  ∀ m : Machine, m.Placed → x.EndsPlaced m

namespace EndsPlaced

variable {m m₁ : Machine}

theorem congr {x y : Action α} (h : y.EndsPlaced m₁) (hx : x m = y m₁) : x.EndsPlaced m := by
  unfold EndsPlaced Action.after Loses
  rw [hx]
  exact h

theorem ok {x : Action α} (hx : x m = .ok a m₁) (hm : m₁.Placed) : x.EndsPlaced m := by
  refine .inl ?_
  rw [after, hx]
  exact hm

theorem error {x : Action α} (hx : x m = .error halt m₁) (hm : m₁.Placed) : x.EndsPlaced m := by
  refine .inl ?_
  rw [after, hx]
  exact hm

theorem lost {x : Action α} (hx : x m = .error (.failed { failure := .noSuchPart part }) m₁) :
    x.EndsPlaced m :=
  .inr ⟨_, _, _, hx, rfl⟩

theorem noting {x : Action α} {note : ScriptError → ScriptError} (h : x.EndsPlaced m)
    (hnote : ScriptError.Adds note) : (x.noting note).EndsPlaced m := by
  rcases h with hafter | ⟨error, m', part, hx, hfailure⟩
  · refine .inl ?_
    rw [after_noting]
    exact hafter
  · refine .inr ⟨note error, m', part, ?_, (hnote.failure error).trans hfailure⟩
    simp only [Action.noting, hx]

theorem andThen {x : Action α} {f : Machine → Machine} (h : x.EndsPlaced m)
    (hf : ∀ m : Machine, m.Placed → (f m).Placed) : (x.andThen f).EndsPlaced m := by
  rcases h with hafter | ⟨error, m', part, hx, hfailure⟩
  · refine .inl ?_
    rw [after_andThen]
    exact hf _ hafter
  · refine .inr ⟨error, f m', part, ?_, hfailure⟩
    simp only [Action.andThen, hx]

end EndsPlaced

namespace KeepsPlace

theorem stays {x : Action α} (h : x.Stays) : x.KeepsPlace :=
  fun m hm => .inl (hm.stays (h.keeps m))

theorem outOfFuel : KeepsPlace (Action.outOfFuel : Action α) := fun _ hm => .inl hm

theorem bind {x : Action α} {f : α → Action β} (hx : x.KeepsPlace) (hf : ∀ a, (f a).KeepsPlace) :
    (x >>= f).KeepsPlace := by
  intro m hm
  rcases hx m hm with hafter | ⟨error, m', part, hxm, hfailure⟩
  · cases hxm : x m with
    | ok a m₁ =>
      rw [after, hxm] at hafter
      exact (hf a m₁ hafter).congr (bind_apply_ok hxm)
    | error halt m₁ =>
      rw [after, hxm] at hafter
      exact .error (bind_apply_error hxm) hafter
  · exact .inr ⟨error, m', part, bind_apply_error hxm, hfailure⟩

theorem handlerAt {h : Handle} {f : Option Handler → Action α} (hnone : (f none).KeepsPlace)
    (hsome : ∀ handler, handler.isFunction = isFunction →
      everyIn Command.isOnward handler.body → (f (some handler)).KeepsPlace) :
    (handlerAt? h name isFunction >>= f).KeepsPlace := by
  intro m hm
  obtain ⟨failure, hgone⟩ | ⟨script, hscript, hsearch⟩ := handlerAt?_bind h name isFunction m
  · exact .error (hgone f) hm
  · have hevery := (hm.world.scripts h.stack).scriptOf hscript
    cases hfind : script.handler? name isFunction with
    | none =>
      rw [hfind] at hsearch
      exact (hnone m hm).congr (hsearch f)
    | some handler =>
      rw [hfind] at hsearch
      have hbody := Script.every_of_handler? hevery hfind
      exact (hsome handler (Script.isFunction_of_handler? hfind) hbody m hm).congr (hsearch f)

theorem inFrame {x : Action α} (h : x.KeepsPlace) : (x.inFrame note name me values).KeepsPlace := by
  intro m hm
  have hx := inFrame_apply note name me values x m
  cases hpush : m.pushFrame name me values with
  | ok m₁ =>
    rw [hpush] at hx
    exact ((h m₁ (hm.push hpush)).andThen fun _ hm => hm.pop).congr hx
  | error f =>
    rw [hpush] at hx
    exact .error hx hm

end KeepsPlace

end Action

/-! ## Moves -/

/-- A way of making a card fails and changes nothing, or makes one and shows it. -/
def Inserts (insert : Nat → Action PartId) : Prop :=
  ∀ (number : Nat) (m : Machine), (∃ halt, insert number m = .error halt m) ∨
    ∃ s : Stack, insert number m = .ok s.currentCard (m.withWorld (m.world.withStack number s)) ∧
      (m.world.stack number).Step s

theorem inserts_insertCard : Inserts insertCard := by
  intro number m
  rw [insertCard_apply]
  cases hnew : (m.world.stack number).newCard with
  | ok made =>
    have hstep : (m.world.stack number).Step made.2 :=
      .edit .newCard (Edit.apply_newCard.2 ⟨_, hnew⟩)
    obtain ⟨current, -, hid, hmade⟩ := Stack.newCard_eq_ok hnew
    have hcurrent : made.1 = made.2.currentCard := by
      rw [hid, hmade]
      rfl
    exact .inr ⟨made.2, by rw [← hcurrent], hstep⟩
  | error f => exact .inl ⟨_, rfl⟩

theorem inserts_insertBackground : Inserts insertBackground :=
  fun number m => .inr ⟨(m.world.stack number).newBackground.2, rfl, .edit .newBackground rfl⟩

theorem addCard_keepsPlace {insert : Nat → Action PartId} (hinsert : Inserts insert) :
    (addCard insert).KeepsPlace := by
  intro m hm
  cases hstack : m.currentStack with
  | error f =>
    exact .error (Action.bind_apply_error (Action.demand_of_error hstack)) hm
  | ok number =>
    have hdemand := Action.demand_of_ok hstack
    have hnumber := hm.currentStack hstack
    obtain ⟨halt, hfails⟩ | ⟨s, hmade, hstep⟩ := hinsert number m
    · exact .error ((Action.bind_apply_ok hdemand).trans (Action.bind_apply_error hfails)) hm
    · unfold addCard
      refine .ok ((Action.bind_apply_ok hdemand).trans ((Action.bind_apply_ok hmade).trans rfl)) ?_
      exact hm.navigate hnumber hstep rfl _ hm.bound

theorem Stack.deleteCard_current {s t : Stack} {id : PartId} (h : s.deleteCard id = .ok t) :
    (s.card? id).isSome ∧ (s.currentCard ≠ id → t.currentCard = s.currentCard) := by
  rw [Stack.deleteCard_eq] at h
  split at h
  next hcard =>
    split at h
    · cases h
    · cases h
      exact ⟨by rw [hcard]; rfl, fun hne => if_neg (by simpa using hne)⟩
  next => cases h

theorem dropCard_keepsPlace {id : PartId} : (dropCard number id).KeepsPlace := by
  intro m hm
  have hdelete := editStack_apply_unit (Stack.removingCard_atomic id) number m
  cases hdeleted : (Stack.removingCard id).result (m.world.stack number) with
  | error f =>
    rw [hdeleted] at hdelete
    exact .error ((Action.bind_apply_ok rfl).trans (Action.bind_apply_error hdelete)) hm
  | ok s =>
    rw [hdeleted] at hdelete
    have hstep : (m.world.stack number).Step s := .edit (.deleteCard id) hdeleted
    obtain ⟨hcard, hcurrent⟩ := Stack.deleteCard_current hdeleted
    have hnumber := World.lt_of_card? hcard
    unfold dropCard
    refine .congr ?_ ((Action.bind_apply_ok rfl).trans (Action.bind_apply_ok hdelete))
    cases hshown : (m.world.stack number).currentCard == id with
    | true =>
      simp only [hshown, if_true]
      refine .ok rfl (hm.navigate hnumber hstep ?_ _ ?_)
      · exact congrArg Stack.currentCard (World.stack_withStack_self hnumber s).symm
      · exact hm.bound
    | false =>
      simp only [hshown, Bool.false_eq_true, if_false]
      have hkept := hcurrent (by simpa using hshown)
      have hstays := Machine.Stays.changeStack (.deleteCard hdeleted) hkept
      refine .ok rfl (hm.stays (hstays.trans (.context ?_ ?_)))
      · rfl
      · rfl

theorem land_keepsPlace : (land destination true).KeepsPlace := by
  intro m hm
  have hland := land_apply destination true m
  cases hshow : (m.world.stack destination.stack).showCard destination.card with
  | ok s =>
    rw [hshow] at hland
    have hstep : (m.world.stack destination.stack).Step s :=
      .edit (.showCard destination.card) hshow
    obtain ⟨hcard, rfl⟩ := Stack.showCard_eq_ok hshow
    have hnumber := World.lt_of_card? hcard
    refine .ok hland (hm.navigate hnumber hstep rfl destination.effect fun n hn => ?_)
    cases hn
    exact hnumber
  | error f =>
    rw [hshow] at hland
    rw [Stack.showCard_eq] at hshow
    split at hshow
    · cases hshow
    · cases hshow
      exact .lost hland

/-! ## Handlers -/

def onwardAccord : Accord where
  allows := Command.isOnward
  Rel _ x _ := x.KeepsPlace
  stays := .stays
  bind := .bind
  follow hx hf _ _ := .bind hx hf
  handlerAt := .handlerAt

/-- Whoever never goes back stays at the current card. -/
def onward (loops : Nat) : Concord loops loops where
  toAccord := onwardAccord
  noting hnote h m hm := (h m hm).noting hnote
  andThen hf _ h m hm := (h m hm).andThen fun m hm => hm.stays (hf m)
  loopWhile _ _ htest hpass := onwardAccord.loopWhile .outOfFuel htest hpass
  land := land_keepsPlace
  goBack := nofun
  addCard := addCard_keepsPlace inserts_insertCard
  addBackground := addCard_keepsPlace inserts_insertBackground
  dropCard := dropCard_keepsPlace

theorem invokes_onward (fuel loops : Nat) : (onward loops).Invokes (invoke fuel) (invoke fuel) := by
  induction fuel generalizing loops with
  | zero => exact ⟨fun _ _ _ _ _ => .outOfFuel, fun _ _ _ _ _ => .outOfFuel⟩
  | succ fuel ih =>
    have hinvoke (owner : Handle) (handler : Handler) (args : List Value)
        (hbody : everyIn Command.isOnward handler.body) :
        (invoke (fuel + 1) owner handler args).KeepsPlace := by
      simp only [invoke, runHandler_eq]
      exact .inFrame (Concord.handlerBody (ih fuel) hbody)
    exact ⟨fun owner handler args _ => hinvoke owner handler args,
      fun owner handler args _ => hinvoke owner handler args⟩

theorem messageRun_keepsPlace : (messageRun fuel target message args).KeepsPlace := by
  have hdispatch (receiver : Handle) : Action.KeepsPlace (do
      dispatch fuel receiver message args
      Action.ask (·.context.result)) := by
    have hsend : (send (invoke fuel) receiver message args).KeepsPlace :=
      Concord.send (invokes_onward fuel fuel)
    exact .bind (.bind hsend fun _ => .stays (.pure _)) fun _ => .stays (.ask _)
  cases target with
  | some spec => exact .bind (.stays (.resolve spec)) hdispatch
  | none => exact .bind (.stays (.demand _)) hdispatch

theorem runStatements_keepsPlace (hstatements : everyIn Command.isOnward statements) :
    (runStatements fuel statements).KeepsPlace := by
  have hblock : (execBlock (invoke fuel) fuel statements).KeepsPlace :=
    Concord.execBlock (invokes_onward fuel fuel) statements hstatements
  rw [runStatements_eq]
  exact .inFrame (.bind (.bind hblock fun _ => .stays (.pure _)) fun _ => .stays (.ask _))

/-! ## Requests -/

theorem messageRun_follows : (messageRun fuel target message args).Follows .outside := by
  have hdispatch (receiver : Handle) : Action.Follows .outside (do
      dispatch fuel receiver message args
      Action.ask (·.context.result)) :=
    .bind (.bind (send_follows (invoke_follows fuel)) fun _ => .pure _) fun _ => .ask _
  cases target with
  | some spec => exact .bind (.resolve spec) hdispatch
  | none => exact .bind (.demand _) hdispatch

namespace Visit

/-- The stack on which a request is carried out. -/
def stack? (v : Visit) : Option Nat :=
  match v.request with
  | .send stack .. => some stack
  | .eval stack _ => stack

/-- What is carried out for a request. -/
def action (v : Visit) : Action Value :=
  match v.request with
  | .send _ target message args => messageRun v.fuel target message args
  | .eval _ statements => runStatements v.fuel statements

/-- The machine on which a request is carried out. -/
def start (v : Visit) (w : World) : Machine where
  world := { w with draws := v.draws, clock := v.clock }
  context := { stack := v.stack? }

theorem action_follows (v : Visit) : v.action.Follows .outside := by
  unfold action
  split
  · exact messageRun_follows
  · exact runStatements_follows

theorem action_keepsPlace {v : Visit} (h : v.request.every Command.isOnward) :
    v.action.KeepsPlace := by
  unfold action
  split
  next => exact messageRun_keepsPlace
  next hrequest =>
    rw [hrequest] at h
    exact runStatements_keepsPlace h

end Visit

namespace World

variable {w : World} {v : Visit}

theorem answer_eq (w : World) (v : Visit) :
    w.answer v = (v.action.outcome (v.start w), (v.action.after (v.start w)).world) := by
  obtain ⟨request, fuel, draws, clock⟩ := v
  cases request <;> exact run_eq ..

/-- The world after requests, each in the world that the one before it left behind. -/
def afterAnswers (w : World) : List Visit → World
  | [] => w
  | v :: rest => (w.answer v).2.afterAnswers rest

theorem focused_answer (h : w.desktop.Focused) (v : Visit) : (w.answer v).2.desktop.Focused := by
  rw [answer_eq]
  exact (v.action_follows (v.start w)).focused h

theorem focused_afterAnswers (h : w.desktop.Focused) (visits : List Visit) :
    (w.afterAnswers visits).desktop.Focused := by
  induction visits generalizing w with
  | nil => exact h
  | cons v rest ih => exact ih (focused_answer h v)

theorem Fit.afterAnswers (h : w.Fit count) {visits : List Visit}
    (hvisits : ∀ v ∈ visits, v.request.Within (· < count)) : (w.afterAnswers visits).Fit count := by
  induction visits generalizing w with
  | nil => exact h
  | cons v rest ih =>
    have hnext := (h.answer (hvisits v List.mem_cons_self)).1
    exact ih hnext fun v hv => hvisits v (List.mem_cons_of_mem _ hv)

theorem length_answer (w : World) (v : Visit) :
    (w.answer v).2.allStacks.length = w.allStacks.length := by
  rw [answer_eq]
  exact (v.action_follows (v.start w)).length_eq

namespace Placed

theorem answer (h : w.Placed) (hwithin : v.request.Within (· < w.allStacks.length))
    (honward : v.request.every Command.isOnward) :
    (w.answer v).2.Placed ∨
      ∃ error part, (w.answer v).1 = .error (.failed error) ∧ error.failure = .noSuchPart part := by
  have hstart : (v.start w).Placed := by
    refine ⟨⟨h.current, h.within, h.scripts⟩, fun n hn => ?_⟩
    obtain ⟨request, fuel, draws, clock⟩ := v
    cases request with
    | send stack target message args =>
      cases hn
      exact hwithin.1
    | eval stack statements => exact hwithin n hn
  rw [answer_eq]
  rcases v.action_keepsPlace honward _ hstart with hafter | ⟨error, m', part, hfails, hfailure⟩
  · exact .inl hafter.world
  · exact .inr ⟨error, part, by simp only [Action.outcome, hfails], hfailure⟩

/-- Requests leave one at the current card if none of them goes back or fails because a part is
gone. -/
theorem answers (h : w.Placed) {visits : List Visit}
    (hwithin : ∀ v ∈ visits, v.request.Within (· < w.allStacks.length))
    (honward : ∀ v ∈ visits, v.request.every Command.isOnward)
    (hfound : ∀ error part, .error (.failed error) ∈ w.answers visits →
      error.failure ≠ .noSuchPart part) :
    (w.afterAnswers visits).Placed := by
  induction visits generalizing w with
  | nil => exact h
  | cons v rest ih =>
    rcases h.answer (hwithin v List.mem_cons_self) (honward v List.mem_cons_self) with
      hnext | ⟨error, part, hfails, hfailure⟩
    · refine ih hnext (fun v' hv' => ?_) (fun v' hv' => honward v' (List.mem_cons_of_mem _ hv'))
        fun error part herror => hfound error part (List.mem_cons_of_mem _ herror)
      rw [length_answer]
      exact hwithin v' (List.mem_cons_of_mem _ hv')
    · have herror : .error (.failed error) ∈ w.answers (v :: rest) := hfails ▸ List.mem_cons_self
      exact absurd hfailure (hfound error part herror)

theorem openStack (h : w.Placed) (hn : n < w.allStacks.length) : (w.openStack n).Placed where
  current place hplace := by
    cases hplace
    rfl
  within := h.within.openStack hn _
  scripts := h.scripts

end Placed

theorem focused_opening (settings : Settings) (allStacks : List Stack) (opened : List Nat) :
    (opening settings allStacks opened).desktop.Focused :=
  List.foldlRecOn opened openStack (motive := fun w => w.desktop.Focused) rfl
    fun _ _ _ _ => Desktop.focused_openStack ..

theorem placed_opening (settings : Settings) {allStacks : List Stack}
    (hscripts : ∀ s ∈ allStacks, s.Scripted fun script => script.every Command.isOnward)
    {opened : List Nat} (hopened : ∀ n ∈ opened, n < allStacks.length) :
    (opening settings allStacks opened).Placed ∧
      (opening settings allStacks opened).allStacks = allStacks := by
  refine List.foldlRecOn opened openStack
    (motive := fun w => w.Placed ∧ w.allStacks = allStacks) ?_ fun w hw n hn => ?_
  · refine ⟨⟨nofun, ⟨nofun, nofun, nofun⟩, fun n => ?_⟩, rfl⟩
    show (allStacks[n]?.getD {}).Scripted _
    cases hget : allStacks[n]? with
    | some s => exact hscripts s (List.mem_of_getElem? hget)
    | none => exact ⟨rfl, nofun, nofun⟩
  · obtain ⟨hplaced, hstacks⟩ := hw
    exact ⟨hplaced.openStack (hstacks ▸ hopened n hn), hstacks⟩

/-- **The location is at the current card.** Whatever requests come to the stacks of a desktop, the
location is in the stack with the focus, and the current card of that stack exists. It is the card
of the location too, if no script and no request goes back and no request fails because a part is
gone. -/
theorem location_at_currentCard (settings : Settings) {allStacks : List Stack}
    (hstacks : ∀ s ∈ allStacks, ∃ snapshot : StackSnapshot, snapshot.toStack = .ok s)
    {opened : List Nat} (hopened : ∀ n ∈ opened, n < allStacks.length) {visits : List Visit}
    (hvisits : ∀ v ∈ visits, v.request.Within (· < allStacks.length)) :
    let w := (opening settings allStacks opened).afterAnswers visits
    w.desktop.location.map (·.stack) = w.desktop.focusedStack? ∧
    (∀ place ∈ w.desktop.location,
      ((w.stack place.stack).card? (w.stack place.stack).currentCard).isSome) ∧
    ((∀ s ∈ allStacks, s.Scripted fun script => script.every Command.isOnward) →
      (∀ v ∈ visits, v.request.every Command.isOnward) →
      (∀ error part, .error (.failed error) ∈ (opening settings allStacks opened).answers visits →
        error.failure ≠ .noSuchPart part) →
      ∀ place ∈ w.desktop.location, (w.stack place.stack).currentCard = place.card) := by
  refine ⟨?_, fun place hplace => ?_, fun hscripts honward hfound place hplace => ?_⟩
  · exact focused_afterAnswers (focused_opening settings allStacks opened) visits
  · have hfit := (fit_opening settings hstacks hopened).afterAnswers hvisits
    exact Stack.isSome_card?.2 (hfit.coherent _ (hfit.desktop.location place hplace)).current_mem
  · obtain ⟨hplaced, hsame⟩ := placed_opening settings hscripts hopened
    exact (hplaced.answers (hsame.symm ▸ hvisits) honward hfound).current place hplace

/-- One goes to the second card of a stack and makes another card there. -/
theorem location_at_currentCard_twoCards :
    let visits : List Visit :=
      [{ request := .eval none [.mk {} (.go (some (.named none .card (.literal "2" false))))] },
        { request := .eval none [.mk {} .newCard] }]
    ∃ (s : Stack) (place : Destination), StackSnapshot.twoCards.toStack = .ok s ∧
      let w := (opening {} [s] [0]).afterAnswers visits
      w.desktop.location = some place ∧ (w.stack place.stack).currentCard = place.card := by
  intro visits
  obtain ⟨s, hs, hscripts, hanswers, hlocation⟩ :
      ∃ s : Stack, StackSnapshot.twoCards.toStack = .ok s ∧
        (∀ t ∈ [s], t.Scripted fun script => script.every Command.isOnward) ∧
        (∀ answer ∈ (opening {} [s] [0]).answers visits, answer.isOk) ∧
        ((opening {} [s] [0]).afterAnswers visits).desktop.location.isSome :=
    ⟨_, rfl, by decide +kernel, by decide +kernel, by decide +kernel⟩
  obtain ⟨place, hplace⟩ := Option.isSome_iff_exists.1 hlocation
  have hstacks : ∀ t ∈ [s], ∃ snapshot : StackSnapshot, snapshot.toStack = .ok t := by
    intro t ht
    exact ⟨.twoCards, List.mem_singleton.1 ht ▸ hs⟩
  have hvisits : ∀ v ∈ visits, v.request.Within (· < [s].length) := by
    simp [visits, Request.Within]
  have hcoherent := (location_at_currentCard {} hstacks (by simp) hvisits).2.2 hscripts
    (by decide) fun error part herror => absurd (hanswers _ herror) Bool.false_ne_true
  exact ⟨s, place, hs, hplace, hcoherent place hplace⟩

end World

/-- Two cards, of which the second one lets nobody leave. -/
def StackSnapshot.oneWay : StackSnapshot where
  cards := [{}, { script := { handlers := [
    { name := ⟨"closeCard"⟩, body := [.mk {} .exitToHyperCard] }] } }]

/-- Going back from a card that lets nobody leave, one stays there, but the desktop has one at the
card before. -/
theorem World.location_not_at_currentCard :
    ∃ s : Stack, StackSnapshot.oneWay.toStack = .ok s ∧
      let w := (World.opening {} [s] [0]).afterAnswers
        [{ request := .eval none [.mk {} (.go (some (.named none .card (.literal "2" false))))] },
          { request := .eval none [.mk {} (.go none)] }]
      w.desktop.location.map (·.card) = some 101 ∧ (w.stack 0).currentCard = 102 :=
  ⟨_, rfl, by decide +kernel⟩

end CardScript
