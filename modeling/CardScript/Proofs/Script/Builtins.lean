import CardScript.Proofs.Script.Passing
import CardScript.Proofs.Script.Soundness

/-!
# Calls of built-in functions

A function call goes the way of a message before a built-in function answers it. Where no script on
the way has a handler of that name, nothing happens until the end of the way is reached, provided
that the part from which the function is called stands (`Stack.Stands`): it is there, and so is the
next card above it. Then the built-in function answers (`builtins_available`). A handler that has
removed its own card cannot call any function (`builtin_lost_with_card`).
-/

namespace CardScript

/-! ## Parts that stand -/

namespace Stack

variable {s : Stack} {f g : Found}

/-- The component is there, and so is the one above it. -/
structure Stands (s : Stack) (f : Found) : Prop where
  there : (s.scriptOf f.part).isOk
  wayOpen : s.WayOpen f

theorem stands_card {id : PartId} (h : (s.card? id).isSome) : s.Stands (.ofCard id) :=
  ⟨isOk_scriptOf_card.2 h, h⟩

/-- Above a component that stands all others do. -/
theorem Stands.parent? (hg : (s.scriptOf g.part).isOk) (hparent : s.parent? f = some g) :
    s.Stands g := by
  refine ⟨hg, ?_⟩
  obtain ⟨part, context⟩ := f
  cases part with
  | stack => cases hparent
  | background id =>
    cases hparent
    trivial
  | card id =>
    obtain ⟨c, -, rfl⟩ := Option.map_eq_some_iff.1 hparent
    trivial
  | part kind layer id =>
    cases layer with
    | card =>
      obtain ⟨p, -, rfl⟩ := Option.map_eq_some_iff.1 hparent
      exact isOk_scriptOf_card.1 hg
    | background =>
      cases hparent
      exact isOk_scriptOf_card.1 hg

end Stack

/-! ## The way of a call -/

section

variable {invoke : Invoke} {name : String} {args : List Value} {m : Machine} {h next : Handle}
  {stations : Nat}

/-- No script of the stack has a function of the name. -/
def Stack.LacksFunction (s : Stack) (name : String) : Prop :=
  s.Scripted fun script => script.handler? name true = none

theorem World.parent?_of_found {w : World} {g : Found}
    (hg : (w.stack h.stack).parent? h.found = some g) : w.parent? h = some ⟨h.stack, g⟩ := by
  rw [World.parent?, hg]
  rfl

theorem functionAt?_of_lacks (hlacks : (m.world.stack h.stack).LacksFunction name)
    (hthere : (m.world.scriptOf h).isOk) : handlerAt? h name true m = .ok none m := by
  cases hscript : m.world.scriptOf h with
  | ok script =>
    have hnone : script.handler? name true = none := hlacks.scriptOf hscript
    rw [← hnone]
    exact Action.bind_apply_ok (Action.demand_of_ok hscript)
  | error f =>
    rw [hscript] at hthere
    cases hthere

/-- From a part without the function the call goes on to the next one. -/
theorem callFrom_of_parent (hlacks : (m.world.stack h.stack).LacksFunction name)
    (hthere : (m.world.scriptOf h).isOk) (hparent : m.world.parent? h = some next) :
    callFrom invoke name args (stations + 1) h m = callFrom invoke name args stations next m := by
  have hnext : nextStation? h m = .ok (some next) m := congrArg (EStateM.Result.ok · m) hparent
  exact (Action.bind_apply_ok (functionAt?_of_lacks hlacks hthere)).trans
    (Action.bind_apply_ok hnext)

theorem callFrom_of_no_parent (hlacks : (m.world.stack h.stack).LacksFunction name)
    (hthere : (m.world.scriptOf h).isOk) (hparent : m.world.parent? h = none) :
    callFrom invoke name args (stations + 1) h m = callBuiltin name args m := by
  have hnext : nextStation? h m = .ok none m := congrArg (EStateM.Result.ok · m) hparent
  exact (Action.bind_apply_ok (functionAt?_of_lacks hlacks hthere)).trans
    (Action.bind_apply_ok hnext)

theorem callFrom_of_gone (hgone : ¬(m.world.scriptOf h).isOk) :
    callFrom invoke name args (stations + 1) h m =
      .error (.failed { failure := .noSuchPart h.found.part.idForm }) m := by
  have hscript : m.world.scriptOf h = .error (Stack.gone h.found.part) :=
    Stack.scriptOf_of_gone hgone
  exact Action.bind_apply_error (Action.bind_apply_error (Action.demand_of_error hscript))

/-- From a part that stands the call comes to the end of the way. -/
theorem callFrom_of_stands (hs : (m.world.stack h.stack).Orderly)
    (hlacks : (m.world.stack h.stack).LacksFunction name)
    (hstands : (m.world.stack h.stack).Stands h.found) (hstations : h.height < stations) :
    callFrom invoke name args stations h m = callBuiltin name args m := by
  -- nothing is run on the way, so the machine stays the same and the stations get fewer
  induction stations generalizing h with
  | zero => omega
  | succ stations ih =>
    by_cases hstack : h.found.part = .stack
    · have hparent : m.world.parent? h = none := by
        rw [World.parent?, Stack.parent?, hstack]
        rfl
      exact callFrom_of_no_parent hlacks hstands.there hparent
    · obtain ⟨g, hg, hok⟩ := (hs.wayOpen_iff hstack).1 hstands.wayOpen
      have hparent := World.parent?_of_found hg
      have hlt := World.height_parent? hparent
      rw [callFrom_of_parent hlacks hstands.there hparent]
      exact ih hs hlacks (.parent? hok hg) (by omega)

/-- From a part that does not stand the call fails, for want of the part or of the card above. -/
theorem callFrom_of_not_stands (hs : (m.world.stack h.stack).Orderly)
    (hlacks : (m.world.stack h.stack).LacksFunction name)
    (hstands : ¬(m.world.stack h.stack).Stands h.found) :
    ∃ r : PartRef, callFrom invoke name args maxStations h m =
      .error (.failed { failure := .noSuchPart r.idForm }) m := by
  by_cases hthere : (m.world.scriptOf h).isOk
  · have hclosed : ¬(m.world.stack h.stack).WayOpen h.found := fun hopen => hstands ⟨hthere, hopen⟩
    have hne : h.found.part ≠ .stack := by
      intro hstack
      rw [Stack.WayOpen, hstack] at hclosed
      exact hclosed trivial
    obtain ⟨g, hg⟩ := Stack.exists_parent? hthere hne
    have hparent := World.parent?_of_found hg
    refine ⟨g.part, (callFrom_of_parent hlacks hthere hparent).trans (callFrom_of_gone ?_)⟩
    exact fun hok => hclosed ((hs.wayOpen_iff hne).2 ⟨g, hg, hok⟩)
  · exact ⟨h.found.part, callFrom_of_gone hthere⟩

end

/-! ## Built-in functions -/

namespace Builtin

theorem named?_of_key {b : Builtin} {name : String} (h : Text.lowerString name = b.key) :
    named? name = some b := by
  rw [named?, h]
  cases b <;> rfl

end Builtin

namespace Machine

/-- The machine when a built-in function has made its draws and read the clock. -/
def afterBuiltin (m : Machine) (b : Builtin) : Machine :=
  m.withWorld { m.world with
    draws := m.world.draws.skip b.draws
    clock := m.world.clock.skip b.readings }

end Machine

theorem callBuiltin_apply {b : Builtin} {name : String} (h : Text.lowerString name = b.key)
    (args : List Value) (m : Machine) :
    callBuiltin name args m =
      match b.call name m args with
      | .ok v => .ok v (m.afterBuiltin b)
      | .error f => .error (.failed { failure := f }) (m.afterBuiltin b) := by
  have hsome : callBuiltin name args = (do
      let answer := b.call name (← get) args
      Action.changeWorld fun w => { w with draws := w.draws.skip b.draws }
      Action.changeWorld fun w => { w with clock := w.clock.skip b.readings }
      Action.ofExcept answer) := by
    rw [callBuiltin, callBuiltin?, Builtin.named?_of_key h]
    rfl
  rw [hsome]
  show Action.ofExcept (b.call name m args) (m.afterBuiltin b) = _
  cases b.call name m args with
  | ok | error => rfl

theorem callFunction_of_me {m : Machine} {me : Handle} (h : m.me? = some me) (invoke : Invoke)
    (name : String) (args : List Value) :
    callFunction invoke name args m = callFrom invoke name args maxStations me m := by
  have hget : (get : Action Machine) m = .ok m m := rfl
  rw [callFunction, Action.bind_apply_ok hget, h]

theorem callFunction_of_no_me {m : Machine} (h : m.me? = none) (invoke : Invoke) (name : String)
    (args : List Value) :
    callFunction invoke name args m =
      match m.currentCard with
      | .ok card => callFrom invoke name args maxStations card m
      | .error _ => callBuiltin name args m := by
  have hget : (get : Action Machine) m = .ok m m := rfl
  rw [callFunction, Action.bind_apply_ok hget, h]
  cases m.currentCard with
  | ok | error => rfl

/-- **Built-in functions are available.** On every machine that a run can come to, a built-in
function is called by a name that no script has a function for. Where the part whose handler is
running stands, and for loose statements always, the built-in function answers, and nothing changes
but for the draw that `random` uses up and the reading that the time of day takes. Where the part
does not stand, the call fails for want of a part, and nothing changes. -/
theorem builtins_available {count : Nat} {e : Extent} {m : Machine}
    (hm : (sound count).Admits e m) {name : String} {b : Builtin}
    (hname : Text.lowerString name = b.key)
    (hlacks : ∀ n < count, (m.world.stack n).LacksFunction name) (invoke : Invoke)
    (args : List Value) :
    ((∀ me, m.me? = some me → (m.world.stack me.stack).Stands me.found) →
      callFunction invoke name args m = callBuiltin name args m ∧
      callFunction invoke name args m =
        match b.call name m args with
        | .ok v => .ok v (m.afterBuiltin b)
        | .error f => .error (.failed { failure := f }) (m.afterBuiltin b)) ∧
    (b ∉ [.random, .date, .time, .seconds, .ticks] → m.afterBuiltin b = m) ∧
    ∀ me, m.me? = some me → ¬(m.world.stack me.stack).Stands me.found →
      ∃ r : PartRef, callFunction invoke name args m =
        .error (.failed { failure := .noSuchPart r.idForm }) m := by
  have horderly (n : Nat) (hn : n < count) := (hm.everyStack n hn).toOrderly
  refine ⟨fun hstands => ?_, fun hne => ?_, fun me hme hstands => ?_⟩
  · suffices hcall : callFunction invoke name args m = callBuiltin name args m from
      ⟨hcall, hcall.trans (callBuiltin_apply hname args m)⟩
    cases hme : m.me? with
    | some me =>
      have hreach := hm.within.me? hme
      rw [callFunction_of_me hme]
      exact callFrom_of_stands (horderly _ hreach) (hlacks _ hreach) (hstands me hme) me.height_lt
    | none =>
      rw [callFunction_of_no_me hme]
      cases hcard : m.currentCard with
      | error f => rfl
      | ok card =>
        have hreach := hm.within.currentCard hcard
        obtain ⟨number, -, hcard⟩ := Failure.bind_eq_ok.1 hcard
        cases hcard
        have hcurrent := Machine.currentCardIn_mem (hm.everyStack number hreach)
        have hstands := Stack.stands_card (Stack.isSome_card?.2 hcurrent)
        exact callFrom_of_stands (horderly _ hreach) (hlacks _ hreach) hstands (Handle.height_lt _)
  · cases b with
    | random | date | time | seconds | ticks => exact absurd (by decide) hne
    | _ => rfl
  · have hreach := hm.within.me? hme
    rw [callFunction_of_me hme]
    exact callFrom_of_not_stands (horderly _ hreach) (hlacks _ hreach) hstands

/-- In a handler of a card that has made another card, a function is called in capital letters. -/
theorem builtins_available_twoCards :
    ∃ (s : Stack) (m₁ : Machine), StackSnapshot.twoCards.toStack = .ok s ∧
      Machine.pushFrame { world := { allStacks := [s] }, context := { stack := some 0 } } "greet"
        (some (.ofCard 0 103)) [] = .ok m₁ ∧
      let m₂ := (execBlock (invoke 8) 8 [.mk {} .newCard]).after m₁
      callFunction (invoke 8) "LENGTH" [.ofText "abc"] m₂ = .ok (.ofInt 3) m₂ := by
  let block : List Statement := [.mk {} .newCard]
  obtain ⟨s, hs, m₁, hpush, hme, hcard, hlacks⟩ :
      ∃ s : Stack, StackSnapshot.twoCards.toStack = .ok s ∧
        ∃ m₁, Machine.pushFrame { world := { allStacks := [s] }, context := { stack := some 0 } }
          "greet" (some (.ofCard 0 103)) [] = .ok m₁ ∧
          let m₂ := (execBlock (invoke 8) 8 block).after m₁
          m₂.me? = some (.ofCard 0 103) ∧ ((m₂.world.stack 0).card? 103).isSome ∧
          (m₂.world.stack 0).Scripted fun script => script.handler? "LENGTH" true = none :=
    ⟨_, rfl, _, rfl, by decide +kernel, by decide +kernel, by decide +kernel⟩
  have hfit : World.Fit 1 { allStacks := [s] } := by
    refine ⟨⟨nofun, nofun, nofun⟩, fun n hn => ?_⟩
    rw [Nat.lt_one_iff.1 hn]
    exact StackSnapshot.toStack_coherent hs
  have hadmits : (sound 1).Admits .inside m₁ :=
    (hfit.admits (by simp)).push hpush (by simp [Handle.ofCard, sound])
  have hobeys : (sound 1).Obeys .inside (execBlock (invoke 8) 8 block) :=
    execBlock_obeys (invoke_obeys 8) block fun _ _ => trivial
  have hname : Text.lowerString "LENGTH" = Builtin.length.key := by decide +kernel
  obtain ⟨hcall, -, -⟩ := builtins_available (hobeys m₁ hadmits).admits hname
    (fun n hn => Nat.lt_one_iff.1 hn ▸ hlacks) (invoke 8) [.ofText "abc"]
  have hstands : ∀ me, ((execBlock (invoke 8) 8 block).after m₁).me? = some me →
      (((execBlock (invoke 8) 8 block).after m₁).world.stack me.stack).Stands me.found := by
    intro me hme'
    cases hme.symm.trans hme'
    exact Stack.stands_card hcard
  exact ⟨s, m₁, hs, hpush, (hcall hstands).2⟩

/-- In a handler of a card that has removed the card, the same function cannot be called, although
no script has a function of that name. -/
theorem builtin_lost_with_card :
    ∃ (s : Stack) (m₁ : Machine), StackSnapshot.twoCards.toStack = .ok s ∧
      Machine.pushFrame { world := { allStacks := [s] }, context := { stack := some 0 } } "greet"
        (some (.ofCard 0 103)) [] = .ok m₁ ∧
      let m₂ := (execBlock (invoke 8) 8 [.mk {} (.deleteCard none)]).after m₁
      (m₂.world.stack 0).LacksFunction "length" ∧
      callFunction (invoke 8) "length" [.ofText "abc"] m₂ =
        .error (.failed { failure := .noSuchPart "card id 103" }) m₂ ∧
      callBuiltin "length" [.ofText "abc"] m₂ = .ok (.ofInt 3) m₂ := by
  obtain ⟨s, hs, m₁, hpush, hme, hgone, hlacks⟩ :
      ∃ s : Stack, StackSnapshot.twoCards.toStack = .ok s ∧
        ∃ m₁, Machine.pushFrame { world := { allStacks := [s] }, context := { stack := some 0 } }
          "greet" (some (.ofCard 0 103)) [] = .ok m₁ ∧
          let m₂ := (execBlock (invoke 8) 8 [.mk {} (.deleteCard none)]).after m₁
          m₂.me? = some (.ofCard 0 103) ∧ ¬(m₂.world.scriptOf (.ofCard 0 103)).isOk ∧
          (m₂.world.stack 0).Scripted fun script => script.handler? "length" true = none :=
    ⟨_, rfl, _, rfl, by decide +kernel, by decide +kernel, by decide +kernel⟩
  refine ⟨s, m₁, hs, hpush, hlacks, ?_, ?_⟩
  · rw [callFunction_of_me hme]
    exact callFrom_of_gone hgone
  · have hname : Text.lowerString "length" = Builtin.length.key := by decide +kernel
    exact callBuiltin_apply hname _ _

end CardScript
