import CardScript.Proofs.Script.Atomicity

/-!
# The course of a run

Whatever scripts do is made of a few elementary changes: to the world (`World.Change`), to the
context, to the innermost frame, of calls, which push a frame and pop it in the end, and of
messages, which set the target and set it back. `Machine.Course` is the relation between the
machines before and after a piece of a run made of these, and every action of the interpreter
follows it (`execBlock_follows`, `evalExpr_follows`, `invoke_follows`), however it ends. What holds
along runs is then shown by one induction over `Machine.Course`.
-/

namespace CardScript

/-- What scripts can do to the world in one step. -/
inductive World.Change : World → World → Prop
  | draws (n : Nat) : Change w { w with draws := w.draws.skip n }
  | clock (clock : Clock) : Change w { w with clock }
  | beep : Change w { w with desktop := w.desktop.beep }
  | message (text : String) : Change w { w with desktop := w.desktop.showMessage text }
  | navigate (destination : Destination) :
    Change w { w with desktop := w.desktop.navigate destination }
  | goBack : Change w { w with desktop := w.desktop.goBack.2 }
  | setGlobal (name : Symbol) (value : Value) :
    Change w { w with globals := w.globals.set name value }
  | seedGlobal (name : Symbol) : Change w { w with globals := w.globals.seed name }
  | property : w.setProperty name value = .ok w' → Change w w'
  | contents : w.setContents handle value = .ok w' → Change w w'
  | partProperty : w.setPartProperty handle name value = .ok w' → Change w w'
  | showCard : (w.stack number).showCard card = .ok s → Change w (w.withStack number s)
  | newCard : (w.stack number).newCard = .ok (card, s) → Change w (w.withStack number s)
  | newBackground : Change w (w.withStack number (w.stack number).newBackground.2)
  | deleteCard : (w.stack number).deleteCard card = .ok s → Change w (w.withStack number s)

/-- A property that belongs to no part is set in their table. The selected text is not among them,
and items are always divided by something. -/
theorem World.setProperty_eq_ok {w w' : World} (h : w.setProperty name value = .ok w') :
    ∃ table, w.properties.set name value = .ok table ∧ w' = { w with properties := table } ∧
      Text.sameIgnoringAsciiCase name "selectedText" = false ∧
      (Text.sameIgnoringAsciiCase name "itemDelimiter" = true → value.isEmpty = false) := by
  rw [setProperty_eq] at h
  split at h
  · cases h
  next hselected =>
    split at h
    · cases h
    next hdelimiter =>
      obtain ⟨table, htable, h⟩ := Failure.bind_eq_ok.1 h
      cases h
      refine ⟨table, htable, rfl, Bool.eq_false_iff.2 hselected, fun hname => ?_⟩
      simpa [hname] using hdelimiter

/-- How much of the call stack a piece of a run may change. -/
inductive Extent where
  /-- No frame that is open when the piece begins. -/
  | outside
  /-- The innermost frame. -/
  | inside

namespace Machine

/-- The machine with another world. -/
def withWorld (m : Machine) (w : World) : Machine :=
  { m with world := w }

def withTarget (m : Machine) (target : Option Handle) : Machine :=
  { m with context := { m.context with target } }

/-- From one machine to another in the course of a run. -/
inductive Course : Extent → Machine → Machine → Prop
  | refl : Course e m m
  | trans : Course e m₁ m₂ → Course e m₂ m₃ → Course e m₁ m₃
  | world : World.Change m.world w → Course e m (m.withWorld w)
  | result (value : Value) : Course e m { m with context := { m.context with result := value } }
  | stack (number : Nat) :
    Course e m { m with context := { m.context with stack := some number } }
  | card : Course e m { m with context := { m.context with card := none } }
  | assign (name : Symbol) (value : Value) : Course .inside m (m.onTop (·.setLocal name value))
  | declare (name : Symbol) : Course .inside m (m.onTop (·.declare name))
  | effect (effect : Option String) : Course .inside m (m.onTop ({ · with effect }))
  | call : m.pushFrame message me values = .ok m₁ → Course .inside m₁ m₂ → Course e m m₂.popFrame
  | send : Course e (m.withTarget target) m₁ → Course e m (m₁.withTarget m.context.target)

/-- A course that leaves all open frames alone leaves alone all but the innermost. -/
theorem Course.widen {m m' : Machine} (h : Course e m m') : Course .inside m m' := by
  induction h with
  | refl => exact .refl
  | trans _ _ ih₁ ih₂ => exact .trans ih₁ ih₂
  | world h => exact .world h
  | result value => exact .result value
  | stack number => exact .stack number
  | card => exact .card
  | assign name value => exact .assign name value
  | declare name => exact .declare name
  | effect effect => exact .effect effect
  | call hpush h _ => exact .call hpush h
  | send _ ih => exact .send ih

/-- A frame is begun below the limit, on top of the others. -/
theorem pushFrame_eq_ok {m m' : Machine} (h : m.pushFrame message me values = .ok m') :
    m.depth < m.world.settings.maxCallDepth ∧ ∃ f : Frame,
      f.message = message ∧ f.me = me ∧ f.args = values ∧ f.locals = [] ∧ f.globals = [] ∧
      m'.context = { m.context with frames := m.context.frames.push f } ∧
      m'.world = { m.world with interrupt := m.world.interrupt.stamp.2 } := by
  rw [pushFrame_eq] at h
  split at h
  · cases h
  next hdepth =>
    cases h
    exact ⟨Nat.not_le.1 hdepth, _, rfl, rfl, rfl, rfl, rfl, rfl, rfl⟩

end Machine

/-! ## Actions -/

namespace Action

variable {α β : Type} {e : Extent} {m m' : Machine}

/-- The machine an action leaves behind, however it ends. -/
def after (x : Action α) (m : Machine) : Machine :=
  match x m with
  | .ok _ m' => m'
  | .error _ m' => m'

theorem after_andThen (x : Action α) (f : Machine → Machine) (m : Machine) :
    (x.andThen f).after m = f (x.after m) := by
  simp only [after, andThen]
  cases x m <;> rfl

theorem after_noting (x : Action α) (note : ScriptError → ScriptError) (m : Machine) :
    (x.noting note).after m = x.after m := by
  simp only [after, noting]
  cases x m with
  | ok a m' => rfl
  | error halt m' => cases halt <;> rfl

/-- Wherever an action begins, it stays on course. -/
def Follows (e : Extent) (x : Action α) : Prop :=
  ∀ m, Machine.Course e m (x.after m)

namespace Follows

theorem widen {x : Action α} (h : x.Follows e) : x.Follows .inside :=
  fun m => (h m).widen

theorem pure (a : α) : Follows e (Pure.pure a : Action α) := fun _ => .refl

theorem fail (f : Failure) : Follows e (Action.fail f : Action α) := fun _ => .refl

theorem outOfFuel : Follows e (Action.outOfFuel : Action α) := fun _ => .refl

theorem get : Follows e (MonadState.get : Action Machine) := fun _ => .refl

theorem ofExcept (x : Except Failure α) : Follows e (Action.ofExcept x) := by
  cases x with
  | ok a => exact pure a
  | error f => exact fail f

theorem ask (read : Machine → α) : Follows e (Action.ask read) := fun _ => .refl

theorem bind {x : Action α} {f : α → Action β} (hx : x.Follows e) (hf : ∀ a, (f a).Follows e) :
    (x >>= f).Follows e := by
  intro m
  have h := hx m
  cases hxm : x m with
  | ok a m₁ =>
    simp only [after, hxm, bind_apply_ok hxm] at h ⊢
    exact h.trans (hf a m₁)
  | error halt m₁ =>
    simp only [after, hxm, bind_apply_error hxm] at h ⊢
    exact h

theorem demand (read : Machine → Except Failure α) : Follows e (Action.demand read) :=
  bind get fun m => ofExcept (read m)

/-- What is read decides how to go on, from the machine it was read off. -/
theorem ask_bind {read : Machine → α} {f : α → Action β}
    (h : ∀ m : Machine, m.Course e ((f (read m)).after m)) : (Action.ask read >>= f).Follows e := h

theorem change {f : Machine → Except Failure Machine}
    (h : ∀ m m', f m = .ok m' → m.Course e m') : Follows e (Action.change f) := by
  intro m
  simp only [after, change_apply]
  cases hf : f m with
  | ok m' => exact h m m' hf
  | error f' => exact .refl

theorem edit {x : Editing Machine Unit} (hx : x.Atomic)
    (h : ∀ m m', x.result m = .ok m' → m.Course e m') : Follows e (Action.edit x) :=
  edit_eq_change hx ▸ change h

theorem changeWorld {f : World → World} (h : ∀ w, World.Change w (f w)) :
    Follows e (Action.changeWorld f) := fun m => .world (h m.world)

theorem setResult (value : Value) : Follows e (Action.setResult value) := fun _ => .result value

theorem noting {x : Action α} (h : x.Follows e) (note : ScriptError → ScriptError) :
    (x.noting note).Follows e := by
  intro m
  rw [after_noting]
  exact h m

theorem resolve (spec : Specifier) : Follows e (Action.resolve spec) :=
  bind get fun _ => bind (changeWorld fun _ => .draws _) fun _ => ofExcept _

theorem navigate (destination : Destination) : Follows e (Action.navigate destination) :=
  changeWorld fun _ => .navigate destination

theorem takeEffect : Follows .inside Action.takeEffect :=
  bind get fun _ => bind (fun _ => .effect none) fun _ => pure _

end Follows

end Action

end CardScript
