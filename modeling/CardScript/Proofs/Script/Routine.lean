import CardScript.Proofs.Script.Course
import CardScript.Proofs.Script.Recoverable

/-!
# Routine actions

Most of what the interpreter does has to do neither with the table of globals nor with defects of
the library: it reads globals only as variables of the innermost frame and leaves the table as it
is (`Action.Discreet`), and it fails, if it fails, with a failure of the script's own.
-/

namespace CardScript

variable {α β : Type}

/-! ## Routine actions -/

namespace Machine

def withGlobals (m : Machine) (g : Globals) : Machine :=
  { m with world := { m.world with globals := g } }

/-- With these globals, all variables read as before. -/
def ReadsAlike (m : Machine) (g : Globals) : Prop :=
  ∀ name, (m.withGlobals g).lookup? name = m.lookup? name

/-- What is read off a machine depends on globals only through its variables. -/
def Discreet (read : Machine → α) : Prop :=
  ∀ m g, m.ReadsAlike g → read (m.withGlobals g) = read m

end Machine

namespace Action

/-- The same ending on another machine. -/
def onMachine (f : Machine → Machine) :
    EStateM.Result Halt Machine α → EStateM.Result Halt Machine α
  | .ok a m => .ok a (f m)
  | .error halt m => .error halt (f m)

/-- An action that depends on globals only through variables and leaves them as they are. -/
def Discreet (x : Action α) : Prop :=
  ∀ (m : Machine) (g : Globals), m.ReadsAlike g →
    x (m.withGlobals g) = onMachine (·.withGlobals g) (x m)

/-- An action that does not end in a defect when it begins on this machine. -/
def RecoversAt (x : Action α) (m : Machine) : Prop :=
  ∀ error m', x m = .error (.failed error) m' → error.failure.isInternal = false

/-- An action that has to do neither with globals nor with defects. -/
structure Routine (x : Action α) : Prop where
  discreet : x.Discreet
  recovers : ∀ m, x.RecoversAt m

theorem Discreet.demand {read : Machine → Except Failure α} (h : Machine.Discreet read) :
    (Action.demand read).Discreet := by
  intro m g hreads
  rw [demand_apply, demand_apply, h m g hreads]
  cases read m <;> rfl

/-- A change is discreet if it does the same to a machine with other globals. -/
theorem Discreet.change {f : Machine → Except Failure Machine}
    (h : ∀ m g, m.ReadsAlike g → f (m.withGlobals g) = (f m).map (·.withGlobals g)) :
    (Action.change f).Discreet := by
  intro m g hreads
  rw [change_apply, change_apply, h m g hreads]
  cases f m <;> rfl

/-- An edit of a stack does not see the globals. -/
theorem Discreet.editStack (number : Nat) (x : Editing Stack α) :
    (CardScript.editStack number x).Discreet := by
  intro m g _
  have hedit := Machine.onStack_apply number x m
  have hedit' := Machine.onStack_apply number x (m.withGlobals g)
  have hstack : (m.withGlobals g).world.stack number = m.world.stack number := rfl
  rw [hstack] at hedit'
  rw [CardScript.editStack, Action.edit, Action.edit]
  cases h : x (m.world.stack number) with
  | ok | error =>
    rw [h] at hedit hedit'
    rw [hedit, hedit']
    rfl

theorem recoversAt_demand {read : Machine → Except Failure α} {m : Machine}
    (h : Recoverable (read m)) : (Action.demand read).RecoversAt m := by
  intro error m' herror
  cases hm : read m with
  | ok a =>
    rw [demand_of_ok hm] at herror
    cases herror
  | error f =>
    rw [demand_of_error hm] at herror
    cases herror
    exact h.isInternal_eq f hm

theorem recoversAt_change {f : Machine → Except Failure Machine} {m : Machine}
    (h : Recoverable (f m)) : (Action.change f).RecoversAt m := by
  intro error m' herror
  rw [change_apply] at herror
  cases hm : f m with
  | ok m₁ =>
    rw [hm] at herror
    cases herror
  | error f' =>
    rw [hm] at herror
    cases herror
    exact h.isInternal_eq f' hm

theorem recoversAt_editStack {x : Editing Stack α} {m : Machine} {number : Nat}
    (h : Recoverable (x.outcome (m.world.stack number))) : (editStack number x).RecoversAt m := by
  intro error m' herror
  have hedit := Machine.onStack_apply number x m
  rw [editStack, Action.edit] at herror
  cases hx : x (m.world.stack number) with
  | ok a s =>
    rw [hx] at hedit
    rw [hedit] at herror
    cases herror
  | error f s =>
    rw [hx] at hedit
    rw [hedit] at herror
    cases herror
    refine h.isInternal_eq f ?_
    rw [Editing.outcome, hx]

namespace Routine

theorem of_ok {x : Action α} (hx : x.Discreet) (h : ∀ m, ∃ a m', x m = .ok a m') : Routine x := by
  refine ⟨hx, fun m error m' herror => ?_⟩
  obtain ⟨a, m₁, hm⟩ := h m
  rw [hm] at herror
  cases herror

theorem pure (a : α) : Routine (Pure.pure a : Action α) :=
  of_ok (fun _ _ _ => rfl) fun m => ⟨a, m, rfl⟩

theorem outOfFuel : Routine (Action.outOfFuel : Action α) := by
  refine ⟨fun _ _ _ => rfl, fun m error m' herror => ?_⟩
  cases herror

theorem fail (h : f.isInternal = false) : Routine (Action.fail f : Action α) := by
  refine ⟨fun _ _ _ => rfl, fun m error m' herror => ?_⟩
  cases herror
  exact h

theorem ask {read : Machine → α} (h : Machine.Discreet read) : Routine (Action.ask read) := by
  refine of_ok (fun m g hreads => ?_) fun m => ⟨read m, m, rfl⟩
  show EStateM.Result.ok (read (m.withGlobals g)) _ = _
  rw [h m g hreads]
  rfl

theorem demand {read : Machine → Except Failure α} (h : Machine.Discreet read)
    (hread : ∀ m, Recoverable (read m)) : Routine (Action.demand read) :=
  ⟨.demand h, fun m => recoversAt_demand (hread m)⟩

theorem change {f : Machine → Except Failure Machine}
    (h : ∀ m g, m.ReadsAlike g → f (m.withGlobals g) = (f m).map (·.withGlobals g))
    (hf : ∀ m, Recoverable (f m)) : Routine (Action.change f) :=
  ⟨.change h, fun m => recoversAt_change (hf m)⟩

theorem changeWorld {f : World → World}
    (h : ∀ w g, f { w with globals := g } = { f w with globals := g }) :
    Routine (Action.changeWorld f) := by
  refine of_ok (fun m g _ => ?_) fun m => ⟨(), _, rfl⟩
  show EStateM.Result.ok () { m with world := f { m.world with globals := g } } = _
  rw [h]
  rfl

theorem changeContext (f : Context → Context) : Routine (Action.changeContext f) :=
  of_ok (fun _ _ _ => rfl) fun _ => ⟨(), _, rfl⟩

end Routine

theorem after_demand (read : Machine → Except Failure α) (m : Machine) :
    (Action.demand read).after m = m := by
  rw [after, demand_apply]
  cases read m <;> rfl

/-- A discreet action does not change the globals. -/
theorem Discreet.globals_after {x : Action α} (h : x.Discreet) (m : Machine) :
    (x.after m).world.globals = m.world.globals := by
  have hself : x m = onMachine (·.withGlobals m.world.globals) (x m) :=
    h m m.world.globals fun _ => rfl
  unfold after
  rw [hself]
  cases x m <;> rfl

end Action

/-! ## Discreet readings -/

namespace Machine

variable {m : Machine} {g : Globals}

theorem stackFor_withGlobals (spec : Specifier) :
    (m.withGlobals g).stackFor spec = m.stackFor spec := by
  induction spec with
  | of part owner _ ih => exact ih
  | stack name => cases name <;> rfl
  | _ => rfl

theorem resolve_withGlobals (spec : Specifier) :
    (m.withGlobals g).resolve spec = m.resolve spec := by
  unfold resolve
  rw [stackFor_withGlobals]
  rfl

theorem locate_withGlobals (spec : Specifier) :
    locate (m.withGlobals g) spec = locate m spec := by
  unfold locate
  rw [stackFor_withGlobals, resolve_withGlobals]
  rfl

theorem call_withGlobals (b : Builtin) (name : String) (args : List Value) :
    b.call name (m.withGlobals g) args = b.call name m args := by
  cases b <;> rfl

theorem discreet_valueOf (name : Symbol) : Discreet (·.valueOf name) := by
  intro m g hreads
  simp only [valueOf, hreads name]

end Machine

theorem Slot.discreet_current (slot : Slot) : Machine.Discreet slot.current := by
  intro m g hreads
  cases slot with
  | «variable» name =>
    simp only [Slot.current]
    rw [hreads]
  | property name part => cases part <;> rfl
  | _ => rfl

theorem Slot.discreet_read (slot : Slot) : Machine.Discreet slot.read := by
  intro m g hreads
  cases slot with
  | «variable» name => exact congrArg Except.ok (Machine.discreet_valueOf name m g hreads)
  | property name part => cases part <;> rfl
  | _ => rfl

namespace Address

theorem discreet_read (a : Address) : Machine.Discreet a.read := by
  intro m g hreads
  have hread := a.slot.discreet_read m g hreads
  simp only [Address.read, hread]
  rfl

theorem discreet_updated (a : Address) (preposition : Preposition) (value : Value) :
    Machine.Discreet (a.updated · preposition value) := by
  intro m g hreads
  have hcurrent := a.slot.discreet_current m g hreads
  simp only [Address.updated, hcurrent]
  rfl

end Address

end CardScript
