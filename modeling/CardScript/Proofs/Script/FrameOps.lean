import CardScript.Proofs.Script.Writing

/-!
# Operations on frames

Beginning a frame, setting a variable, declaring a global and asking for a visual effect are the
operations on the frames of a run. A frame is refused at the limit, and everything else where there
is no frame (`FrameOp.refusal?`). What is refused leaves the machine alone, with one exception: the
table of globals takes up a name before the frame that is to declare it is looked for
(`refused_traceless_iff`).
-/

namespace CardScript

/-- An operation on the frames of a run. -/
inductive FrameOp where
  /-- A frame begins. That of loose statements has no message, part or arguments. -/
  | push (message : String) (me : Option Handle) (args : List Value)
  | assign (name : Symbol) (value : Value)
  | declare (name : Symbol)
  | setEffect (effect : Option String)

namespace FrameOp

def perform : FrameOp → Action Unit
  | push message me args => Action.edit (Machine.pushingFrame message me args)
  | assign name value => Action.edit (Machine.settingVariable name value)
  | declare name => declareGlobal name
  | setEffect effect => Action.edit (Machine.modifyingFrame fun f => { f with effect })

/-- Why an operation is refused. -/
def refusal? (m : Machine) : FrameOp → Option Failure
  | push .. =>
    if m.world.settings.maxCallDepth ≤ m.depth then some (.semantic .tooMuchRecursion) else none
  | _ => if m.frame?.isNone then some (.internal .noFrame) else none

/-- What a refused operation leaves behind. -/
def residue (m : Machine) : FrameOp → Machine
  | declare name => m.seedGlobal name
  | _ => m

variable {op : FrameOp} {m m' : Machine} {halt : Halt}

/-- An edit that makes its checks first is refused as they say, and then nothing has changed. -/
theorem edit_refused {x : Editing Machine Unit} {refusal? : Option Failure} (hx : x.Atomic)
    (hf : ∀ failure, x.result m = .error failure ↔ refusal? = some failure) :
    Action.edit x m = .error halt m' ↔
      ∃ failure, refusal? = some failure ∧ halt = .failed { failure } ∧ m' = m := by
  rw [Action.edit_eq_change hx, Action.change_apply]
  cases hm : x.result m with
  | ok m₁ =>
    refine ⟨nofun, fun ⟨failure, hrefusal, _⟩ => ?_⟩
    rw [(hf failure).2 hrefusal] at hm
    cases hm
  | error failure =>
    constructor
    · intro h
      cases h
      exact ⟨failure, (hf failure).1 hm, rfl, rfl⟩
    · rintro ⟨failure', hrefusal, rfl, rfl⟩
      rw [(hf failure').2 hrefusal] at hm
      cases hm
      rfl

theorem modifyFrame_refused (m : Machine) (change : Frame → Frame) (failure : Failure) :
    m.modifyFrame change = .error failure ↔
      (if m.frame?.isNone then some (Failure.internal .noFrame) else none) = some failure := by
  rw [Machine.modifyFrame_eq]
  cases m.frame? <;> simp

/-- An operation fails exactly if it is refused. -/
theorem perform_eq_error_iff :
    op.perform m = .error halt m' ↔
      ∃ failure, op.refusal? m = some failure ∧ halt = .failed { failure } ∧
        m' = op.residue m := by
  cases op with
  | push message me args =>
    refine edit_refused (Machine.pushingFrame_atomic message me args) fun failure => ?_
    change m.pushFrame message me args = _ ↔ _
    rw [Machine.pushFrame_eq, refusal?]
    split <;> simp
  | assign name value =>
    refine edit_refused (Machine.settingVariable_atomic name value) fun failure => ?_
    change m.setVariable name value = _ ↔ _
    simp only [Machine.setVariable_eq, refusal?]
    cases m.frame? <;> simp
  | declare name =>
    -- The name has been taken up by the time the frame is looked for.
    have hperform : (declare name).perform m =
        Action.edit (Machine.modifyingFrame (·.declare name)) (m.seedGlobal name) := rfl
    rw [hperform]
    exact edit_refused (Machine.modifyingFrame_atomic _) (modifyFrame_refused (m.seedGlobal name) _)
  | setEffect effect =>
    exact edit_refused (Machine.modifyingFrame_atomic _) (modifyFrame_refused m _)

end FrameOp

/-- **What is refused leaves no trace**, except that a global declared outside any frame is taken up
in the table. If an operation on frames fails, then for the reason given; frames, result, target and
stack of the run are as before, and so are the clock of aborts and all else but the table of
globals. Nothing at all has changed unless the operation was to declare a global that the table did
not have, and then the table has it, empty. -/
theorem refused_traceless_iff (op : FrameOp) (m m' : Machine) (halt : Halt)
    (h : op.perform m = .error halt m') :
    (∃ failure, op.refusal? m = some failure ∧ halt = .failed { failure }) ∧
    m'.context = m.context ∧ m'.world.interrupt = m.world.interrupt ∧
    m' = m.withGlobals m'.world.globals ∧
    (m' = m ↔ ∀ name, op = .declare name → (m.world.globals.get? name).isSome) ∧
    ∀ name, op = .declare name → m.world.globals.get? name = none →
      m'.world.globals = m.world.globals.set name .empty := by
  obtain ⟨failure, hrefusal, rfl, rfl⟩ := FrameOp.perform_eq_error_iff.1 h
  refine ⟨⟨failure, hrefusal, rfl⟩, ?_⟩
  cases op with
  | push message me args | assign name value | setEffect effect =>
    exact ⟨rfl, rfl, rfl, ⟨nofun, fun _ => rfl⟩, nofun⟩
  | declare name =>
    have hglobals : ((FrameOp.declare name).residue m).world.globals =
        m.world.globals.seed name := rfl
    refine ⟨rfl, rfl, rfl, ⟨fun hsame name' hname => ?_, fun hthere => ?_⟩,
      fun name' hname hnew => ?_⟩
    · cases hname
      rw [hsame] at hglobals
      rw [hglobals, Globals.seed]
      split
      next hthere => exact hthere
      next => rw [Globals.get?_set]; rfl
    · have hseed : m.world.globals.seed name = m.world.globals := by
        rw [Globals.seed, if_pos (hthere name rfl)]
      show m.withGlobals (m.world.globals.seed name) = m
      rw [hseed]
      rfl
    · cases hname
      rw [hglobals, Globals.seed, hnew]
      rfl

/-- A second frame is refused where one is the limit, and a global that the table has already is
refused outside any frame. Neither leaves a trace. -/
theorem refused_traceless_iff_atLimit :
    (∃ m m' : Machine, m.depth = 1 ∧
      (FrameOp.push "greet" none []).perform m =
        .error (.failed { failure := .semantic .tooMuchRecursion }) m' ∧ m' = m) ∧
    ∃ m m' : Machine, m.depth = 0 ∧ (m.world.globals.get? ⟨"Total"⟩).isSome ∧
      (FrameOp.declare ⟨"total"⟩).perform m =
        .error (.failed { failure := .internal .noFrame }) m' ∧ m' = m := by
  constructor
  · let m : Machine :=
      { world := { settings := { maxCallDepth := 1 } }
        context := { frames := CallStack.empty.push {} } }
    obtain ⟨m', hrefused⟩ : ∃ m', (FrameOp.push "greet" none []).perform m =
        .error (.failed { failure := .semantic .tooMuchRecursion }) m' := ⟨_, rfl⟩
    obtain ⟨-, -, -, -, htrace, -⟩ := refused_traceless_iff _ m m' _ hrefused
    exact ⟨m, m', rfl, hrefused, htrace.2 nofun⟩
  · let m : Machine := { world := { globals := ⟨[(⟨"Total"⟩, .ofText "3")]⟩ } }
    have hthere : (m.world.globals.get? ⟨"total"⟩).isSome := by decide +kernel
    obtain ⟨m', hrefused⟩ : ∃ m', (FrameOp.declare ⟨"total"⟩).perform m =
        .error (.failed { failure := .internal .noFrame }) m' := ⟨_, rfl⟩
    obtain ⟨-, -, -, -, htrace, -⟩ := refused_traceless_iff _ m m' _ hrefused
    refine ⟨m, m', rfl, by decide +kernel, hrefused, htrace.2 fun name hname => ?_⟩
    cases hname
    exact hthere

/-- A global that is declared outside any frame is refused and is in the table all the same. -/
theorem refused_global_taken_up :
    ∃ m' : Machine, (FrameOp.declare ⟨"total"⟩).perform {} =
        .error (.failed { failure := .internal .noFrame }) m' ∧
      ({} : Machine).world.globals.get? ⟨"total"⟩ = none ∧
      m'.world.globals.get? ⟨"total"⟩ = some .empty :=
  ⟨_, rfl, rfl, rfl⟩

end CardScript
