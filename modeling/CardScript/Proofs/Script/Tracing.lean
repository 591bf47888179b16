import CardScript.Proofs.Script.Accord

/-!
# Where a failure comes from

While a statement is carried out, handlers are called and blocks inside it are run. If one of these
fails, the statement fails with the very same error: whatever the error of the inner run were made
to be, it is the error that comes out. All other failures of a statement are its own, do not depend
on what is reported from inside, and have no position yet. `Traced` says this of an action that is
given how inner runs are carried out, and every action of the interpreter is traced
(`Traced.carryOut`).
-/

namespace CardScript

variable {α β : Type}

/-! ## Inner runs -/

/-- What may be run inside a statement. -/
inductive Activity where
  | call (owner : Handle) (handler : Handler) (args : List Value)
  | block (statements : List Statement)

/-- How inner runs are carried out. -/
abbrev Inside := Activity → Action Flow

namespace Inside

/-- How handlers are carried out. -/
def calls (inside : Inside) : Invoke := fun owner handler args =>
  inside (.call owner handler args)

/-- Carries out inner runs alike, but makes their errors into others. An error is made anew from
the run that failed, the machine it began with and the error it failed with. -/
def reporting (inside : Inside) (report : Activity → Machine → ScriptError → ScriptError) :
    Inside := fun a m => (inside a).noting (report a m) m

theorem reporting_self (inside : Inside) : inside.reporting (fun _ _ e => e) = inside :=
  funext fun a => Action.noting_id (inside a)

end Inside

/-- Handlers are called from anywhere; the blocks that are run are those of the statement. -/
def Activity.Among (blocks : List (List Statement)) : Activity → Prop
  | call .. => True
  | block statements => statements ∈ blocks

/-- The blocks inside a command. -/
def Command.blocks : Command → List (List Statement)
  | .choose _ whenTrue whenFalse => [whenTrue, whenFalse]
  | .loop _ body => [body]
  | _ => []

/-- Carries out a command, given how what is inside it is carried out. -/
def Command.carryOut (inside : Inside) (loops : Nat) : Command → Action Flow
  | .choose condition whenTrue whenFalse => do
    if ← evalTest inside.calls condition then inside (.block whenTrue)
    else inside (.block whenFalse)
  | .loop kind body => runLoop inside.calls loops kind (inside (.block body))
  | command => execCommand inside.calls loops command

/-- How the interpreter carries out what is inside a statement. -/
def insideOf (invoke : Invoke) (loops : Nat) : Inside
  | .call owner handler args => invoke owner handler args
  | .block statements => execBlock invoke loops statements

theorem Command.carryOut_insideOf (invoke : Invoke) (loops : Nat) (c : Command) :
    c.carryOut (insideOf invoke loops) loops = execCommand invoke loops c := by
  cases c <;> rfl

/-! ## Traced actions -/

/-- If this is an error, it has no position and no handler. -/
def Unplaced : EStateM.Result Halt Machine α → Prop
  | .error (.failed e) _ => e = { failure := e.failure }
  | _ => True

theorem Unplaced.error {halt : Halt} {m m' : Machine}
    (h : Unplaced (.error halt m : EStateM.Result Halt Machine α)) :
    Unplaced (.error halt m' : EStateM.Result Halt Machine β) := by
  cases halt <;> exact h

/-- The action ends like this whatever is reported from inside. -/
def Settles (x : Inside → Action α) (inside : Inside) (m : Machine)
    (r : EStateM.Result Halt Machine α) : Prop :=
  ∀ report, x (inside.reporting report) m = r

/-- The action fails because an inner run does: its error is the one reported of that run. -/
def FailsIn (x : Inside → Action α) (inside : Inside) (m : Machine) (a : Activity)
    (start : Machine) : Prop :=
  ∃ e stop m', inside a start = .error (.failed e) stop ∧
    ∀ report, x (inside.reporting report) m = .error (.failed (report a start e)) m'

theorem Settles.eq {x : Inside → Action α} {inside : Inside} {m : Machine}
    {r : EStateM.Result Halt Machine α} (h : Settles x inside m r) : x inside m = r := by
  have hself := h fun _ _ e => e
  rwa [inside.reporting_self] at hself

/-- With errors as they are, the error that comes out is the one of the inner run. -/
theorem FailsIn.eq {x : Inside → Action α} {inside : Inside} {m start stop : Machine}
    {a : Activity} {e : ScriptError} (h : FailsIn x inside m a start)
    (hinner : inside a start = .error (.failed e) stop) :
    ∃ m', x inside m = .error (.failed e) m' := by
  obtain ⟨e', stop', m', hstop, hreport⟩ := h
  rw [hinner] at hstop
  cases hstop
  have hself := hreport fun _ _ e => e
  rw [inside.reporting_self] at hself
  exact ⟨m', hself⟩

/-- Wherever the action begins, it is settled how it ends, without a position for an error, or it
fails in an inner run. -/
def Traced (blocks : List (List Statement)) (x : Inside → Action α) : Prop :=
  ∀ inside m, (∃ r, Unplaced r ∧ Settles x inside m r) ∨
    ∃ a start, a.Among blocks ∧ FailsIn x inside m a start

namespace Traced

variable {blocks : List (List Statement)}

theorem of_unplaced {x : Action α} (h : ∀ m, Unplaced (x m)) : Traced blocks fun _ => x :=
  fun _ m => .inl ⟨x m, h m, fun _ => rfl⟩

/-- An action that always ends with a value. -/
theorem of_ok {x : Action α} (value : Machine → α) (next : Machine → Machine)
    (h : ∀ m, x m = .ok (value m) (next m)) : Traced blocks fun _ => x :=
  of_unplaced fun m => by
    rw [h]
    trivial

theorem pure (a : α) : Traced blocks fun _ => (Pure.pure a : Action α) :=
  of_ok (fun _ => a) id fun _ => rfl

theorem fail (f : Failure) : Traced blocks fun _ => (Action.fail f : Action α) :=
  of_unplaced fun _ => rfl

theorem outOfFuel : Traced blocks fun _ => (Action.outOfFuel : Action α) :=
  of_unplaced fun _ => trivial

theorem get : Traced blocks fun _ => (MonadState.get : Action Machine) :=
  of_ok id id fun _ => rfl

theorem ofExcept (x : Except Failure α) : Traced blocks fun _ => Action.ofExcept x := by
  cases x with
  | ok a => exact pure a
  | error f => exact fail f

theorem ask (read : Machine → α) : Traced blocks fun _ => Action.ask read :=
  of_ok read id fun _ => rfl

theorem changeWorld (f : World → World) : Traced blocks fun _ => Action.changeWorld f :=
  of_ok (fun _ => ()) (fun m => { m with world := f m.world }) fun _ => rfl

theorem changeContext (f : Context → Context) : Traced blocks fun _ => Action.changeContext f :=
  of_ok (fun _ => ()) (fun m => { m with context := f m.context }) fun _ => rfl

theorem setResult (value : Value) : Traced blocks fun _ => Action.setResult value :=
  changeContext _

theorem bind {x : Inside → Action α} {f : Inside → α → Action β} (hx : Traced blocks x)
    (hf : ∀ a, Traced blocks fun inside => f inside a) :
    Traced blocks fun inside => x inside >>= f inside := by
  intro inside m
  rcases hx inside m with ⟨r, hplace, hr⟩ | ⟨a, start, hamong, e, stop, m', hfails, hx⟩
  · cases r with
    | ok a m₁ =>
      rcases hf a inside m₁ with ⟨r, hplace, hr'⟩ | ⟨b, start, hamong, e, stop, m', hfails, hf⟩
      · exact .inl ⟨r, hplace, fun report => (Action.bind_apply_ok (hr report)).trans (hr' report)⟩
      · exact .inr ⟨b, start, hamong, e, stop, m', hfails, fun report =>
          (Action.bind_apply_ok (hr report)).trans (hf report)⟩
    | error halt m₁ =>
      exact .inl ⟨.error halt m₁, hplace.error, fun report => Action.bind_apply_error (hr report)⟩
  · exact .inr ⟨a, start, hamong, e, stop, m', hfails, fun report =>
      Action.bind_apply_error (hx report)⟩

theorem andThen {x : Inside → Action α} (hx : Traced blocks x) (f : Machine → Machine) :
    Traced blocks fun inside => (x inside).andThen f := by
  intro inside m
  rcases hx inside m with ⟨r, hplace, hr⟩ | ⟨a, start, hamong, e, stop, m', hfails, hx⟩
  · cases r with
    | ok a m₁ =>
      exact .inl ⟨.ok a (f m₁), trivial, fun report => by simp only [Action.andThen, hr report]⟩
    | error halt m₁ =>
      exact .inl ⟨.error halt (f m₁), hplace.error, fun report => by
        simp only [Action.andThen, hr report]⟩
  · exact .inr ⟨a, start, hamong, e, stop, f m', hfails, fun report => by
      simp only [Action.andThen, hx report]⟩

/-- An inner run that fails is where the failure comes from. -/
theorem run {a : Activity} (ha : a.Among blocks) : Traced blocks fun inside => inside a := by
  intro inside m
  cases hm : inside a m with
  | ok flow m' =>
    exact .inl ⟨.ok flow m', trivial, fun report => by
      simp only [Inside.reporting, Action.noting, hm]⟩
  | error halt m' =>
    cases halt with
    | failed e =>
      exact .inr ⟨a, m, ha, e, m', m', hm, fun report => by
        simp only [Inside.reporting, Action.noting, hm]⟩
    | outOfFuel =>
      exact .inl ⟨.error .outOfFuel m', trivial, fun report => by
        simp only [Inside.reporting, Action.noting, hm]⟩

theorem call (owner : Handle) (handler : Handler) (args : List Value) :
    Traced blocks fun inside => inside.calls owner handler args :=
  run (a := .call owner handler args) trivial

/-! ### Elementary actions -/

theorem demand (read : Machine → Except Failure α) : Traced blocks fun _ => Action.demand read :=
  bind get fun m => ofExcept (read m)

theorem edit (x : Editing Machine α) : Traced blocks fun _ => Action.edit x := by
  refine of_unplaced fun m => ?_
  unfold Action.edit
  cases x m with
  | ok a m' => trivial
  | error f m' => rfl

theorem resolve (spec : Specifier) : Traced blocks fun _ => Action.resolve spec :=
  bind get fun _ => bind (changeWorld _) fun _ => ofExcept _

theorem navigate (destination : Destination) : Traced blocks fun _ => Action.navigate destination :=
  changeWorld _

theorem takeEffect : Traced blocks fun _ => Action.takeEffect :=
  bind get fun _ => bind (changeContext _) fun _ => pure _

theorem callBuiltin : Traced blocks fun _ => CardScript.callBuiltin name args := by
  unfold CardScript.callBuiltin callBuiltin?
  cases Builtin.named? name with
  | none => exact fail _
  | some b =>
    exact bind get fun _ => bind (changeWorld _) fun _ => bind (changeWorld _) fun _ => ofExcept _

theorem endOfWay : Traced blocks fun _ => CardScript.endOfWay message passed := by
  unfold CardScript.endOfWay
  split
  · exact pure _
  · exact fail _

theorem usualOwner : Traced blocks fun _ => CardScript.usualOwner type := by
  cases type with
  | card | background => exact bind (demand _) fun _ => pure _
  | button | field | stack => exact demand _

theorem countParts : Traced blocks fun _ => CardScript.countParts type layer owner := by
  refine bind (ask _) fun w => ?_
  split
  · exact pure _
  · exact fail _

theorem pinChunk : Traced blocks fun _ => CardScript.pinChunk chunk text :=
  bind (ask _) fun _ => bind (changeWorld _) fun _ => pure _

theorem settleChunk : Traced blocks fun _ => CardScript.settleChunk slot chunk := by
  unfold CardScript.settleChunk
  split
  · exact pure _
  · exact bind (demand _) fun _ => pinChunk

theorem editStack (x : Editing Stack α) : Traced blocks fun _ => CardScript.editStack number x :=
  edit _

theorem land : Traced blocks fun _ => CardScript.land destination announce := by
  have hshow : Traced blocks fun _ => (do
      CardScript.editStack destination.stack (Stack.showingCard destination.card)
      Action.changeContext fun c =>
        { c with stack := some destination.stack, card := none, result := .empty } : Action Unit) :=
    bind (editStack _) fun _ => changeContext _
  cases announce with
  | true => exact bind (navigate _) fun _ => hshow
  | false => exact hshow

theorem stepBack : Traced blocks fun _ => CardScript.stepBack :=
  bind (ask _) fun _ => bind (changeWorld _) fun _ => pure _

theorem settle : Traced blocks fun _ => CardScript.settle stack card :=
  bind (changeContext _) fun _ => bind takeEffect fun _ => navigate _

theorem insertCard : Traced blocks fun _ => CardScript.insertCard stack :=
  editStack _

theorem insertBackground : Traced blocks fun _ => CardScript.insertBackground stack :=
  bind (ask _) fun _ => bind (changeWorld _) fun _ => pure _

theorem addCard {insert : Nat → Action PartId} (h : ∀ stack, Traced blocks fun _ => insert stack) :
    Traced blocks fun _ => CardScript.addCard insert :=
  bind (demand _) fun stack => bind (h stack) fun _ => bind settle fun _ => pure _

theorem dropCard {id : PartId} : Traced blocks fun _ => CardScript.dropCard stack id := by
  refine bind (ask _) fun wasCurrent => bind (editStack _) fun _ =>
    bind (changeContext _) fun _ => ?_
  split
  · exact bind takeEffect fun _ => bind (ask _) fun _ => navigate _
  · exact pure _

theorem pause : Traced blocks fun _ => CardScript.pause millis :=
  bind (demand _) fun _ => changeWorld _

theorem beepAgain : Traced blocks fun _ => CardScript.beepAgain interval times := by
  induction times with
  | zero => exact pure _
  | succ times ih => exact bind pause fun _ => bind (changeWorld _) fun _ => ih

theorem beepTimes : Traced blocks fun _ => CardScript.beepTimes times := by
  unfold CardScript.beepTimes
  split
  · exact bind (changeWorld _) fun _ => bind (ask _) fun _ => beepAgain
  · exact pure _

theorem waitFor : Traced blocks fun _ => CardScript.waitFor amount unit := by
  have waiting (seconds : Float) : Traced blocks fun _ => (do
      if 0 < seconds then CardScript.pause (millisOf seconds)
      Action.demand (·.checkAbort) : Action Unit) := by
    split
    · exact bind pause fun _ => demand _
    · exact demand _
  exact waiting _

theorem declareGlobals : Traced blocks fun _ => CardScript.declareGlobals names := by
  induction names with
  | nil => exact pure _
  | cons name names ih =>
    have hdeclare : Traced blocks fun _ => declareGlobal name :=
      bind (of_ok (fun _ => ()) (·.seedGlobal name) fun _ => rfl) fun _ => edit _
    exact bind hdeclare fun _ => ih

/-! ### Messages and functions -/

theorem handlerAt? : Traced blocks fun _ => CardScript.handlerAt? h name isFunction :=
  bind (demand _) fun _ => pure _

/-- On to the next station, if there is one. -/
theorem nextStation? {f : Inside → Option Handle → Action α}
    (hsome : ∀ next, Traced blocks fun inside => f inside (some next))
    (hnone : Traced blocks fun inside => f inside none) :
    Traced blocks fun inside => CardScript.nextStation? h >>= f inside := by
  refine bind (ask _) fun next => ?_
  cases next with
  | some next => exact hsome next
  | none => exact hnone

theorem deliver : Traced blocks fun inside =>
    CardScript.deliver inside.calls message args stations passed h := by
  induction stations generalizing passed h with
  | zero => exact endOfWay
  | succ stations ih =>
    refine bind handlerAt? fun handler => ?_
    cases handler with
    | none => exact nextStation? (fun _ => ih) endOfWay
    | some handler =>
      refine bind (call h handler args) fun flow => ?_
      cases flow with
      | pass => exact nextStation? (fun _ => ih) endOfWay
      | returned value => exact bind (setResult value) fun _ => pure _
      | _ => exact pure _

theorem send : Traced blocks fun inside => CardScript.send inside.calls target message args :=
  bind (ask _) fun _ => bind (changeContext _) fun _ => deliver.andThen _

theorem notify : Traced blocks fun inside => CardScript.notify inside.calls target message := by
  refine bind (ask _) fun locked => ?_
  split
  · exact pure _
  · exact send

theorem callFrom : Traced blocks fun inside =>
    CardScript.callFrom inside.calls name args stations h := by
  induction stations generalizing h with
  | zero => exact callBuiltin
  | succ stations ih =>
    refine bind handlerAt? fun handler => ?_
    cases handler with
    | none => exact nextStation? (fun _ => ih) callBuiltin
    | some handler =>
      refine bind (call h handler args) fun flow => ?_
      cases flow with
      | pass => exact nextStation? (fun _ => ih) callBuiltin
      | _ => exact pure _

theorem callFunction : Traced blocks fun inside =>
    CardScript.callFunction inside.calls name args := by
  refine bind get fun m => ?_
  split
  · exact callFrom
  · exact callFrom
  · exact callBuiltin

/-! ### Expressions -/

mutual

theorem evalExpr : ∀ x, Traced blocks fun inside => CardScript.evalExpr inside.calls x
  | .literal _ _ => pure _
  | .var _ => ask _
  | .binary _ lhs rhs => by
    refine bind (evalExpr lhs) fun v => bind (ofExcept _) fun settled => ?_
    cases settled with
    | some v => exact pure v
    | none => exact bind (evalExpr rhs) fun _ => ofExcept _
  | .unary _ operand => bind (evalExpr operand) fun _ => ofExcept _
  | .chunk c source =>
    bind (evalExpr source) fun _ => bind (evalChunk c) fun _ => bind pinChunk fun _ =>
      bind (ask _) fun _ => pure _
  | .property _ none => demand _
  | .property _ (some p) => bind (evalPart p) fun _ => bind (resolve _) fun _ => demand _
  | .part p => bind (evalPart p) fun _ => bind (resolve _) fun _ => demand _
  | .call _ args => bind (evalArgs args) fun _ => callFunction
  | .countChunks _ source => bind (evalExpr source) fun _ => bind (ask _) fun _ => pure _
  | .countParts _ _ none => bind usualOwner fun _ => countParts
  | .countParts _ _ (some owner) =>
    bind (evalPart owner) fun _ => bind (resolve _) fun _ => countParts

theorem evalArgs : ∀ args, Traced blocks fun inside => CardScript.evalArgs inside.calls args
  | [] => pure _
  | x :: rest => bind (evalExpr x) fun _ => bind (evalArgs rest) fun _ => pure _

theorem evalIndex : ∀ i, Traced blocks fun inside => CardScript.evalIndex inside.calls i
  | .at number => bind (evalExpr number) fun _ => ofExcept _
  | .ordinal _ => pure _

theorem evalStop : ∀ i, Traced blocks fun inside => CardScript.evalStop inside.calls i
  | none => pure _
  | some i => bind (evalIndex i) fun _ => pure _

theorem evalChunk : ∀ c, Traced blocks fun inside => CardScript.evalChunk inside.calls c
  | .mk _ start stop none => bind (evalIndex start) fun _ => bind (evalStop stop) fun _ => pure _
  | .mk _ start stop (some outer) =>
    bind (evalChunk outer) fun _ => bind (evalIndex start) fun _ =>
      bind (evalStop stop) fun _ => pure _

theorem evalPart : ∀ p, Traced blocks fun inside => CardScript.evalPart inside.calls p
  | .id _ _ number => bind (evalExpr number) fun _ => ofExcept _
  | .named _ _ name => bind (evalExpr name) fun _ => pure _
  | .ordinal .. => pure _
  | .position .. => pure _
  | .stack none => pure _
  | .stack (some name) => bind (evalExpr name) fun _ => pure _
  | .of part owner => bind (evalPart owner) fun _ => bind (evalPart part) fun _ => pure _
  | .me => demand _
  | .target => demand _

end

theorem resolvePart : Traced blocks fun inside => CardScript.resolvePart inside.calls p :=
  bind (evalPart p) fun _ => resolve _

theorem addressOf : Traced blocks fun inside => CardScript.addressOf inside.calls slot c := by
  cases c with
  | none => exact pure _
  | some c => exact bind (evalChunk c) fun _ => bind settleChunk fun _ => pure _

theorem evalContainer (c : Container) :
    Traced blocks fun inside => CardScript.evalContainer inside.calls c := by
  cases c with
  | var name chunk => exact addressOf
  | part p chunk => exact bind resolvePart fun _ => addressOf
  | property name p chunk =>
    cases p with
    | none => exact addressOf
    | some p => exact bind resolvePart fun _ => addressOf
  | messageBox => exact pure _

theorem evalTest : Traced blocks fun inside => CardScript.evalTest inside.calls x :=
  bind (evalExpr x) fun _ => ofExcept _

theorem evalInteger : Traced blocks fun inside => CardScript.evalInteger inside.calls x :=
  bind (evalExpr x) fun _ => ofExcept _

/-! ### Going -/

theorem leaveCard : Traced blocks fun inside => CardScript.leaveCard inside.calls := by
  refine bind get fun m => ?_
  split
  · exact bind notify fun _ => pure _
  · exact pure _

theorem arrive : Traced blocks fun inside =>
    CardScript.arrive inside.calls destination announce := by
  simp only [arrive_eq]
  refine bind leaveCard fun goOn => ?_
  split
  · exact bind land fun _ => bind notify fun _ => pure _
  · exact pure _

theorem go : Traced blocks fun inside => CardScript.go inside.calls destination := by
  refine bind takeEffect fun effect => ?_
  cases destination with
  | some p =>
    refine bind (evalPart p) fun spec => bind get fun m => bind (changeWorld _) fun _ => ?_
    split
    · exact arrive
    · exact bind (setResult _) fun _ => pure _
  | none =>
    simp only [goBack_eq]
    refine bind stepBack fun previous => ?_
    cases previous with
    | some previous => exact arrive
    | none => exact bind (setResult _) fun _ => pure _

theorem makeCard : Traced blocks fun inside => CardScript.makeCard inside.calls := by
  simp only [makeCard_eq]
  exact bind (addCard fun _ => insertCard) fun _ => bind notify fun _ => pure _

theorem makeBackground : Traced blocks fun inside => CardScript.makeBackground inside.calls := by
  simp only [makeBackground_eq]
  exact bind (addCard fun _ => insertBackground) fun _ => bind notify fun _ => pure _

theorem removeCard : Traced blocks fun inside => CardScript.removeCard inside.calls h := by
  cases hpart : h.found.part with
  | card id =>
    simp only [removeCard_eq _ hpart]
    refine bind notify fun flow => ?_
    split
    · exact pure _
    · exact bind dropCard fun _ => pure _
  | stack | background | part =>
    have hrefused (invoke : Invoke) : CardScript.removeCard invoke h =
        Action.ask (fun m => m.world.describe h) >>= fun part =>
          Action.fail (.semantic (.notDeletable part)) := by
      unfold CardScript.removeCard
      rw [hpart]
    simp only [hrefused]
    exact bind (ask _) fun _ => fail _

/-! ### Statements -/

theorem sendText : Traced blocks fun inside => CardScript.sendText inside.calls text target := by
  unfold CardScript.sendText
  split
  split
  · exact fail _
  cases target with
  | some p => exact bind resolvePart fun _ => bind send fun _ => pure _
  | none => exact bind (demand _) fun _ => bind send fun _ => pure _

theorem updateContainer : Traced blocks fun inside =>
    CardScript.updateContainer inside.calls op value target :=
  bind (evalExpr value) fun _ => bind (evalContainer target) fun _ => bind (demand _) fun _ =>
    bind (ofExcept _) fun _ => bind (edit _) fun _ => pure _

theorem setProperty : Traced blocks fun inside =>
    CardScript.setProperty inside.calls name value part := by
  cases part with
  | some p => exact bind resolvePart fun _ => edit _
  | none => exact edit _

section Loops

variable {body : Inside → Action Flow}

theorem passThrough (hbody : Traced blocks body) :
    Traced blocks fun inside => CardScript.passThrough (body inside) :=
  bind (demand _) fun _ => bind hbody fun _ => pure _

theorem loopWhile {test : Inside → Action Bool} (htest : Traced blocks test)
    (hbody : Traced blocks body) :
    Traced blocks fun inside => CardScript.loopWhile (test inside) (body inside) fuel := by
  induction fuel with
  | zero => exact outOfFuel
  | succ fuel ih =>
    refine bind htest fun goOn => ?_
    split
    · refine bind (passThrough hbody) fun flow => ?_
      cases flow with
      | some flow => exact pure _
      | none => exact ih
    · exact pure _

theorem loopTimes (hbody : Traced blocks body) :
    Traced blocks fun inside => CardScript.loopTimes (body inside) times := by
  induction times with
  | zero => exact pure _
  | succ times ih =>
    refine bind (passThrough hbody) fun flow => ?_
    cases flow with
    | some flow => exact pure _
    | none => exact ih

theorem loopCounting (hbody : Traced blocks body) :
    Traced blocks fun inside =>
      CardScript.loopCounting counter step (body inside) times value := by
  induction times generalizing value with
  | zero => exact pure _
  | succ times ih =>
    refine bind (edit _) fun _ => bind (passThrough hbody) fun flow => ?_
    cases flow with
    | some flow => exact pure _
    | none => exact ih

theorem runLoop (hbody : Traced blocks body) :
    Traced blocks fun inside => CardScript.runLoop inside.calls fuel kind (body inside) := by
  cases kind with
  | forever => exact loopWhile (pure true) hbody
  | count times => exact bind evalInteger fun _ => loopTimes hbody
  | whileTrue condition => exact loopWhile evalTest hbody
  | untilTrue condition => exact loopWhile (bind evalTest fun _ => pure _) hbody
  | counting counter first final down =>
    refine bind evalInteger fun _ => bind evalInteger fun _ => ?_
    split
    · exact loopCounting hbody
    · exact loopCounting hbody

end Loops

/-- Whatever a command does, its failures are its own or come from inner runs. -/
theorem carryOut (loops : Nat) (c : Command) :
    Traced c.blocks fun inside => c.carryOut inside loops := by
  cases c with
  | put value preposition target =>
    exact bind (evalExpr value) fun _ => bind (evalContainer target) fun _ =>
      bind (edit _) fun _ => pure _
  | get value => exact bind (evalExpr value) fun _ => bind (edit _) fun _ => pure _
  | set property part value =>
    exact bind (evalExpr value) fun _ => bind setProperty fun _ => pure _
  | global names => exact bind declareGlobals fun _ => pure _
  | add | subtract | multiply | divide => exact updateContainer
  | go destination => exact Traced.go
  | beep count =>
    cases count with
    | none => exact bind beepTimes fun _ => pure _
    | some count => exact bind evalInteger fun _ => bind beepTimes fun _ => pure _
  | wait duration unit =>
    exact bind (evalExpr duration) fun _ => bind (ofExcept _) fun _ => bind waitFor fun _ => pure _
  | send message target => exact bind (evalExpr message) fun _ => sendText
  | visualEffect effect => exact bind (evalExpr effect) fun _ => bind (edit _) fun _ => pure _
  | newCard => exact makeCard
  | newBackground => exact makeBackground
  | deleteCard part =>
    cases part with
    | none => exact bind (demand _) fun _ => removeCard
    | some p => exact bind resolvePart fun _ => removeCard
  | message name args =>
    exact bind (evalArgs args) fun _ => bind (demand _) fun _ => bind Traced.send fun _ => pure _
  | choose condition whenTrue whenFalse =>
    refine bind evalTest fun holds => ?_
    split
    · exact run (List.mem_cons_self ..)
    · exact run (List.mem_cons_of_mem _ (List.mem_singleton.2 rfl))
  | loop kind body => exact runLoop (run (List.mem_singleton.2 rfl))
  | giveBack value =>
    cases value with
    | none => exact pure _
    | some value => exact bind (evalExpr value) fun _ => pure _
  | exitRepeat | nextRepeat | exitHandler | exitToHyperCard | pass => exact pure _

end Traced

end CardScript
