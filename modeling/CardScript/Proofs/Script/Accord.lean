import CardScript.Proofs.Script.Moving
import CardScript.Proofs.Script.Soundness

/-!
# Runs in accord

Two ways of carrying out handlers make two interpreters. An accord is a relation between actions
that holds between an elementary action and itself, passes from actions to their composition, and
knows what scripts may hold. Where it holds between the handlers, it holds between the two
evaluations of an expression (`Accord.evalExpr`). If it also bears with moves and with open-ended
loops (`Concord`), it holds between the two ways of carrying out a block (`Concord.execBlock`).
-/

namespace CardScript

/-! ## What blocks and scripts hold -/

mutual

/-- A test of all commands inside a command, itself included. -/
def Command.every (test : Command → Bool) : Command → Bool
  | .choose condition whenTrue whenFalse =>
    test (.choose condition whenTrue whenFalse) && everyIn test whenTrue && everyIn test whenFalse
  | .loop kind body => test (.loop kind body) && everyIn test body
  | command => test command

def Statement.every (test : Command → Bool) : Statement → Bool
  | .mk _ command => command.every test

/-- A test of all commands in a block. -/
def everyIn (test : Command → Bool) : List Statement → Bool
  | [] => true
  | s :: rest => s.every test && everyIn test rest

end

mutual

theorem Command.every_true : ∀ c : Command, c.every fun _ => true
  | .choose _ whenTrue whenFalse => by
    simp only [Command.every, everyIn_true whenTrue, everyIn_true whenFalse, Bool.and_self]
  | .loop _ body => by simp only [Command.every, everyIn_true body, Bool.and_self]
  | .put .. | .get _ | .set .. | .global _ | .add .. | .subtract .. | .multiply .. | .divide ..
  | .go _ | .beep _ | .wait .. | .send .. | .visualEffect _ | .newCard | .newBackground
  | .deleteCard _ | .message .. | .exitRepeat | .nextRepeat | .exitHandler | .exitToHyperCard
  | .pass | .giveBack _ => rfl

theorem everyIn_true : ∀ block : List Statement, everyIn (fun _ => true) block
  | [] => rfl
  | .mk _ c :: rest => by
    simp only [everyIn, Statement.every, c.every_true, everyIn_true rest, Bool.and_self]

end

/-- A test of all commands that come with a request. -/
def Request.every (test : Command → Bool) : Request → Bool
  | .send .. => true
  | .eval _ statements => everyIn test statements

/-- A test of all commands in the handlers of a script. -/
def Script.every (test : Command → Bool) (s : Script) : Bool :=
  s.handlers.all fun h => everyIn test h.body

namespace Script

variable {s : Script} {h : Handler} {test : Command → Bool}

theorem every_of_handler? (hs : s.every test) (hfind : s.handler? name isFunction = some h) :
    everyIn test h.body :=
  List.all_eq_true.1 hs h (List.mem_of_find?_eq_some hfind)

theorem isFunction_of_handler? (hfind : s.handler? name isFunction = some h) :
    h.isFunction = isFunction := by
  have hanswers := List.find?_some hfind
  simp only [Handler.answers, Bool.and_eq_true, beq_iff_eq] at hanswers
  exact hanswers.1

end Script

/-- Either the part is gone, or its script is searched. -/
theorem handlerAt?_bind {α : Type} (h : Handle) (name : String) (isFunction : Bool) (m : Machine) :
    (∃ failure, ∀ f : Option Handler → Action α,
      (handlerAt? h name isFunction >>= f) m = .error (.failed { failure }) m) ∨
    ∃ script, (m.world.stack h.stack).scriptOf h.found.part = .ok script ∧
      ∀ f : Option Handler → Action α,
        (handlerAt? h name isFunction >>= f) m = f (script.handler? name isFunction) m := by
  have hbind (f : Option Handler → Action α) :
      (handlerAt? h name isFunction >>= f) =
        Action.demand (fun m => m.world.scriptOf h) >>= fun script =>
          f (script.handler? name isFunction) := by
    simp only [handlerAt?, bind_assoc, pure_bind]
  cases hscript : m.world.scriptOf h with
  | ok script =>
    refine .inr ⟨script, hscript, fun f => ?_⟩
    rw [hbind, Action.bind_apply_ok (Action.demand_of_ok hscript)]
  | error failure =>
    refine .inl ⟨failure, fun f => ?_⟩
    rw [hbind, Action.bind_apply_error (Action.demand_of_error hscript)]

/-! ## Expressions -/

/-- A relation between actions that is closed under what evaluation is made of. Where an answer may
tell that everything is to end, the relation may depend on which one does. -/
structure Accord where
  /-- The commands that scripts may hold. -/
  allows : Command → Bool
  Rel : ∀ {α : Type}, (exit : Option α) → Action α → Action α → Prop
  stays : ∀ {α : Type} {exit : Option α} {x : Action α}, x.Stays → Rel exit x x
  bind : ∀ {α β : Type} {exit : Option β} {x y : Action α} {f g : α → Action β},
    Rel none x y → (∀ a, Rel exit (f a) (g a)) → Rel exit (x >>= f) (y >>= g)
  /-- What comes after an answer that ends everything only hands it on. -/
  follow : ∀ {α β : Type} {exit : α} {exit' : β} {x y : Action α} {f g : α → Action β},
    Rel (some exit) x y → (∀ a, Rel (some exit') (f a) (g a)) →
    f exit = Pure.pure exit' → g exit = Pure.pure exit' → Rel (some exit') (x >>= f) (y >>= g)
  handlerAt : ∀ {α : Type} {exit : Option α} {h : Handle} {name : String} {isFunction : Bool}
    {f g : Option Handler → Action α},
    Rel exit (f none) (g none) →
    (∀ handler, handler.isFunction = isFunction → everyIn allows handler.body →
      Rel exit (f (some handler)) (g (some handler))) →
    Rel exit (handlerAt? h name isFunction >>= f) (handlerAt? h name isFunction >>= g)

namespace Accord

variable {α : Type} {A : Accord} {exit : Option α} {left right : Invoke}

/-- Between actions that evaluate something. -/
abbrev Same (A : Accord) (x y : Action α) : Prop := A.Rel none x y

/-- Between ways for a statement to end. -/
abbrev Flows (A : Accord) (x y : Action Flow) : Prop := A.Rel (some .exitToHyperCard) x y

/-- Both ways of carrying out functions are in accord. -/
def Calls (A : Accord) (left right : Invoke) : Prop :=
  ∀ owner handler args, handler.isFunction → everyIn A.allows handler.body →
    A.Same (left owner handler args) (right owner handler args)

/-- An elementary action first. -/
theorem after {β : Type} {x : Action β} {f g : β → Action α} (hx : x.Stays)
    (hf : ∀ a, A.Rel exit (f a) (g a)) : A.Rel exit (x >>= f) (x >>= g) :=
  A.bind (A.stays hx) hf

theorem pure (a : α) : A.Rel exit (Pure.pure a : Action α) (Pure.pure a) := A.stays (.pure a)

/-- On to the next station, if there is one. -/
theorem nextStation? {f g : Option Handle → Action α}
    (hsome : ∀ next, A.Rel exit (f (some next)) (g (some next)))
    (hnone : A.Rel exit (f none) (g none)) :
    A.Rel exit (CardScript.nextStation? h >>= f) (CardScript.nextStation? h >>= g) := by
  refine after (.ask _) fun next => ?_
  cases next with
  | some next => exact hsome next
  | none => exact hnone

theorem callFrom (hcalls : A.Calls left right) :
    A.Same (CardScript.callFrom left name args stations h)
      (CardScript.callFrom right name args stations h) := by
  induction stations generalizing h with
  | zero => exact A.stays callBuiltin_stays
  | succ stations ih =>
    refine A.handlerAt ?_ fun handler hfunction hbody => ?_
    · exact nextStation? (fun _ => ih) (A.stays callBuiltin_stays)
    refine A.bind (hcalls h handler args hfunction hbody) fun flow => ?_
    cases flow with
    | pass => exact nextStation? (fun _ => ih) (A.stays callBuiltin_stays)
    | _ => exact pure _

theorem callFunction (hcalls : A.Calls left right) :
    A.Same (CardScript.callFunction left name args) (CardScript.callFunction right name args) := by
  refine after .get fun m => ?_
  split
  · exact callFrom hcalls
  · exact callFrom hcalls
  · exact A.stays callBuiltin_stays

mutual

theorem evalExpr (hcalls : A.Calls left right) :
    ∀ x, A.Same (CardScript.evalExpr left x) (CardScript.evalExpr right x)
  | .literal _ _ => pure _
  | .var _ => A.stays (.ask _)
  | .binary op lhs rhs => by
    refine A.bind (evalExpr hcalls lhs) fun v => after (.ofExcept _) fun settled => ?_
    cases settled with
    | some v => exact pure v
    | none => exact A.bind (evalExpr hcalls rhs) fun _ => A.stays (.ofExcept _)
  | .unary _ operand => A.bind (evalExpr hcalls operand) fun _ => A.stays (.ofExcept _)
  | .chunk c source =>
    A.bind (evalExpr hcalls source) fun _ => A.bind (evalChunk hcalls c) fun _ =>
      A.stays (.bind pinChunk_stays fun _ => .bind (.ask _) fun _ => .pure _)
  | .property _ none => A.stays (.demand _)
  | .property _ (some p) =>
    A.bind (evalPart hcalls p) fun _ => A.stays (.bind (.resolve _) fun _ => .demand _)
  | .part p => A.bind (evalPart hcalls p) fun _ => A.stays (.bind (.resolve _) fun _ => .demand _)
  | .call _ args => A.bind (evalArgs hcalls args) fun _ => callFunction hcalls
  | .countChunks _ source =>
    A.bind (evalExpr hcalls source) fun _ => A.stays (.bind (.ask _) fun _ => .pure _)
  | .countParts _ _ none => A.stays (.bind usualOwner_stays fun _ => countParts_stays)
  | .countParts _ _ (some owner) =>
    A.bind (evalPart hcalls owner) fun _ => A.stays (.bind (.resolve _) fun _ => countParts_stays)

theorem evalArgs (hcalls : A.Calls left right) :
    ∀ args, A.Same (CardScript.evalArgs left args) (CardScript.evalArgs right args)
  | [] => pure _
  | x :: rest =>
    A.bind (evalExpr hcalls x) fun _ => A.bind (evalArgs hcalls rest) fun _ => pure _

theorem evalIndex (hcalls : A.Calls left right) :
    ∀ i, A.Same (CardScript.evalIndex left i) (CardScript.evalIndex right i)
  | .at number => A.bind (evalExpr hcalls number) fun _ => A.stays (.ofExcept _)
  | .ordinal _ => pure _

theorem evalStop (hcalls : A.Calls left right) :
    ∀ i, A.Same (CardScript.evalStop left i) (CardScript.evalStop right i)
  | none => pure _
  | some i => A.bind (evalIndex hcalls i) fun _ => pure _

theorem evalChunk (hcalls : A.Calls left right) :
    ∀ c, A.Same (CardScript.evalChunk left c) (CardScript.evalChunk right c)
  | .mk _ start stop none =>
    A.bind (evalIndex hcalls start) fun _ => A.bind (evalStop hcalls stop) fun _ => pure _
  | .mk _ start stop (some outer) =>
    A.bind (evalChunk hcalls outer) fun _ => A.bind (evalIndex hcalls start) fun _ =>
      A.bind (evalStop hcalls stop) fun _ => pure _

theorem evalPart (hcalls : A.Calls left right) :
    ∀ p, A.Same (CardScript.evalPart left p) (CardScript.evalPart right p)
  | .id _ _ number => A.bind (evalExpr hcalls number) fun _ => A.stays (.ofExcept _)
  | .named _ _ name => A.bind (evalExpr hcalls name) fun _ => pure _
  | .ordinal .. => pure _
  | .position .. => pure _
  | .stack none => pure _
  | .stack (some name) => A.bind (evalExpr hcalls name) fun _ => pure _
  | .of part owner =>
    A.bind (evalPart hcalls owner) fun _ => A.bind (evalPart hcalls part) fun _ => pure _
  | .me => A.stays (.demand _)
  | .target => A.stays (.demand _)

end

theorem resolvePart (hcalls : A.Calls left right) :
    A.Same (CardScript.resolvePart left p) (CardScript.resolvePart right p) :=
  A.bind (evalPart hcalls p) fun _ => A.stays (.resolve _)

theorem addressOf (hcalls : A.Calls left right) :
    A.Same (CardScript.addressOf left slot c) (CardScript.addressOf right slot c) := by
  cases c with
  | none => exact pure _
  | some c =>
    exact A.bind (evalChunk hcalls c) fun _ =>
      A.stays (.bind settleChunk_stays fun _ => .pure _)

theorem evalContainer (hcalls : A.Calls left right) (c : Container) :
    A.Same (CardScript.evalContainer left c) (CardScript.evalContainer right c) := by
  cases c with
  | var name chunk => exact addressOf hcalls
  | part p chunk => exact A.bind (resolvePart hcalls) fun _ => addressOf hcalls
  | property name p chunk =>
    cases p with
    | none => exact addressOf hcalls
    | some p => exact A.bind (resolvePart hcalls) fun _ => addressOf hcalls
  | messageBox => exact pure _

theorem evalTest (hcalls : A.Calls left right) :
    A.Same (CardScript.evalTest left x) (CardScript.evalTest right x) :=
  A.bind (evalExpr hcalls x) fun _ => A.stays (.ofExcept _)

theorem evalInteger (hcalls : A.Calls left right) :
    A.Same (CardScript.evalInteger left x) (CardScript.evalInteger right x) :=
  A.bind (evalExpr hcalls x) fun _ => A.stays (.ofExcept _)

theorem updateContainer (hcalls : A.Calls left right) :
    A.Flows (CardScript.updateContainer left op value target)
      (CardScript.updateContainer right op value target) := by
  refine A.bind (evalExpr hcalls value) fun _ => A.bind (evalContainer hcalls target) fun _ => ?_
  exact A.stays (.bind (.demand _) fun _ => .bind (.ofExcept _) fun _ =>
    .bind (write_stays ..) fun _ => .pure _)

theorem setProperty (hcalls : A.Calls left right) :
    A.Same (CardScript.setProperty left name value part)
      (CardScript.setProperty right name value part) := by
  cases part with
  | some p =>
    exact A.bind (resolvePart hcalls) fun _ => A.stays (setPartProperty_stays ..)
  | none => exact A.stays (setWorldProperty_stays ..)

theorem passThrough {pass pass' : Action Flow} (hpass : A.Flows pass pass') :
    A.Rel (some (some .exitToHyperCard)) (CardScript.passThrough pass)
      (CardScript.passThrough pass') :=
  after (.demand _) fun _ => A.follow hpass (fun _ => pure _) rfl rfl

/-- Open-ended loops that go round equally often are in accord, if running out of fuel is. -/
theorem loopWhile {test test' : Action Bool} {pass pass' : Action Flow}
    (hout : A.Flows Action.outOfFuel Action.outOfFuel) (htest : A.Same test test')
    (hpass : A.Flows pass pass') :
    A.Flows (CardScript.loopWhile test pass fuel) (CardScript.loopWhile test' pass' fuel) := by
  induction fuel with
  | zero => exact hout
  | succ fuel ih =>
    refine A.bind htest fun goOn => ?_
    split
    · refine A.follow (passThrough hpass) (fun flow => ?_) rfl rfl
      cases flow with
      | some flow => exact pure _
      | none => exact ih
    · exact pure _

end Accord

/-! ## Statements -/

theorem Action.noting_andThen {α : Type} (x : Action α) (f : Machine → Machine)
    (note : ScriptError → ScriptError) :
    (x.andThen f).noting note = (x.noting note).andThen f := by
  funext m
  simp only [noting, andThen]
  cases x m with
  | ok a m' => rfl
  | error halt m' => cases halt <;> rfl

theorem Action.noting_id {α : Type} (x : Action α) : x.noting id = x := by
  funext m
  simp only [noting]
  cases x m with
  | ok a m' => rfl
  | error halt m' => cases halt <;> rfl

/-- Carries something out in a frame of its own. -/
def Action.inFrame {α : Type} (note : ScriptError → ScriptError) (name : String)
    (me : Option Handle) (args : List Value) (x : Action α) : Action α := do
  (Action.edit (Machine.pushingFrame name me args)).noting note
  x.andThen Machine.popFrame

theorem Action.inFrame_apply {α : Type} (note : ScriptError → ScriptError) (name : String)
    (me : Option Handle) (args : List Value) (x : Action α) (m : Machine) :
    x.inFrame note name me args m =
      match m.pushFrame name me args with
      | .ok m₁ => x.andThen Machine.popFrame m₁
      | .error f => .error (.failed (note { failure := f })) m := by
  have hpush := Action.change_apply (fun m => m.pushFrame name me args) m
  rw [inFrame, Action.edit_eq_change (Machine.pushingFrame_atomic ..)]
  change ((Action.change fun m => m.pushFrame name me args).noting note >>= _) m = _
  cases hframe : m.pushFrame name me args with
  | ok m₁ =>
    rw [hframe] at hpush
    exact Action.bind_apply_ok (a := ()) (by simp only [noting, hpush])
  | error f =>
    rw [hframe] at hpush
    exact Action.bind_apply_error (by simp only [noting, hpush])

/-- What a handler does in its frame. -/
def handlerBody (invoke : Invoke) (fuel : Nat) (handler : Handler) (args : List Value) :
    Action Flow :=
  let body : Action Flow := do
    bindParams handler.params args
    execBlock invoke fuel handler.body
  body.noting (·.inHandler handler.name.spelling)

theorem runHandler_eq (invoke : Invoke) (fuel : Nat) (owner : Handle) (handler : Handler)
    (args : List Value) :
    runHandler invoke fuel owner handler args =
      (handlerBody invoke fuel handler args).inFrame
        (fun e => (e.atSpan handler.span).inHandler handler.name.spelling)
        handler.name.spelling (some owner) args := by
  simp only [runHandler, handlerBody, Action.inFrame, Action.noting_andThen]

/-- What loose statements do in their frame. -/
def statementsBody (invoke : Invoke) (fuel : Nat) (statements : List Statement) : Action Value := do
  discard (execBlock invoke fuel statements)
  Action.ask fun m => (m.lookup? ⟨"it"⟩).getD .empty

theorem runStatements_eq (fuel : Nat) (statements : List Statement) :
    runStatements fuel statements =
      (statementsBody (invoke fuel) fuel statements).inFrame id "" none [] := by
  simp only [runStatements, statementsBody, Action.inFrame, Action.noting_id]

/-- A loop that need not end. -/
def LoopKind.isOpenEnded : LoopKind → Bool
  | .forever | .whileTrue _ | .untilTrue _ => true
  | .count _ | .counting .. => false

/-- What errors are given on their way: something they lack, and never another failure. -/
structure ScriptError.Adds (note : ScriptError → ScriptError) : Prop where
  failure : ∀ e, (note e).failure = e.failure
  located : ∀ e, e.span.isSome → e.handler.isSome → note e = e

theorem ScriptError.adds_atSpan (span : Span) : Adds (·.atSpan span) := by
  refine ⟨fun _ => rfl, fun e hspan _ => ?_⟩
  obtain ⟨known, hknown⟩ := Option.isSome_iff_exists.1 hspan
  simp only [atSpan, hknown, Option.some_or]
  rw [← hknown]

theorem ScriptError.adds_inHandler (name : String) : Adds (·.inHandler name) := by
  refine ⟨fun _ => rfl, fun e _ hhandler => ?_⟩
  obtain ⟨known, hknown⟩ := Option.isSome_iff_exists.1 hhandler
  simp only [inHandler, hknown, Option.some_or]
  rw [← hknown]

/-- An accord that bears with moves, and with the open-ended loops it allows, which may go round
`fuel` times on one side and `fuel'` times on the other. -/
structure Concord (fuel fuel' : Nat) extends Accord where
  noting : ∀ {x y : Action Flow} {note : ScriptError → ScriptError}, ScriptError.Adds note →
    toAccord.Flows x y → toAccord.Flows (x.noting note) (y.noting note)
  andThen : ∀ {x y : Action Flow} {f : Machine → Machine}, (∀ m : Machine, m.Stays (f m)) →
    (∀ m, (f m).world = m.world) → toAccord.Flows x y →
    toAccord.Flows (x.andThen f) (y.andThen f)
  loopWhile : ∀ {kind : LoopKind} {body : List Statement} {test test' : Action Bool}
    {pass pass' : Action Flow}, kind.isOpenEnded → allows (.loop kind body) →
    toAccord.Same test test' → toAccord.Flows pass pass' →
    toAccord.Flows (loopWhile test pass fuel) (loopWhile test' pass' fuel')
  land : ∀ {destination : Destination},
    toAccord.Same (land destination true) (land destination true)
  goBack : allows (.go none) → toAccord.Same stepBack stepBack ∧
    ∀ destination, toAccord.Same (CardScript.land destination false)
      (CardScript.land destination false)
  addCard : toAccord.Same (addCard insertCard) (addCard insertCard)
  addBackground : toAccord.Same (CardScript.addCard insertBackground)
    (CardScript.addCard insertBackground)
  dropCard : ∀ {stack : Nat} {id : PartId}, toAccord.Same (dropCard stack id) (dropCard stack id)

namespace Concord

open Accord (pure after)

variable {fuel fuel' : Nat} {C : Concord fuel fuel'} {left right : Invoke}

/-- Both ways of carrying out handlers are in accord. -/
structure Invokes (C : Concord fuel fuel') (left right : Invoke) : Prop where
  calls : C.Calls left right
  messages : ∀ owner handler args, handler.isFunction = false → everyIn C.allows handler.body →
    C.Flows (left owner handler args) (right owner handler args)

/-! ### Messages -/

theorem deliver (hinvoke : C.Invokes left right) :
    C.Flows (CardScript.deliver left message args stations passed h)
      (CardScript.deliver right message args stations passed h) := by
  induction stations generalizing passed h with
  | zero => exact C.stays endOfWay_stays
  | succ stations ih =>
    refine C.handlerAt ?_ fun handler hmessage hbody => ?_
    · exact Accord.nextStation? (fun _ => ih) (C.stays endOfWay_stays)
    refine C.follow (hinvoke.messages h handler args hmessage hbody) (fun flow => ?_) rfl rfl
    cases flow with
    | pass => exact Accord.nextStation? (fun _ => ih) (C.stays endOfWay_stays)
    | returned value => exact after (.setResult value) fun _ => pure _
    | _ => exact pure _

theorem send (hinvoke : C.Invokes left right) :
    C.Flows (CardScript.send left target message args)
      (CardScript.send right target message args) :=
  after (.ask _) fun _ => after (.changeContext (fun _ => rfl) fun _ => rfl) fun _ =>
    C.andThen (fun _ => .context rfl rfl) (fun _ => rfl) (deliver hinvoke)

theorem notify (hinvoke : C.Invokes left right) (target : Handle) (message : String) :
    C.Flows (CardScript.notify left target message) (CardScript.notify right target message) := by
  refine after (.ask _) fun locked => ?_
  split
  · exact pure _
  · exact send hinvoke

/-! ### Going -/

theorem arrive (hinvoke : C.Invokes left right)
    (hland : C.Same (CardScript.land destination announce)
      (CardScript.land destination announce)) :
    C.Flows (CardScript.arrive left destination announce)
      (CardScript.arrive right destination announce) := by
  have hleave : C.Rel (some false) (leaveCard left) (leaveCard right) := by
    refine after .get fun m => ?_
    split
    · exact C.follow (notify hinvoke _ _) (fun _ => pure _) rfl rfl
    · exact pure _
  rw [arrive_eq, arrive_eq]
  refine C.follow hleave (fun goOn => ?_) rfl rfl
  split
  · exact C.bind hland fun _ => C.follow (notify hinvoke _ _) (fun _ => pure _) rfl rfl
  · exact pure _

theorem goTo (hinvoke : C.Invokes left right) :
    C.Flows (CardScript.goTo left p effect) (CardScript.goTo right p effect) := by
  refine C.bind (Accord.evalPart hinvoke.calls p) fun spec => after .get fun m =>
    after (.skipDraws _) fun _ => ?_
  split
  · exact arrive hinvoke C.land
  · exact after (.setResult _) fun _ => pure _

theorem go (hinvoke : C.Invokes left right) (hallows : C.allows (.go destination)) :
    C.Flows (CardScript.go left destination) (CardScript.go right destination) := by
  refine after .takeEffect fun effect => ?_
  cases destination with
  | some p => exact goTo hinvoke
  | none =>
    obtain ⟨hstep, hland⟩ := C.goBack hallows
    show C.Flows (CardScript.goBack left) (CardScript.goBack right)
    rw [goBack_eq, goBack_eq]
    refine C.bind hstep fun previous => ?_
    cases previous with
    | some previous => exact arrive hinvoke (hland previous)
    | none => exact after (.setResult _) fun _ => pure _

theorem makeCard (hinvoke : C.Invokes left right) :
    C.Flows (CardScript.makeCard left) (CardScript.makeCard right) := by
  rw [makeCard_eq, makeCard_eq]
  exact C.bind C.addCard fun _ => C.follow (notify hinvoke _ _) (fun _ => pure _) rfl rfl

theorem makeBackground (hinvoke : C.Invokes left right) :
    C.Flows (CardScript.makeBackground left) (CardScript.makeBackground right) := by
  rw [makeBackground_eq, makeBackground_eq]
  exact C.bind C.addBackground fun _ => C.follow (notify hinvoke _ _) (fun _ => pure _) rfl rfl

theorem removeCard (hinvoke : C.Invokes left right) :
    C.Flows (CardScript.removeCard left h) (CardScript.removeCard right h) := by
  cases hpart : h.found.part with
  | card id =>
    rw [removeCard_eq left hpart, removeCard_eq right hpart]
    refine C.follow (notify hinvoke _ _) (fun flow => ?_) rfl rfl
    split
    · exact pure _
    · exact C.bind C.dropCard fun _ => pure _
  | _ =>
    unfold CardScript.removeCard
    rw [hpart]
    exact after (.ask _) fun _ => C.stays (.fail _)

/-! ### Sending -/

theorem sendText (hinvoke : C.Invokes left right) :
    C.Flows (CardScript.sendText left text target) (CardScript.sendText right text target) := by
  unfold CardScript.sendText
  split
  split
  · exact C.stays (.fail _)
  cases target with
  | some p =>
    exact C.bind (Accord.resolvePart hinvoke.calls) fun _ =>
      C.follow (send hinvoke) (fun _ => pure _) rfl rfl
  | none => exact after (.demand _) fun _ => C.follow (send hinvoke) (fun _ => pure _) rfl rfl

/-! ### Loops -/

theorem loopTimes {pass pass' : Action Flow} (hpass : C.Flows pass pass') :
    C.Flows (CardScript.loopTimes pass times) (CardScript.loopTimes pass' times) := by
  induction times with
  | zero => exact pure _
  | succ times ih =>
    refine C.follow (Accord.passThrough hpass) (fun flow => ?_) rfl rfl
    cases flow with
    | some flow => exact pure _
    | none => exact ih

theorem loopCounting {pass pass' : Action Flow} (hpass : C.Flows pass pass') :
    C.Flows (CardScript.loopCounting counter step pass times value)
      (CardScript.loopCounting counter step pass' times value) := by
  induction times generalizing value with
  | zero => exact pure _
  | succ times ih =>
    refine after (assign_stays counter _) fun _ =>
      C.follow (Accord.passThrough hpass) (fun flow => ?_) rfl rfl
    cases flow with
    | some flow => exact pure _
    | none => exact ih

theorem runLoop (hinvoke : C.Invokes left right) {pass pass' : Action Flow}
    (hallows : C.allows (.loop kind body)) (hpass : C.Flows pass pass') :
    C.Flows (CardScript.runLoop left fuel kind pass)
      (CardScript.runLoop right fuel' kind pass') := by
  have hcalls := hinvoke.calls
  cases kind with
  | forever => exact C.loopWhile rfl hallows (pure _) hpass
  | count times => exact C.bind (Accord.evalInteger hcalls) fun _ => loopTimes hpass
  | whileTrue condition => exact C.loopWhile rfl hallows (Accord.evalTest hcalls) hpass
  | untilTrue condition =>
    exact C.loopWhile rfl hallows (C.bind (Accord.evalTest hcalls) fun _ => pure _) hpass
  | counting counter first final down =>
    refine C.bind (Accord.evalInteger hcalls) fun _ =>
      C.bind (Accord.evalInteger hcalls) fun _ => ?_
    split
    · exact loopCounting hpass
    · exact loopCounting hpass

/-! ### Blocks -/

mutual

theorem execCommand (hinvoke : C.Invokes left right) :
    ∀ c : Command, c.every C.allows →
      C.Flows (CardScript.execCommand left fuel c) (CardScript.execCommand right fuel' c)
  | .put value _ target, _ =>
    C.bind (Accord.evalExpr hinvoke.calls value) fun _ =>
      C.bind (Accord.evalContainer hinvoke.calls target) fun _ =>
        after (write_stays ..) fun _ => pure _
  | .get value, _ =>
    C.bind (Accord.evalExpr hinvoke.calls value) fun _ => after (assign_stays ..) fun _ => pure _
  | .set _ _ value, _ =>
    C.bind (Accord.evalExpr hinvoke.calls value) fun _ =>
      C.bind (Accord.setProperty hinvoke.calls) fun _ => pure _
  | .global _, _ => after declareGlobals_stays fun _ => pure _
  | .add .., _ => Accord.updateContainer hinvoke.calls
  | .subtract .., _ => Accord.updateContainer hinvoke.calls
  | .multiply .., _ => Accord.updateContainer hinvoke.calls
  | .divide .., _ => Accord.updateContainer hinvoke.calls
  | .go _, hallows => go hinvoke hallows
  | .beep none, _ => after beepTimes_stays fun _ => pure _
  | .beep (some _), _ =>
    C.bind (Accord.evalInteger hinvoke.calls) fun _ => after beepTimes_stays fun _ => pure _
  | .wait duration _, _ =>
    C.bind (Accord.evalExpr hinvoke.calls duration) fun _ => after (.ofExcept _) fun _ =>
      after waitFor_stays fun _ => pure _
  | .send message _, _ =>
    C.bind (Accord.evalExpr hinvoke.calls message) fun _ => sendText hinvoke
  | .visualEffect effect, _ =>
    C.bind (Accord.evalExpr hinvoke.calls effect) fun _ =>
      after (modifyFrame_stays _) fun _ => pure _
  | .newCard, _ => makeCard hinvoke
  | .newBackground, _ => makeBackground hinvoke
  | .deleteCard none, _ => after (.demand _) fun _ => removeCard hinvoke
  | .deleteCard (some _), _ =>
    C.bind (Accord.resolvePart hinvoke.calls) fun _ => removeCard hinvoke
  | .message _ args, _ =>
    C.bind (Accord.evalArgs hinvoke.calls args) fun _ => after (.demand _) fun _ =>
      C.follow (send hinvoke) (fun _ => pure _) rfl rfl
  | .choose condition whenTrue whenFalse, hallows => by
    simp only [Command.every, Bool.and_eq_true] at hallows
    refine C.bind (Accord.evalTest hinvoke.calls) fun holds => ?_
    split
    · exact execBlock hinvoke whenTrue hallows.1.2
    · exact execBlock hinvoke whenFalse hallows.2
  | .loop kind body, hallows => by
    simp only [Command.every, Bool.and_eq_true] at hallows
    exact runLoop hinvoke hallows.1 (execBlock hinvoke body hallows.2)
  | .exitRepeat, _ => pure _
  | .nextRepeat, _ => pure _
  | .exitHandler, _ => pure _
  | .exitToHyperCard, _ => pure _
  | .pass, _ => pure _
  | .giveBack none, _ => pure _
  | .giveBack (some value), _ => C.bind (Accord.evalExpr hinvoke.calls value) fun _ => pure _

theorem execStatement (hinvoke : C.Invokes left right) :
    ∀ s : Statement, s.every C.allows →
      C.Flows (CardScript.execStatement left fuel s) (CardScript.execStatement right fuel' s)
  | .mk span command, hallows =>
    C.noting (ScriptError.adds_atSpan span) (execCommand hinvoke command hallows)

theorem execBlock (hinvoke : C.Invokes left right) :
    ∀ block, everyIn C.allows block →
      C.Flows (CardScript.execBlock left fuel block) (CardScript.execBlock right fuel' block)
  | [], _ => pure _
  | s :: rest, hallows => by
    simp only [everyIn, Bool.and_eq_true] at hallows
    refine C.follow (execStatement hinvoke s hallows.1) (fun flow => ?_) rfl rfl
    cases flow with
    | normal => exact execBlock hinvoke rest hallows.2
    | _ => exact pure _

end

/-! ### Handlers -/

/-- What a handler does in its frame. -/
theorem handlerBody (hinvoke : C.Invokes left right) (hallows : everyIn C.allows handler.body) :
    C.Flows (CardScript.handlerBody left fuel handler args)
      (CardScript.handlerBody right fuel' handler args) :=
  C.noting (ScriptError.adds_inHandler _) <|
    after bindParams_stays fun _ => execBlock hinvoke handler.body hallows

end Concord

end CardScript
