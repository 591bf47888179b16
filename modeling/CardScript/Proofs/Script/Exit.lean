import CardScript.Proofs.Script.Whereabouts

/-!
# An exit to HyperCard

An exit is a way for a statement to end, and everything around the statement has to hand it on. To
say what that is to come to, handlers are carried out in another way as well, in which the first
message handler to exit throws an error there and then (`stopping`). Errors are handed on by the
monad, so nothing further is done. The two ways agree: where the other way throws, blocks, handlers
and messages end with an exit on the very same machine (`exit_ends_everything`).

Functions are carried out the usual way in both. An expression takes whatever a function ends with
for a value, so an exit that a function comes to ends the function and no more
(`exit_lost_in_function`).
-/

namespace CardScript

variable {α β : Type} {report : World → ScriptError} {m m₁ : Machine} {w : World}

/-! ## Actions -/

/-- The two actions do the same, or the first throws a report of the world where the second answers
an exit. -/
def Action.StopsAs (report : World → ScriptError) (isExit : α → Prop) (x y : Action α) : Prop :=
  ∀ m, x m = y m ∨ ∃ a m', isExit a ∧ x m = .error (.failed (report m'.world)) m' ∧ y m = .ok a m'

namespace Action.StopsAs

variable {isExit : α → Prop}

theorem refl {x : Action α} : StopsAs report isExit x x := fun _ => .inl rfl

theorem bind {isExit : β → Prop} {x : Action α} {f g : α → Action β}
    (hf : ∀ a, StopsAs report isExit (f a) (g a)) : StopsAs report isExit (x >>= f) (x >>= g) := by
  intro m
  cases hm : x m with
  | ok a m₁ =>
    rw [bind_apply_ok hm, bind_apply_ok hm]
    exact hf a m₁
  | error halt m₁ =>
    rw [bind_apply_error hm, bind_apply_error hm]
    exact .inl rfl

/-- What comes after an exit makes an exit of it and changes nothing. -/
theorem follow {isExit' : β → Prop} {x y : Action α} {f g : α → Action β}
    (hx : StopsAs report isExit x y) (hf : ∀ a, StopsAs report isExit' (f a) (g a))
    (hg : ∀ a m, isExit a → ∃ b, isExit' b ∧ g a m = .ok b m) :
    StopsAs report isExit' (x >>= f) (y >>= g) := by
  intro m
  rcases hx m with heq | ⟨a, m₁, ha, hstops, hexits⟩
  · cases hm : y m with
    | ok a m₁ =>
      rw [hm] at heq
      rw [bind_apply_ok hm, bind_apply_ok heq]
      exact hf a m₁
    | error halt m₁ =>
      rw [hm] at heq
      rw [bind_apply_error hm, bind_apply_error heq]
      exact .inl rfl
  · obtain ⟨b, hb, hg⟩ := hg a m₁ ha
    exact .inr ⟨b, m₁, hb, bind_apply_error hstops, (bind_apply_ok hexits).trans hg⟩

theorem handlerAt {f g : Option Handler → Action α}
    (hnone : StopsAs report isExit (f none) (g none))
    (hsome : ∀ handler, handler.isFunction = isFunction →
      StopsAs report isExit (f (some handler)) (g (some handler))) :
    StopsAs report isExit (handlerAt? h name isFunction >>= f)
      (handlerAt? h name isFunction >>= g) := by
  intro m
  obtain ⟨failure, hgone⟩ | ⟨script, -, hsearch⟩ := handlerAt?_bind h name isFunction m
  · rw [hgone, hgone]
    exact .inl rfl
  · rw [hsearch, hsearch]
    cases hfind : script.handler? name isFunction with
    | none => exact hnone m
    | some handler => exact hsome handler (Script.isFunction_of_handler? hfind) m

/-- The report has its place already, so notes leave it alone. -/
theorem noting {x y : Action α} {note : ScriptError → ScriptError} (h : StopsAs report isExit x y)
    (hnote : ∀ w, note (report w) = report w) :
    StopsAs report isExit (x.noting note) (y.noting note) := by
  intro m
  simp only [Action.noting]
  rcases h m with heq | ⟨a, m₁, ha, hstops, hexits⟩
  · rw [heq]
    exact .inl rfl
  · rw [hstops, hexits]
    exact .inr ⟨a, m₁, ha, by simp only [hnote], rfl⟩

theorem andThen {x y : Action α} {f : Machine → Machine} (h : StopsAs report isExit x y)
    (hf : ∀ m, (f m).world = m.world) : StopsAs report isExit (x.andThen f) (y.andThen f) := by
  intro m
  simp only [Action.andThen]
  rcases h m with heq | ⟨a, m₁, ha, hstops, hexits⟩
  · rw [heq]
    exact .inl rfl
  · rw [hstops, hexits]
    exact .inr ⟨a, f m₁, ha, by simp only [hf], rfl⟩

theorem inFrame {x y : Action α} (h : StopsAs report isExit x y) :
    StopsAs report isExit (x.inFrame note name me args) (y.inFrame note name me args) := by
  intro m
  rw [inFrame_apply, inFrame_apply]
  have hpop : ∀ m : Machine, m.popFrame.world = m.world := fun _ => rfl
  cases m.pushFrame name me args with
  | ok m₁ => exact h.andThen hpop m₁
  | error f => exact .inl rfl

/-- At the end of a request it does not matter how the statements ended. -/
theorem discarding {x y : Action α} (h : StopsAs report isExit x y) (read : Machine → Value) :
    StopsAs report (fun _ => True)
      (do
        discard x
        Action.ask read)
      (do
        discard y
        Action.ask read) := by
  have hdiscard : StopsAs report (fun _ => True) (discard x) (discard y) :=
    .follow h (fun _ => .refl) fun _ _ _ => ⟨(), trivial, rfl⟩
  exact .follow hdiscard (fun _ => .refl) fun _ m _ => ⟨read m, trivial, rfl⟩

/-- Where both end with an exit, the first may throw just as well. -/
theorem throwing {x y : Action Flow}
    (h : StopsAs report (some Flow.exitToHyperCard = some ·) x y) :
    StopsAs report (some Flow.exitToHyperCard = some ·)
      (do
        match ← x with
        | .exitToHyperCard => throw (.failed (report (← get).world))
        | flow => return flow) y := by
  intro m
  rcases h m with heq | ⟨a, m₁, ha, hstops, hexits⟩
  · cases hm : y m with
    | ok flow m₁ =>
      rw [hm] at heq
      rw [bind_apply_ok heq]
      cases flow with
      | exitToHyperCard => exact .inr ⟨.exitToHyperCard, m₁, rfl, rfl, rfl⟩
      | _ => exact .inl rfl
    | error halt m₁ =>
      rw [hm] at heq
      exact .inl (bind_apply_error heq)
  · exact .inr ⟨a, m₁, ha, bind_apply_error hstops, hexits⟩

end Action.StopsAs

/-- A report that has its place already, whatever the world. -/
def ScriptError.Located (report : World → ScriptError) : Prop :=
  ∀ w, (report w).span.isSome ∧ (report w).handler.isSome

/-- An action throws whatever report it is given, of some world: it has come to an exit there. -/
def Action.ComesToExit (x : (World → ScriptError) → Action α) (m m₁ : Machine) (w : World) :
    Prop :=
  ∀ report, ScriptError.Located report → x report m = .error (.failed (report w)) m₁

/-- Two reports tell an exit from a failure, and one world from another. -/
theorem Action.ComesToExit.exits {isExit : α → Prop} {x : (World → ScriptError) → Action α}
    {y : Action α} (h : ComesToExit x m m₁ w)
    (hxy : ∀ report, ScriptError.Located report → StopsAs report isExit (x report) y) :
    ∃ a, isExit a ∧ y m = .ok a m₁ ∧ m₁.world = w := by
  classical
  let report (here elsewhere : Failure) (w' : World) : ScriptError :=
    { failure := if w' = w then here else elsewhere, span := some {}, handler := some "" }
  have hhere (here elsewhere : Failure) : (report here elsewhere w).failure = here := if_pos rfl
  have hcases (here elsewhere : Failure) (hne : here ≠ elsewhere) :
      y m = .error (.failed (report here elsewhere w)) m₁ ∨
        ∃ a, isExit a ∧ y m = .ok a m₁ ∧ m₁.world = w := by
    have hthrows := h (report here elsewhere) fun _ => ⟨rfl, rfl⟩
    rcases hxy (report here elsewhere) (fun _ => ⟨rfl, rfl⟩) m with
      heq | ⟨a, m', ha, hstops, hexits⟩
    · exact .inl (heq.symm.trans hthrows)
    · rw [hthrows] at hstops
      simp only [EStateM.Result.error.injEq, Halt.failed.injEq] at hstops
      obtain ⟨hreport, rfl⟩ := hstops
      refine .inr ⟨a, ha, hexits, ?_⟩
      by_contra hworld
      have hfailure := congrArg ScriptError.failure hreport
      rw [hhere, show (report here elsewhere m₁.world).failure = elsewhere from if_neg hworld]
        at hfailure
      exact hne hfailure
  have hne : Failure.semantic .aborted ≠ .semantic .lastCard := nofun
  rcases hcases _ _ hne with hfirst | hexits
  · rcases hcases _ _ hne.symm with hsecond | hexits
    · have hsame := hfirst.symm.trans hsecond
      simp only [EStateM.Result.error.injEq, Halt.failed.injEq, and_true] at hsame
      have hfailure := congrArg ScriptError.failure hsame
      rw [hhere, hhere] at hfailure
      exact absurd hfailure hne
    · exact hexits
  · exact hexits

/-! ## Handlers -/

/-- Carries out handlers so that the first message handler to exit throws a report of the world. -/
def stopping (report : World → ScriptError) : (fuel : Nat) → Invoke
  | 0, _, _, _ => Action.outOfFuel
  | fuel + 1, owner, handler, args =>
    if handler.isFunction then runHandler (invoke fuel) fuel owner handler args
    else do
      match ← runHandler (stopping report fuel) fuel owner handler args with
      | .exitToHyperCard => throw (.failed (report (← get).world))
      | flow => return flow

def exitAccord (report : World → ScriptError) : Accord where
  allows _ := true
  Rel exit := Action.StopsAs report (exit = some ·)
  stays _ := .refl
  bind {_ _ _ x y _ _} hx hf := by
    have heq : x = y := by
      funext m
      rcases hx m with heq | ⟨_, _, hnone, -⟩
      · exact heq
      · cases hnone
    cases heq
    exact .bind hf
  follow {_ _ _ exit' _ _ _ _} hx hf _ hg := .follow hx hf fun a m ha => by
    cases ha
    exact ⟨exit', rfl, by rw [hg]; rfl⟩
  handlerAt hnone hsome := .handlerAt hnone fun handler hfunction =>
    hsome handler hfunction (everyIn_true handler.body)

/-- Whatever can be around a statement hands an exit on. -/
def exitConcord (hlocated : ScriptError.Located report) (loops : Nat) : Concord loops loops where
  toAccord := exitAccord report
  noting hnote h := h.noting fun w => hnote.located (report w) (hlocated w).1 (hlocated w).2
  andThen _ hf h := h.andThen hf
  loopWhile _ _ htest hpass := (exitAccord report).loopWhile .refl htest hpass
  land := .refl
  goBack _ := ⟨.refl, fun _ => .refl⟩
  addCard := .refl
  addBackground := .refl
  dropCard := .refl

theorem stopsAs_runHandler {hlocated : ScriptError.Located report} {left right : Invoke}
    (hinvokes : (exitConcord hlocated loops).Invokes left right) (owner : Handle)
    (handler : Handler) (args : List Value) :
    Action.StopsAs report (some Flow.exitToHyperCard = some ·)
      (runHandler left loops owner handler args) (runHandler right loops owner handler args) := by
  rw [runHandler_eq, runHandler_eq]
  exact .inFrame (Concord.handlerBody hinvokes (everyIn_true handler.body))

theorem invokes_stopping (hlocated : ScriptError.Located report) (fuel loops : Nat) :
    (exitConcord hlocated loops).Invokes (stopping report fuel) (invoke fuel) := by
  induction fuel generalizing loops with
  | zero => exact ⟨fun _ _ _ _ _ => .refl, fun _ _ _ _ _ => .refl⟩
  | succ fuel ih =>
    refine ⟨fun owner handler args hfunction _ => ?_, fun owner handler args hmessage _ => ?_⟩
    · simp only [stopping, hfunction, if_true]
      exact .refl
    · have hrun := stopsAs_runHandler (ih fuel) owner handler args
      simp only [stopping, hmessage, Bool.false_eq_true, if_false]
      exact hrun.throwing

/-! ## Requests -/

/-- What is carried out for a request, given how handlers are carried out. -/
def Visit.actionWith (invoke : Invoke) (v : Visit) : Action Value :=
  match v.request with
  | .send _ target message args => do
    let receiver ← match target with
      | some spec => Action.resolve spec
      | none => Action.demand (·.currentCard)
    discard (send invoke receiver message args)
    Action.ask (·.context.result)
  | .eval _ statements => (statementsBody invoke v.fuel statements).inFrame id "" none []

theorem Visit.actionWith_invoke (v : Visit) : v.actionWith (invoke v.fuel) = v.action := by
  obtain ⟨request, fuel, draws, clock⟩ := v
  cases request with
  | send stack target message args => rfl
  | eval stack statements => exact (runStatements_eq fuel statements).symm

theorem Visit.stopsAs_actionWith (hlocated : ScriptError.Located report) (v : Visit) :
    Action.StopsAs report (fun _ => True) (v.actionWith (stopping report v.fuel)) v.action := by
  rw [← actionWith_invoke]
  obtain ⟨request, fuel, draws, clock⟩ := v
  have hinvokes := invokes_stopping hlocated fuel fuel
  cases request with
  | send stack target message args =>
    have hdispatch (receiver : Handle) : Action.StopsAs report (fun _ => True)
        (do
          discard (send (stopping report fuel) receiver message args)
          Action.ask (·.context.result))
        (do
          discard (send (invoke fuel) receiver message args)
          Action.ask (·.context.result)) :=
      .discarding (Concord.send hinvokes) _
    cases target with
    | some spec => exact .bind hdispatch
    | none => exact .bind hdispatch
  | eval stack statements =>
    have hblock := Concord.execBlock hinvokes statements (everyIn_true statements)
    exact .inFrame (.discarding hblock _)

/-- **An exit ends everything.** Where blocks, handlers, messages and requests would throw at the
first message handler to exit, they end with an exit instead: nothing further is done, and the
world is the one at that moment. -/
theorem exit_ends_everything (fuel loops : Nat) :
    (∀ block m m₁ w,
      Action.ComesToExit (fun report => execBlock (stopping report fuel) loops block) m m₁ w →
      execBlock (invoke fuel) loops block m = .ok .exitToHyperCard m₁ ∧ m₁.world = w) ∧
    (∀ owner handler args m m₁ w,
      Action.ComesToExit
        (fun report => runHandler (stopping report fuel) loops owner handler args) m m₁ w →
      runHandler (invoke fuel) loops owner handler args m = .ok .exitToHyperCard m₁ ∧
        m₁.world = w) ∧
    (∀ target message args m m₁ w,
      Action.ComesToExit (fun report => send (stopping report fuel) target message args) m m₁ w →
      send (invoke fuel) target message args m = .ok .exitToHyperCard m₁ ∧ m₁.world = w) ∧
    ∀ (w₀ : World) (v : Visit) (m₁ : Machine) (w : World),
      Action.ComesToExit (fun report => v.actionWith (stopping report v.fuel)) (v.start w₀) m₁ w →
      ∃ value, w₀.answer v = (.ok value, w) := by
  refine ⟨fun block m m₁ w h => ?_, fun owner handler args m m₁ w h => ?_,
    fun target message args m m₁ w h => ?_, fun w₀ v m₁ w h => ?_⟩
  · obtain ⟨_, ⟨⟩, hexits⟩ := h.exits fun report hlocated =>
      Concord.execBlock (invokes_stopping hlocated fuel loops) block (everyIn_true block)
    exact hexits
  · obtain ⟨_, ⟨⟩, hexits⟩ := h.exits fun report hlocated =>
      stopsAs_runHandler (invokes_stopping hlocated fuel loops) owner handler args
    exact hexits
  · obtain ⟨_, ⟨⟩, hexits⟩ := h.exits fun report hlocated =>
      Concord.send (invokes_stopping hlocated fuel loops)
    exact hexits
  · obtain ⟨value, -, hexits, hworld⟩ := h.exits fun report hlocated =>
      v.stopsAs_actionWith hlocated
    refine ⟨value, ?_⟩
    rw [World.answer_eq]
    simp only [Action.outcome, Action.after, hexits, hworld]

/-- A stack with a message handler and a function that exit, and a handler that calls one. -/
def Stack.exits : Stack where
  script := { handlers := [
    { name := ⟨"outer"⟩
      body := [
        .mk {} (.global [⟨"mark"⟩]),
        .mk {} (.message ⟨"inner"⟩ []),
        .mk {} (.put (.literal "went on" true) .into (.var ⟨"mark"⟩ none))] },
    { name := ⟨"inner"⟩, body := [.mk {} .exitToHyperCard] },
    { name := ⟨"stop"⟩, body := [.mk {} .exitToHyperCard], isFunction := true }] }
  cards := [.blank 101 100 "" {}]
  backgrounds := [.blank 100 "" {}]
  currentCard := 101

/-- The exit of the inner handler ends the outer one, before it has set the variable. -/
theorem exit_ends_everything_nested :
    ∃ value w,
      ({ allStacks := [.exits] } : World).answer
        { request := .send 0 none "outer" [], fuel := 8 } = (.ok value, w) ∧
      (w.globals.get? ⟨"mark"⟩).map (·.text) = some "" := by
  let v : Visit := { request := .send 0 none "outer" [], fuel := 8 }
  let m := v.start { allStacks := [.exits] }
  let m₁ := v.action.after m
  have hexit : Action.ComesToExit (fun report => v.actionWith (stopping report v.fuel)) m m₁
      m₁.world := by
    intro report hlocated
    have hthrows : v.actionWith (stopping report v.fuel) m =
        .error (.failed (((report m₁.world).atSpan {}).inHandler "outer")) m₁ := rfl
    obtain ⟨hspan, hhandler⟩ := hlocated m₁.world
    rw [(ScriptError.adds_atSpan {}).located _ hspan hhandler,
      (ScriptError.adds_inHandler "outer").located _ hspan hhandler] at hthrows
    exact hthrows
  obtain ⟨value, hanswer⟩ := (exit_ends_everything 8 8).2.2.2 _ v m₁ m₁.world hexit
  exact ⟨value, m₁.world, hanswer, by decide +kernel⟩

/-- The exit of a function ends no more than the function: the statement after the one that calls
it is carried out. -/
theorem exit_lost_in_function :
    let answer := ({ allStacks := [.exits] } : World).answer
      { request := .eval (some 0) [
          .mk {} (.global [⟨"mark"⟩]),
          .mk {} (.get (.call ⟨"stop"⟩ [])),
          .mk {} (.put (.literal "went on" true) .into (.var ⟨"mark"⟩ none))]
        fuel := 8 }
    answer.1.isOk ∧ (answer.2.globals.get? ⟨"mark"⟩).map (·.text) = some "went on" := by
  decide +kernel

end CardScript
