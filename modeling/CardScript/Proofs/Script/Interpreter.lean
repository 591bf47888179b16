import CardScript.Proofs.Script.Course

/-!
# The interpreter stays on course

One lemma for each construct of the interpreter: evaluating leaves all open frames alone, carrying
out statements may change the innermost one. Trees are followed by structural recursion with
handlers as a parameter (`evalExpr_follows`, `execBlock_follows`), and handlers by induction on the
fuel (`invoke_follows`).
-/

namespace CardScript

open CardScript.Action (after after_andThen after_noting)

/-- Handlers leave the frames of their callers alone. -/
def Invoke.Follows (invoke : Invoke) : Prop :=
  ∀ owner handler args, (invoke owner handler args).Follows .outside

variable {invoke : Invoke} {e : Extent}

theorem Invoke.Follows.apply (hinvoke : invoke.Follows) :
    (invoke owner handler args).Follows e := by
  cases e with
  | outside => exact hinvoke owner handler args
  | inside => exact (hinvoke owner handler args).widen

/-! ## Messages and functions -/

theorem handlerAt?_follows : (handlerAt? h name isFunction).Follows e :=
  .bind (.demand _) fun _ => .pure _

theorem endOfWay_follows : (endOfWay message passed).Follows e := by
  unfold endOfWay
  split
  · exact .pure _
  · exact .fail _

/-- On to the next station, if there is one. -/
theorem nextStation?_follows {α : Type} {f : Option Handle → Action α}
    (hsome : ∀ next, (f (some next)).Follows e) (hnone : (f none).Follows e) :
    (nextStation? h >>= f).Follows e := by
  refine .bind (.ask _) fun next => ?_
  cases next with
  | some next => exact hsome next
  | none => exact hnone

theorem deliver_follows (hinvoke : invoke.Follows) :
    (deliver invoke message args stations passed h).Follows e := by
  induction stations generalizing passed h with
  | zero => exact endOfWay_follows
  | succ stations ih =>
    refine .bind handlerAt?_follows fun handler => ?_
    cases handler with
    | none => exact nextStation?_follows (fun _ => ih) endOfWay_follows
    | some handler =>
      refine .bind hinvoke.apply fun flow => ?_
      cases flow with
      | pass => exact nextStation?_follows (fun _ => ih) endOfWay_follows
      | returned value => exact .bind (.setResult value) fun _ => .pure _
      | _ => exact .pure _

theorem send_follows (hinvoke : invoke.Follows) :
    (send invoke target message args).Follows e := by
  intro m
  have hafter : (send invoke target message args).after m =
      ((deliver invoke message args maxStations false target).after
        (m.withTarget (some target))).withTarget m.context.target :=
    after_andThen ..
  rw [hafter]
  exact .send (deliver_follows hinvoke _)

theorem notify_follows (hinvoke : invoke.Follows) : (notify invoke target message).Follows e := by
  refine .bind (.ask _) fun locked => ?_
  split
  · exact .pure _
  · exact send_follows hinvoke

theorem callBuiltin_follows : (callBuiltin name args).Follows e := by
  unfold callBuiltin callBuiltin?
  cases Builtin.named? name with
  | none => exact .fail _
  | some b =>
    exact .bind .get fun _ => .bind (.changeWorld fun _ => .draws _) fun _ =>
      .bind (.changeWorld fun _ => .clock _) fun _ => .ofExcept _

theorem callFrom_follows (hinvoke : invoke.Follows) :
    (callFrom invoke name args stations h).Follows e := by
  induction stations generalizing h with
  | zero => exact callBuiltin_follows
  | succ stations ih =>
    refine .bind handlerAt?_follows fun handler => ?_
    cases handler with
    | none => exact nextStation?_follows (fun _ => ih) callBuiltin_follows
    | some handler =>
      refine .bind hinvoke.apply fun flow => ?_
      cases flow with
      | pass => exact nextStation?_follows (fun _ => ih) callBuiltin_follows
      | _ => exact .pure _

theorem callFunction_follows (hinvoke : invoke.Follows) :
    (callFunction invoke name args).Follows e := by
  refine .bind .get fun m => ?_
  split
  · exact callFrom_follows hinvoke
  · exact callFrom_follows hinvoke
  · exact callBuiltin_follows

/-! ## Expressions -/

theorem usualOwner_follows : (usualOwner type).Follows e := by
  unfold usualOwner
  split
  · exact .bind (.demand _) fun _ => .pure _
  · exact .bind (.demand _) fun _ => .pure _
  · exact .demand _

theorem countParts_follows : (countParts type layer owner).Follows e := by
  refine .bind (.ask _) fun w => ?_
  split
  · exact .pure _
  · exact .fail _

theorem pinChunk_follows : (pinChunk chunk text).Follows e :=
  .bind (.ask _) fun _ => .bind (.changeWorld fun _ => .draws _) fun _ => .pure _

mutual

theorem evalExpr_follows (hinvoke : invoke.Follows) : ∀ x, (evalExpr invoke x).Follows e
  | .literal _ _ => .pure _
  | .var _ => .ask _
  | .binary op lhs rhs => by
    refine .bind (evalExpr_follows hinvoke lhs) fun left => .bind (.ofExcept _) fun settled => ?_
    cases settled with
    | some v => exact .pure v
    | none => exact .bind (evalExpr_follows hinvoke rhs) fun _ => .ofExcept _
  | .unary _ operand => .bind (evalExpr_follows hinvoke operand) fun _ => .ofExcept _
  | .chunk c source =>
    .bind (evalExpr_follows hinvoke source) fun _ => .bind (evalChunk_follows hinvoke c) fun _ =>
      .bind pinChunk_follows fun _ => .bind (.ask _) fun _ => .pure _
  | .property _ none => .demand _
  | .property _ (some p) =>
    .bind (evalPart_follows hinvoke p) fun _ => .bind (.resolve _) fun _ => .demand _
  | .part p => .bind (evalPart_follows hinvoke p) fun _ => .bind (.resolve _) fun _ => .demand _
  | .call _ args => .bind (evalArgs_follows hinvoke args) fun _ => callFunction_follows hinvoke
  | .countChunks _ source =>
    .bind (evalExpr_follows hinvoke source) fun _ => .bind (.ask _) fun _ => .pure _
  | .countParts _ _ none => .bind usualOwner_follows fun _ => countParts_follows
  | .countParts _ _ (some owner) =>
    .bind (evalPart_follows hinvoke owner) fun _ => .bind (.resolve _) fun _ => countParts_follows

theorem evalArgs_follows (hinvoke : invoke.Follows) : ∀ args, (evalArgs invoke args).Follows e
  | [] => .pure _
  | x :: rest =>
    .bind (evalExpr_follows hinvoke x) fun _ => .bind (evalArgs_follows hinvoke rest) fun _ =>
      .pure _

theorem evalIndex_follows (hinvoke : invoke.Follows) : ∀ i, (evalIndex invoke i).Follows e
  | .at number => .bind (evalExpr_follows hinvoke number) fun _ => .ofExcept _
  | .ordinal _ => .pure _

theorem evalStop_follows (hinvoke : invoke.Follows) : ∀ i, (evalStop invoke i).Follows e
  | none => .pure _
  | some i => .bind (evalIndex_follows hinvoke i) fun _ => .pure _

theorem evalChunk_follows (hinvoke : invoke.Follows) : ∀ c, (evalChunk invoke c).Follows e
  | .mk _ start stop none =>
    .bind (evalIndex_follows hinvoke start) fun _ => .bind (evalStop_follows hinvoke stop) fun _ =>
      .pure _
  | .mk _ start stop (some outer) =>
    .bind (evalChunk_follows hinvoke outer) fun _ =>
      .bind (evalIndex_follows hinvoke start) fun _ =>
        .bind (evalStop_follows hinvoke stop) fun _ => .pure _

theorem evalPart_follows (hinvoke : invoke.Follows) : ∀ p, (evalPart invoke p).Follows e
  | .id _ _ number => .bind (evalExpr_follows hinvoke number) fun _ => .ofExcept _
  | .named _ _ name => .bind (evalExpr_follows hinvoke name) fun _ => .pure _
  | .ordinal .. => .pure _
  | .position .. => .pure _
  | .stack none => .pure _
  | .stack (some name) => .bind (evalExpr_follows hinvoke name) fun _ => .pure _
  | .of part owner =>
    .bind (evalPart_follows hinvoke owner) fun _ => .bind (evalPart_follows hinvoke part) fun _ =>
      .pure _
  | .me => .demand _
  | .target => .demand _

end

theorem resolvePart_follows (hinvoke : invoke.Follows) : (resolvePart invoke p).Follows e :=
  .bind (evalPart_follows hinvoke p) fun _ => .resolve _

/-! ## Containers -/

theorem settleChunk_follows : (settleChunk slot chunk).Follows e := by
  unfold settleChunk
  split
  · exact .pure _
  · exact .bind (.demand _) fun _ => pinChunk_follows

theorem addressOf_follows (hinvoke : invoke.Follows) : (addressOf invoke slot c).Follows e := by
  cases c with
  | none => exact .pure _
  | some c =>
    exact .bind (evalChunk_follows hinvoke c) fun _ => .bind settleChunk_follows fun _ => .pure _

theorem evalContainer_follows (hinvoke : invoke.Follows) (c : Container) :
    (evalContainer invoke c).Follows e := by
  cases c with
  | var name chunk => exact addressOf_follows hinvoke
  | part p chunk => exact .bind (resolvePart_follows hinvoke) fun _ => addressOf_follows hinvoke
  | property name p chunk =>
    cases p with
    | none => exact addressOf_follows hinvoke
    | some p => exact .bind (resolvePart_follows hinvoke) fun _ => addressOf_follows hinvoke
  | messageBox => exact .pure _

namespace Machine

variable {m m' : Machine}

theorem setVariable_course (h : m.setVariable name value = .ok m') : m.Course .inside m' := by
  obtain ⟨f, -, h⟩ := setVariable_eq_ok h
  split at h
  · rw [h]
    exact .world (.setGlobal name value)
  · rw [h]
    exact .assign name value

end Machine

theorem Slot.store_course {m m' : Machine} {slot : Slot} (h : slot.store m value = .ok m') :
    m.Course .inside m' := by
  rw [store_eq] at h
  cases slot with
  | «variable» name => exact Machine.setVariable_course h
  | contents part =>
    obtain ⟨w, hw, h⟩ := Failure.bind_eq_ok.1 h
    cases h
    exact .world (.contents hw)
  | property name part =>
    cases part with
    | none =>
      obtain ⟨w, hw, h⟩ := Failure.bind_eq_ok.1 h
      cases h
      exact .world (.property hw)
    | some part =>
      obtain ⟨w, hw, h⟩ := Failure.bind_eq_ok.1 h
      cases h
      exact .world (.partProperty hw)
  | messageBox =>
    cases h
    exact .world (.message _)

theorem Address.write_course {m m' : Machine} {a : Address}
    (h : a.write m preposition value = .ok m') : m.Course .inside m' := by
  rw [Address.write_eq] at h
  split at h
  · exact Slot.store_course h
  · obtain ⟨_, _, h⟩ := Failure.bind_eq_ok.1 h
    obtain ⟨_, _, h⟩ := Failure.bind_eq_ok.1 h
    exact Slot.store_course h

theorem setVariable_follows :
    (Action.edit (Machine.settingVariable name value)).Follows .inside :=
  .edit (Machine.settingVariable_atomic ..) fun _ _ => Machine.setVariable_course

theorem modifyFrame_follows {change : Frame → Frame}
    (h : ∀ m : Machine, m.Course .inside (m.onTop change)) :
    (Action.edit (Machine.modifyingFrame change)).Follows .inside := by
  refine .edit (Machine.modifyingFrame_atomic change) fun m m' hm => ?_
  rw [Machine.modifyFrame_eq_ok hm]
  exact h m

theorem write_follows {a : Address} : (Action.edit (a.writing preposition value)).Follows .inside :=
  .edit (a.writing_atomic ..) fun _ _ => Address.write_course

/-! ## Navigation -/

theorem leaveCard_follows (hinvoke : invoke.Follows) : (leaveCard invoke).Follows e := by
  refine .bind .get fun m => ?_
  split
  · exact .bind (notify_follows hinvoke) fun _ => .pure _
  · exact .pure _

theorem editStack_follows {x : Editing Stack Unit} (hx : x.Atomic)
    (h : ∀ w s, x.result (World.stack w number) = .ok s → World.Change w (w.withStack number s)) :
    (editStack number x).Follows e := by
  rw [editStack_eq_changeStack hx]
  refine .change fun m m' hm => ?_
  obtain ⟨s, hs, hm⟩ := Failure.bind_eq_ok.1 hm
  cases hm
  exact .world (h m.world s hs)

theorem arrive_follows (hinvoke : invoke.Follows) :
    (arrive invoke destination announce).Follows e := by
  refine .bind (leaveCard_follows hinvoke) fun goOn => ?_
  split
  · have arrival : Action.Follows e (do
        editStack destination.stack (Stack.showingCard destination.card)
        Action.changeContext fun c =>
          { c with stack := some destination.stack, card := none, result := .empty }
        return (← notify invoke (.ofCard destination.stack destination.card)
          "openCard").afterMessage) :=
      .bind (editStack_follows (Stack.showingCard_atomic _) fun _ _ h => .showCard h) fun _ =>
        .bind (fun _ => .trans (.stack destination.stack) (.trans .card (.result .empty))) fun _ =>
          .bind (notify_follows hinvoke) fun _ => .pure _
    split
    · exact .bind (.navigate _) fun _ => arrival
    · exact arrival
  · exact .pure _

theorem goBack_follows (hinvoke : invoke.Follows) : (goBack invoke).Follows e := by
  refine .ask_bind fun m => .trans (.world .goBack) ?_
  dsimp only
  split
  · exact arrive_follows hinvoke _
  · exact Action.Follows.bind (.setResult _) (fun _ => .pure Flow.normal) _

theorem goTo_follows (hinvoke : invoke.Follows) : (goTo invoke p effect).Follows e := by
  refine .bind (evalPart_follows hinvoke p) fun spec => .bind .get fun m =>
    .bind (.changeWorld fun _ => .draws _) fun _ => ?_
  split
  · exact arrive_follows hinvoke
  · exact .bind (.setResult _) fun _ => .pure _

theorem go_follows (hinvoke : invoke.Follows) : (go invoke destination).Follows .inside := by
  refine .bind .takeEffect fun effect => ?_
  cases destination with
  | some p => exact goTo_follows hinvoke
  | none => exact goBack_follows hinvoke

theorem welcome_follows (hinvoke : invoke.Follows) :
    (welcome invoke stack card message).Follows .inside :=
  .bind (fun _ => .card) fun _ => .bind .takeEffect fun _ => .bind (.navigate _) fun _ =>
    .bind (notify_follows hinvoke) fun _ => .pure _

theorem makeCard_follows (hinvoke : invoke.Follows) : (makeCard invoke).Follows .inside := by
  refine .bind (.demand _) fun number => .bind ?_ fun _ => welcome_follows hinvoke
  intro m
  have hadds := editStack_apply Stack.addingCard_atomic number m
  cases hmade : Stack.addingCard.outcome (m.world.stack number) with
  | ok made =>
    rw [hmade] at hadds
    simp only [after, hadds]
    exact .world (.newCard hmade)
  | error f =>
    rw [hmade] at hadds
    simp only [after, hadds]
    exact .refl

theorem makeBackground_follows (hinvoke : invoke.Follows) :
    (makeBackground invoke).Follows .inside := by
  refine .bind (.demand _) fun number => .ask_bind fun m => ?_
  exact .trans (.world .newBackground) (welcome_follows hinvoke _)

theorem removeCard_follows (hinvoke : invoke.Follows) : (removeCard invoke h).Follows .inside := by
  unfold removeCard
  split
  · refine .bind (notify_follows hinvoke) fun flow => ?_
    split
    · exact .pure _
    refine .bind (.ask _) fun wasCurrent =>
      .bind (editStack_follows (Stack.removingCard_atomic _) fun _ _ h => .deleteCard h) fun _ =>
        .bind (fun _ => .card) fun _ => ?_
    split
    · exact .bind .takeEffect fun _ => .bind (.ask _) fun _ => .bind (.navigate _) fun _ => .pure _
    · exact .pure _
  · exact .bind (.ask _) fun _ => .fail _

/-! ## Commands -/

theorem pause_follows : (pause millis).Follows e :=
  .bind (.demand _) fun _ => .changeWorld fun _ => .clock _

theorem beepAgain_follows : (beepAgain interval times).Follows e := by
  induction times with
  | zero => exact .pure _
  | succ times ih =>
    exact .bind pause_follows fun _ => .bind (.changeWorld fun _ => .beep) fun _ => ih

theorem beepTimes_follows : (beepTimes times).Follows e := by
  unfold beepTimes
  split
  · exact .bind (.changeWorld fun _ => .beep) fun _ => .bind (.ask _) fun _ => beepAgain_follows
  · exact .pure _

theorem waitFor_follows : (waitFor amount unit).Follows e := by
  have waiting (seconds : Float) : Action.Follows e (do
      if 0 < seconds then pause (millisOf seconds)
      Action.demand (·.checkAbort)) := by
    split
    · exact .bind pause_follows fun _ => .demand _
    · exact .demand _
  exact waiting _

theorem passThrough_follows {body : Action Flow} (hbody : body.Follows e) :
    (passThrough body).Follows e :=
  .bind (.demand _) fun _ => .bind hbody fun _ => .pure _

theorem loopWhile_follows {test : Action Bool} {body : Action Flow} (htest : test.Follows e)
    (hbody : body.Follows e) : (loopWhile test body fuel).Follows e := by
  induction fuel with
  | zero => exact .outOfFuel
  | succ fuel ih =>
    refine .bind htest fun goOn => ?_
    split
    · refine .bind (passThrough_follows hbody) fun flow => ?_
      cases flow with
      | some flow => exact .pure _
      | none => exact ih
    · exact .pure _

theorem loopTimes_follows {body : Action Flow} (hbody : body.Follows e) :
    (loopTimes body times).Follows e := by
  induction times with
  | zero => exact .pure _
  | succ times ih =>
    refine .bind (passThrough_follows hbody) fun flow => ?_
    cases flow with
    | some flow => exact .pure _
    | none => exact ih

theorem loopCounting_follows {body : Action Flow} (hbody : body.Follows .inside) :
    (loopCounting counter step body times value).Follows .inside := by
  induction times generalizing value with
  | zero => exact .pure _
  | succ times ih =>
    refine .bind setVariable_follows fun _ =>
      .bind (passThrough_follows hbody) fun flow => ?_
    cases flow with
    | some flow => exact .pure _
    | none => exact ih

theorem evalTest_follows (hinvoke : invoke.Follows) : (evalTest invoke x).Follows e :=
  .bind (evalExpr_follows hinvoke x) fun _ => .ofExcept _

theorem evalInteger_follows (hinvoke : invoke.Follows) : (evalInteger invoke x).Follows e :=
  .bind (evalExpr_follows hinvoke x) fun _ => .ofExcept _

theorem runLoop_follows (hinvoke : invoke.Follows) {body : Action Flow}
    (hbody : body.Follows .inside) : (runLoop invoke fuel kind body).Follows .inside := by
  cases kind with
  | forever => exact loopWhile_follows (.pure _) hbody
  | count times => exact .bind (evalInteger_follows hinvoke) fun _ => loopTimes_follows hbody
  | whileTrue condition => exact loopWhile_follows (evalTest_follows hinvoke) hbody
  | untilTrue condition =>
    exact loopWhile_follows (.bind (evalTest_follows hinvoke) fun _ => .pure _) hbody
  | counting counter first final down =>
    refine .bind (evalInteger_follows hinvoke) fun _ =>
      .bind (evalInteger_follows hinvoke) fun _ => ?_
    split
    · exact loopCounting_follows hbody
    · exact loopCounting_follows hbody

theorem sendText_follows (hinvoke : invoke.Follows) : (sendText invoke text target).Follows e := by
  unfold sendText
  split
  split
  · exact .fail _
  cases target with
  | some p =>
    exact .bind (resolvePart_follows hinvoke) fun _ => .bind (send_follows hinvoke) fun _ => .pure _
  | none => exact .bind (.demand _) fun _ => .bind (send_follows hinvoke) fun _ => .pure _

theorem updateContainer_follows (hinvoke : invoke.Follows) :
    (updateContainer invoke op value target).Follows .inside :=
  .bind (evalExpr_follows hinvoke value) fun _ =>
    .bind (evalContainer_follows hinvoke target) fun _ => .bind (.demand _) fun _ =>
      .bind (.ofExcept _) fun _ => .bind write_follows fun _ => .pure _

theorem declareGlobal_follows : (declareGlobal name).Follows .inside := by
  refine .bind (fun _ => .world (.seedGlobal name)) fun _ => modifyFrame_follows fun m => ?_
  exact .declare name

theorem declareGlobals_follows : (declareGlobals names).Follows .inside := by
  induction names with
  | nil => exact .pure _
  | cons name rest ih => exact .bind declareGlobal_follows fun _ => ih

theorem setProperty_follows (hinvoke : invoke.Follows) :
    (setProperty invoke name value part).Follows e := by
  cases part with
  | some p =>
    refine .bind (resolvePart_follows hinvoke) fun h => ?_
    rw [Action.edit_setPartProperty]
    refine .change fun m m' hm => ?_
    obtain ⟨w, hw, hm⟩ := Failure.bind_eq_ok.1 hm
    cases hm
    exact .world (.partProperty hw)
  | none =>
    rw [setProperty, Action.edit_setProperty]
    refine .change fun m m' hm => ?_
    obtain ⟨w, hw, hm⟩ := Failure.bind_eq_ok.1 hm
    cases hm
    exact .world (.property hw)

mutual

theorem execCommand_follows (hinvoke : invoke.Follows) :
    ∀ c, (execCommand invoke fuel c).Follows .inside
  | .put value _ target =>
    .bind (evalExpr_follows hinvoke value) fun _ =>
      .bind (evalContainer_follows hinvoke target) fun _ =>
        .bind write_follows fun _ => .pure _
  | .get value =>
    .bind (evalExpr_follows hinvoke value) fun _ =>
      .bind setVariable_follows fun _ => .pure _
  | .set _ _ value =>
    .bind (evalExpr_follows hinvoke value) fun _ => .bind (setProperty_follows hinvoke) fun _ =>
      .pure _
  | .global _ => .bind declareGlobals_follows fun _ => .pure _
  | .add .. => updateContainer_follows hinvoke
  | .subtract .. => updateContainer_follows hinvoke
  | .multiply .. => updateContainer_follows hinvoke
  | .divide .. => updateContainer_follows hinvoke
  | .go _ => go_follows hinvoke
  | .beep none => .bind beepTimes_follows fun _ => .pure _
  | .beep (some _) =>
    .bind (evalInteger_follows hinvoke) fun _ => .bind beepTimes_follows fun _ => .pure _
  | .wait duration _ =>
    .bind (evalExpr_follows hinvoke duration) fun _ => .bind (.ofExcept _) fun _ =>
      .bind waitFor_follows fun _ => .pure _
  | .send message _ => .bind (evalExpr_follows hinvoke message) fun _ => sendText_follows hinvoke
  | .visualEffect effect =>
    .bind (evalExpr_follows hinvoke effect) fun _ =>
      .bind (modifyFrame_follows fun _ => .effect _) fun _ => .pure _
  | .newCard => makeCard_follows hinvoke
  | .newBackground => makeBackground_follows hinvoke
  | .deleteCard none => .bind (.demand _) fun _ => removeCard_follows hinvoke
  | .deleteCard (some _) =>
    .bind (resolvePart_follows hinvoke) fun _ => removeCard_follows hinvoke
  | .message _ args =>
    .bind (evalArgs_follows hinvoke args) fun _ => .bind (.demand _) fun _ =>
      .bind (send_follows hinvoke) fun _ => .pure _
  | .choose condition whenTrue whenFalse => by
    refine .bind (evalTest_follows hinvoke) fun holds => ?_
    split
    · exact execBlock_follows hinvoke whenTrue
    · exact execBlock_follows hinvoke whenFalse
  | .loop _ body => runLoop_follows hinvoke (execBlock_follows hinvoke body)
  | .exitRepeat => .pure _
  | .nextRepeat => .pure _
  | .exitHandler => .pure _
  | .exitToHyperCard => .pure _
  | .pass => .pure _
  | .giveBack none => .pure _
  | .giveBack (some value) => .bind (evalExpr_follows hinvoke value) fun _ => .pure _

theorem execStatement_follows (hinvoke : invoke.Follows) :
    ∀ s, (execStatement invoke fuel s).Follows .inside
  | .mk _ command => .noting (execCommand_follows hinvoke command) _

theorem execBlock_follows (hinvoke : invoke.Follows) :
    ∀ block, (execBlock invoke fuel block).Follows .inside
  | [] => .pure _
  | s :: rest => by
    refine .bind (execStatement_follows hinvoke s) fun flow => ?_
    cases flow with
    | normal => exact execBlock_follows hinvoke rest
    | _ => exact .pure _

end

/-! ## Handlers -/

theorem bindParams_follows : (bindParams names args).Follows .inside := by
  induction names generalizing args with
  | nil => exact .pure _
  | cons name names ih => exact .bind setVariable_follows fun _ => ih

/-- An action that does nothing but begin a frame, or is refused. -/
def Enters (message : String) (me : Option Handle) (args : List Value) (x : Action Unit) : Prop :=
  ∀ m, (∃ m₁, m.pushFrame message me args = .ok m₁ ∧ x m = .ok () m₁) ∨
    ∃ halt, x m = .error halt m

theorem enters_pushFrame :
    Enters message me args (Action.edit (Machine.pushingFrame message me args)) := by
  intro m
  rw [Action.edit_eq_change (Machine.pushingFrame_atomic ..), Action.change_apply]
  cases hpush : (Machine.pushingFrame message me args).result m with
  | ok m₁ => exact .inl ⟨m₁, hpush, rfl⟩
  | error f => exact .inr ⟨_, rfl⟩

theorem Enters.noting {x : Action Unit} (h : Enters message me args x)
    (note : ScriptError → ScriptError) : Enters message me args (x.noting note) := by
  intro m
  rcases h m with ⟨m₁, hpush, hx⟩ | ⟨halt, hx⟩
  · exact .inl ⟨m₁, hpush, by simp only [Action.noting, hx]⟩
  · cases halt with
    | failed error => exact .inr ⟨_, by simp only [Action.noting, hx]; rfl⟩
    | outOfFuel => exact .inr ⟨_, by simp only [Action.noting, hx]; rfl⟩

/-- A frame that is begun is ended, however what is done in it ends. -/
theorem Enters.follows {enter : Action Unit} {body rest : Action α}
    (henter : Enters message me args enter) (hbody : body.Follows .inside)
    (hrest : ∀ m, rest.after m = (body.after m).popFrame) :
    Action.Follows e (enter >>= fun _ => rest) := by
  intro m
  rcases henter m with ⟨m₁, hpush, hx⟩ | ⟨halt, hx⟩
  · have hafter : (enter >>= fun _ => rest).after m = rest.after m₁ := by
      simp only [after, Action.bind_apply_ok hx]
    rw [hafter, hrest]
    exact .call hpush (hbody m₁)
  · have hafter : (enter >>= fun _ => rest).after m = m := by
      simp only [after, Action.bind_apply_error hx]
    rw [hafter]
    exact .refl

theorem runHandler_follows (hinvoke : invoke.Follows) :
    (runHandler invoke fuel owner handler args).Follows e := by
  have hbody : Action.Follows .inside (do
      bindParams handler.params args
      execBlock invoke fuel handler.body) :=
    .bind bindParams_follows fun _ => execBlock_follows hinvoke handler.body
  refine (enters_pushFrame.noting _).follows hbody fun m => ?_
  rw [after_noting, after_andThen]

theorem invoke_follows (fuel : Nat) : (CardScript.invoke fuel).Follows := by
  induction fuel with
  | zero => exact fun _ _ _ => .outOfFuel
  | succ fuel ih => exact fun _ _ _ => runHandler_follows ih

theorem runStatements_follows : (runStatements fuel statements).Follows e := by
  have hbody : Action.Follows .inside (do
      discard (execBlock (CardScript.invoke fuel) fuel statements)
      Action.ask fun m => (m.lookup? ⟨"it"⟩).getD .empty) :=
    .bind (.bind (execBlock_follows (invoke_follows fuel) statements) fun _ => .pure _) fun _ =>
      .ask _
  exact enters_pushFrame.follows hbody fun m => after_andThen ..

end CardScript
