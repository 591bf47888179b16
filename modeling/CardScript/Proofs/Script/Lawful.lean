import CardScript.Proofs.Script.Law

/-!
# The interpreter obeys every law

One lemma for each construct of the interpreter, in the order of
`CardScript.Proofs.Script.Interpreter`: addresses lead to stacks within reach, messages go to parts
of these and find handlers that declare only what is allowed. Trees are followed by structural
recursion with handlers as a parameter (`evalExpr_obeys`, `execBlock_obeys`), and handlers by
induction on the fuel (`invoke_obeys`).
-/

namespace CardScript

open Law

variable {L : Law} {e : Extent} {invoke : Invoke}

/-- Handlers within reach obey a law. -/
def Law.Invokes (L : Law) (invoke : Invoke) : Prop :=
  ∀ {e : Extent} {owner : Handle} {handler : Handler} {args : List Value},
    L.reach owner.stack → L.Permits (declaredIn handler.body) →
      L.Obeys e (invoke owner handler args)

/-! ## Messages and functions -/

theorem handlerAt?_yields (hh : L.reach h.stack) :
    L.Yields e (fun handler? => ∀ handler ∈ handler?, L.Permits (declaredIn handler.body))
      (handlerAt? h name isFunction) := by
  refine .bind (Q := fun script => L.Permits script.declared) ?_ fun script hscript => ?_
  · refine .demand (fun _ _ _ => rfl) (fun m => ?_) fun m script hm hscript => ?_
    · exact Stack.scriptOf_recoverable ..
    · exact (hm.scripts h.stack hh).scriptOf hscript
  · refine .pure fun handler hhandler name hname => hscript name ?_
    exact Script.declared_of_handler? hhandler hname

theorem endOfWay_obeys : L.Obeys e (endOfWay message passed) := by
  unfold endOfWay
  split
  · exact .pure trivial
  · exact .fail rfl

/-- On to the next station, if there is one. -/
theorem nextStation?_obeys {α : Type} {f : Option Handle → Action α} (hh : L.reach h.stack)
    (hsome : ∀ next, L.reach next.stack → L.Obeys e (f (some next))) (hnone : L.Obeys e (f none)) :
    L.Obeys e (nextStation? h >>= f) := by
  refine .bind (Q := fun next? => ∀ next ∈ next?, L.reach next.stack) ?_ fun next? hnext => ?_
  · refine .ask (fun _ _ _ => rfl) fun m _ next hnext => ?_
    rw [World.stack_parent? hnext]
    exact hh
  · cases next? with
    | some next => exact hsome next (hnext next rfl)
    | none => exact hnone

theorem deliver_obeys (hinvoke : L.Invokes invoke) (hh : L.reach h.stack) :
    L.Obeys e (deliver invoke message args stations passed h) := by
  induction stations generalizing passed h with
  | zero => exact endOfWay_obeys
  | succ stations ih =>
    refine .bind (handlerAt?_yields hh) fun handler? hhandler => ?_
    cases handler? with
    | none => exact nextStation?_obeys hh (fun _ => ih) endOfWay_obeys
    | some handler =>
      refine .bind (hinvoke hh (hhandler handler rfl)) fun flow _ => ?_
      cases flow with
      | pass => exact nextStation?_obeys hh (fun _ => ih) endOfWay_obeys
      | returned value => exact .bind (Obeys.setResult value) fun _ _ => .pure trivial
      | _ => exact .pure trivial

theorem send_obeys (hinvoke : L.Invokes invoke) (htarget : L.reach target.stack) :
    L.Obeys e (send invoke target message args) := by
  refine .ask_bind (fun _ _ _ => rfl) fun m hm => ?_
  have hwithin := hm.within.context
  have hset : L.Good e (fun _ => True)
      (Action.changeContext fun c => { c with target := some target }) m := by
    refine .changeContext hm rfl ⟨hwithin.stack, fun h hh => ?_, hwithin.frames⟩
    cases hh
    exact htarget
  refine hset.bind fun _ m₁ _ _ hm₁ => ?_
  have hdeliver : L.Good e (fun _ => True)
      (deliver invoke message args maxStations false target) m₁ :=
    deliver_obeys hinvoke htarget m₁ hm₁
  refine ⟨L.fair_andThen (fun _ _ => rfl) hdeliver.fair, ?_, fun _ _ _ => trivial⟩
  rw [Action.after_andThen]
  have hafter := hdeliver.admits.within.context
  exact hdeliver.admits.context rfl ⟨hafter.stack, hwithin.target, hafter.frames⟩

theorem notify_obeys (hinvoke : L.Invokes invoke) (htarget : L.reach target.stack) :
    L.Obeys e (notify invoke target message) := by
  refine .bind (Obeys.ask fun _ _ _ => rfl) fun locked _ => ?_
  split
  · exact .pure trivial
  · exact send_obeys hinvoke htarget

theorem callBuiltin_obeys : L.Obeys e (callBuiltin name args) := by
  unfold callBuiltin callBuiltin?
  cases Builtin.named? name with
  | none => exact .fail rfl
  | some b =>
    refine .get_bind (fun m g _ => by rw [Machine.call_withGlobals]) fun m hm => ?_
    refine (Obeys.skipDraws _ m hm).bind fun _ m₁ _ _ hm₁ => ?_
    refine (Obeys.changeClock (·.skip b.readings) m₁ hm₁).bind fun _ m₂ _ _ hm₂ => ?_
    exact Obeys.ofExcept (b.call_recoverable name m args) m₂ hm₂

theorem callFrom_obeys (hinvoke : L.Invokes invoke) (hh : L.reach h.stack) :
    L.Obeys e (callFrom invoke name args stations h) := by
  induction stations generalizing h with
  | zero => exact callBuiltin_obeys
  | succ stations ih =>
    refine .bind (handlerAt?_yields hh) fun handler? hhandler => ?_
    cases handler? with
    | none => exact nextStation?_obeys hh (fun _ => ih) callBuiltin_obeys
    | some handler =>
      refine .bind (hinvoke hh (hhandler handler rfl)) fun flow _ => ?_
      cases flow with
      | pass => exact nextStation?_obeys hh (fun _ => ih) callBuiltin_obeys
      | _ => exact .pure trivial

theorem callFunction_obeys (hinvoke : L.Invokes invoke) :
    L.Obeys e (callFunction invoke name args) := by
  refine .get_bind (fun _ _ _ => rfl) fun m hm => ?_
  split
  next hme => exact callFrom_obeys hinvoke (hm.within.me? hme) m hm
  next hcard => exact callFrom_obeys hinvoke (hm.within.currentCard hcard) m hm
  next => exact callBuiltin_obeys m hm

theorem currentStack_yields : L.Yields e L.reach (Action.demand (·.currentStack)) :=
  .demand (fun _ _ _ => rfl) (·.currentStack_recoverable) fun _ _ hm h => hm.within.currentStack h

theorem currentCard_yields :
    L.Yields e (fun h => L.reach h.stack) (Action.demand (·.currentCard)) :=
  .demand (fun _ _ _ => rfl) (·.currentCard_recoverable) fun _ _ hm h => hm.within.currentCard h

theorem usualReceiver_yields : L.Yields e (fun h => L.reach h.stack) usualReceiver := by
  refine .demand (fun _ _ _ => rfl) (fun m => ?_) fun m h hm hh => ?_
  · split
    · exact recoverable_ok _
    · exact m.currentCard_recoverable
  · split at hh
    next me hme =>
      cases hh
      exact hm.within.me? hme
    next => exact hm.within.currentCard hh

/-! ## Expressions -/

theorem resolve_yields (hspec : spec.Within L.reach) :
    L.Yields e (fun h => L.reach h.stack) (Action.resolve spec) := by
  refine .get_bind (fun m g _ => by rw [Machine.resolve_withGlobals]) fun m hm => ?_
  refine (Obeys.skipDraws _ m hm).bind fun _ m₁ _ _ hm₁ => ?_
  exact Yields.ofExcept (m.resolve_recoverable spec) (fun h hh => hm.within.resolve hspec hh) m₁ hm₁

theorem usualOwner_obeys : L.Obeys e (usualOwner type) := by
  unfold usualOwner
  split
  · exact .bind currentStack_yields fun _ _ => .pure trivial
  · exact .bind currentStack_yields fun _ _ => .pure trivial
  · exact currentCard_yields.obeys

theorem countParts_obeys : L.Obeys e (countParts type layer owner) := by
  refine .ask_bind (fun _ _ _ => rfl) fun m hm => ?_
  split
  · exact Yields.pure trivial m hm
  · exact Yields.fail rfl m hm

theorem pinChunk_obeys : L.Obeys e (pinChunk chunk text) := by
  refine .ask_bind (fun _ _ _ => rfl) fun m hm => ?_
  exact (Obeys.skipDraws _ m hm).bind fun _ m₁ _ _ hm₁ => Yields.pure trivial m₁ hm₁

theorem itemDelimiter_obeys : L.Obeys e (Action.ask (·.world.itemDelimiter)) :=
  Obeys.ask fun _ _ _ => rfl

mutual

theorem evalExpr_obeys (hinvoke : L.Invokes invoke) : ∀ x, L.Obeys e (evalExpr invoke x)
  | .literal _ _ => .pure trivial
  | .var name => Obeys.ask (Machine.discreet_valueOf name)
  | .binary op lhs rhs => by
    refine .bind (evalExpr_obeys hinvoke lhs) fun left _ =>
      .bind (Obeys.ofExcept (op.settledBy_recoverable left)) fun settled _ => ?_
    cases settled with
    | some v => exact .pure trivial
    | none =>
      exact .bind (evalExpr_obeys hinvoke rhs) fun right _ =>
        Obeys.ofExcept (op.apply_recoverable left right)
  | .unary op operand =>
    .bind (evalExpr_obeys hinvoke operand) fun v _ => Obeys.ofExcept (op.apply_recoverable v)
  | .chunk c source =>
    .bind (evalExpr_obeys hinvoke source) fun _ _ => .bind (evalChunk_obeys hinvoke c) fun _ _ =>
      .bind pinChunk_obeys fun _ _ => .bind itemDelimiter_obeys fun _ _ => .pure trivial
  | .property name none =>
    Obeys.demand (fun _ _ _ => rfl) fun m => m.world.property_recoverable name.spelling
  | .property name (some p) =>
    .bind (evalPart_yields hinvoke p) fun _ hspec => .bind (resolve_yields hspec) fun _ _ =>
      Obeys.demand (fun _ _ _ => rfl) fun _ => Stack.getProperty_recoverable ..
  | .part p =>
    .bind (evalPart_yields hinvoke p) fun _ hspec => .bind (resolve_yields hspec) fun _ _ =>
      Obeys.demand (fun _ _ _ => rfl) fun _ => Stack.contents_recoverable ..
  | .call _ args =>
    .bind (evalArgs_obeys hinvoke args) fun _ _ => callFunction_obeys hinvoke
  | .countChunks _ source =>
    .bind (evalExpr_obeys hinvoke source) fun _ _ => .bind itemDelimiter_obeys fun _ _ =>
      .pure trivial
  | .countParts _ _ none => .bind usualOwner_obeys fun _ _ => countParts_obeys
  | .countParts _ _ (some owner) =>
    .bind (evalPart_yields hinvoke owner) fun _ hspec => .bind (resolve_yields hspec) fun _ _ =>
      countParts_obeys

theorem evalArgs_obeys (hinvoke : L.Invokes invoke) : ∀ args, L.Obeys e (evalArgs invoke args)
  | [] => .pure trivial
  | x :: rest =>
    .bind (evalExpr_obeys hinvoke x) fun _ _ => .bind (evalArgs_obeys hinvoke rest) fun _ _ =>
      .pure trivial

theorem evalIndex_obeys (hinvoke : L.Invokes invoke) : ∀ i, L.Obeys e (evalIndex invoke i)
  | .at number =>
    .bind (evalExpr_obeys hinvoke number) fun v _ => Obeys.ofExcept (chunkNumber_recoverable v)
  | .ordinal _ => .pure trivial

theorem evalStop_obeys (hinvoke : L.Invokes invoke) : ∀ i, L.Obeys e (evalStop invoke i)
  | none => .pure trivial
  | some i => .bind (evalIndex_obeys hinvoke i) fun _ _ => .pure trivial

theorem evalChunk_obeys (hinvoke : L.Invokes invoke) : ∀ c, L.Obeys e (evalChunk invoke c)
  | .mk _ start stop none =>
    .bind (evalIndex_obeys hinvoke start) fun _ _ => .bind (evalStop_obeys hinvoke stop) fun _ _ =>
      .pure trivial
  | .mk _ start stop (some outer) =>
    .bind (evalChunk_obeys hinvoke outer) fun _ _ =>
      .bind (evalIndex_obeys hinvoke start) fun _ _ =>
        .bind (evalStop_obeys hinvoke stop) fun _ _ => .pure trivial

/-- What a script can address starts from the target or from the part it stands in. -/
theorem evalPart_yields (hinvoke : L.Invokes invoke) :
    ∀ p, L.Yields e (Specifier.Within L.reach) (evalPart invoke p)
  | .id layer type number =>
    .bind (evalExpr_obeys hinvoke number) fun v _ =>
      .ofExcept (idSpecifier_recoverable layer type v) fun _ h =>
        .unanchored (anchor?_idSpecifier h)
  | .named layer type name =>
    .bind (evalExpr_obeys hinvoke name) fun v _ =>
      .pure (.unanchored (anchor?_namedSpecifier layer type v))
  | .ordinal .. => .pure (.unanchored rfl)
  | .position .. => .pure (.unanchored rfl)
  | .stack none => .pure (.unanchored rfl)
  | .stack (some name) =>
    .bind (evalExpr_obeys hinvoke name) fun _ _ => .pure (.unanchored rfl)
  | .of part owner =>
    .bind (evalPart_yields hinvoke owner) fun _ howner =>
      .bind (evalPart_yields hinvoke part) fun _ _ => .pure howner
  | .me => by
    refine .demand (fun _ _ _ => rfl) (fun m => ?_) fun m spec hm hspec n hn => ?_
    · split <;> simp [Failure.isInternal]
    · split at hspec
      next h hme =>
        cases hspec
        cases hn
        exact hm.within.me? hme
      next => cases hspec
  | .target => by
    refine .demand (fun _ _ _ => rfl) (fun m => ?_) fun m spec hm hspec n hn => ?_
    · split <;> simp [Failure.isInternal]
    · split at hspec
      next h htarget =>
        cases hspec
        cases hn
        exact hm.within.context.target h htarget
      next => cases hspec

end

theorem resolvePart_yields (hinvoke : L.Invokes invoke) :
    L.Yields e (fun h => L.reach h.stack) (resolvePart invoke p) :=
  .bind (evalPart_yields hinvoke p) fun _ hspec => resolve_yields hspec

/-! ## Containers -/

theorem settleChunk_obeys : L.Obeys e (settleChunk slot chunk) := by
  unfold settleChunk
  split
  · exact .pure trivial
  · exact .bind (Obeys.demand slot.discreet_current (slot.current_recoverable ·)) fun _ _ =>
      pinChunk_obeys

theorem addressOf_obeys (hinvoke : L.Invokes invoke) : L.Obeys e (addressOf invoke slot c) := by
  cases c with
  | none => exact .pure trivial
  | some c =>
    exact .bind (evalChunk_obeys hinvoke c) fun _ _ => .bind settleChunk_obeys fun _ _ =>
      .pure trivial

theorem evalContainer_obeys (hinvoke : L.Invokes invoke) (c : Container) :
    L.Obeys e (evalContainer invoke c) := by
  cases c with
  | var name chunk => exact addressOf_obeys hinvoke
  | part p chunk => exact .bind (resolvePart_yields hinvoke) fun _ _ => addressOf_obeys hinvoke
  | property name p chunk =>
    cases p with
    | none => exact addressOf_obeys hinvoke
    | some p => exact .bind (resolvePart_yields hinvoke) fun _ _ => addressOf_obeys hinvoke
  | messageBox => exact .pure trivial

/-- A change of the world alone that leaves open what was open. -/
theorem changeWorld?_obeys {f : Machine → Except Failure Machine}
    (hf : ∀ m g, m.ReadsAlike g → f (m.withGlobals g) = (f m).map (·.withGlobals g))
    (hrecoverable : ∀ m, Recoverable (f m))
    (hchange : ∀ m m', f m = .ok m' → ∃ w, m' = m.withWorld w ∧ World.Change m.world w ∧
      (m.world.desktop.Within L.reach → w.desktop.Within L.reach)) :
    L.Obeys e (Action.change f) := by
  have hroutine := Action.Routine.change hf hrecoverable
  refine .change (fun m hm => L.fair_routine hm hroutine) fun m m' hm hm' => ?_
  obtain ⟨w, rfl, hworld, hdesktop⟩ := hchange m m' hm'
  have hglobals : w.globals = m.world.globals := by
    have h := hroutine.discreet.globals_after m
    simp only [Action.after, Action.change_apply, hm'] at h
    exact h
  exact hm.change hworld (hdesktop hm.desktop) (hglobals ▸ hm.globals)

theorem editStack_good {x : Editing Stack α} (hx : x.Atomic) (hm : L.Admits e m)
    (hfair : L.Fair (editStack number x) m)
    (hchange : ∀ a s, x.outcome (m.world.stack number) = .ok (a, s) →
      World.Change m.world (m.world.withStack number s)) :
    L.Good e (fun _ => True) (editStack number x) m := by
  refine ⟨hfair, ?_, fun _ _ _ => trivial⟩
  have hedit := editStack_apply hx number m
  cases houtcome : x.outcome (m.world.stack number) with
  | ok made =>
    rw [houtcome] at hedit
    simp only [Action.after, hedit]
    exact hm.change (hchange _ _ houtcome) hm.desktop hm.globals
  | error f =>
    rw [houtcome] at hedit
    simp only [Action.after, hedit]
    exact hm

theorem editStack_obeys {x : Editing Stack Unit} (hx : x.Atomic)
    (hrecoverable : ∀ s, Recoverable (x.result s))
    (hchange : ∀ w s, x.result (World.stack w number) = .ok s →
      World.Change w (w.withStack number s)) :
    L.Obeys e (editStack number x) := by
  have hroutine : (editStack number x).Routine := by
    refine ⟨.editStack number x, fun m => Action.recoversAt_editStack ?_⟩
    rw [Editing.outcome_eq]
    exact (hrecoverable _).map _
  exact fun m hm => editStack_good hx hm (L.fair_routine hm hroutine) fun _ s hs =>
    hchange m.world s (Editing.result_eq_of_outcome hs)

theorem setPartProperty_obeys (h : Handle) (name : String) (value : Value) :
    L.Obeys e (editStack h.stack (Stack.settingProperty h.found name value)) :=
  editStack_obeys (Stack.settingProperty_atomic ..)
    (fun s => s.setProperty_recoverable h.found name value) fun _ _ hs =>
      .partProperty (Failure.bind_eq_ok.2 ⟨_, hs, rfl⟩)

theorem setContents_obeys (h : Handle) (value : Value) :
    L.Obeys e (editStack h.stack (Stack.settingContents h.found value)) :=
  editStack_obeys (Stack.settingContents_atomic ..)
    (fun s => s.setContents_recoverable h.found value) fun _ _ hs =>
      .contents (Failure.bind_eq_ok.2 ⟨_, hs, rfl⟩)

theorem setWorldProperty_obeys (name : String) (value : Value) :
    L.Obeys e (Action.edit (Machine.onWorld (World.settingProperty name value))) := by
  rw [Action.edit_setProperty]
  refine changeWorld?_obeys (fun m g _ => ?_) (fun m => ?_) fun m m' hm => ?_
  · show World.setProperty { m.world with globals := g } name value >>= _ = _
    rw [World.setProperty_eq, World.setProperty_eq]
    split
    · rfl
    split
    · rfl
    · dsimp only
      cases m.world.properties.set name value <;> rfl
  · exact (World.setProperty_recoverable ..).map _
  · obtain ⟨w, hw, hm⟩ := Failure.bind_eq_ok.1 hm
    cases hm
    refine ⟨w, rfl, .property hw, fun hdesktop => ?_⟩
    obtain ⟨table, -, rfl, -⟩ := World.setProperty_eq_ok hw
    exact hdesktop

theorem store_obeys (slot : Slot) (value : Value) :
    L.Obeys .inside (Action.edit (slot.storing value)) := by
  cases slot with
  | «variable» name => exact .assign name value
  | contents part => exact setContents_obeys part value
  | property name part =>
    cases part with
    | some part => exact setPartProperty_obeys part name.spelling value
    | none => exact setWorldProperty_obeys name.spelling value
  | messageBox =>
    exact .changeWorld (fun _ _ => rfl) (fun _ => .message _) fun _ h =>
      ⟨h.opened, h.location, h.history⟩

theorem write_obeys (a : Address) (preposition : Preposition) (value : Value) :
    L.Obeys .inside (Action.edit (a.writing preposition value)) := by
  by_cases hslot : a.slot = .messageBox
  · have hwrite : a.writing preposition value = a.slot.storing value := by
      rw [Address.writing, hslot]
      rfl
    rw [hwrite]
    exact store_obeys a.slot value
  · rw [Action.edit_writing hslot]
    refine .bind (Obeys.demand (fun _ _ _ => rfl) a.checkChunk_recoverable) fun _ _ => ?_
    refine .bind (Obeys.demand (a.discreet_updated preposition value) fun m => ?_) fun v _ =>
      store_obeys a.slot v
    exact a.updated_recoverable m preposition value

/-! ## Navigation -/

theorem leaveCard_obeys (hinvoke : L.Invokes invoke) : L.Obeys e (leaveCard invoke) := by
  refine .get_bind (fun _ _ _ => rfl) fun m hm => ?_
  split
  next leaving hleaving =>
    have hstack := hm.within.currentCard hleaving
    exact Yields.bind (notify_obeys hinvoke hstack) (fun _ _ => .pure trivial) m hm
  next => exact Yields.pure trivial m hm

theorem arrive_obeys (hinvoke : L.Invokes invoke) (hstack : L.reach destination.stack) :
    L.Obeys e (arrive invoke destination announce) := by
  have hcontext : L.Obeys e (Action.changeContext fun c =>
      { c with stack := some destination.stack, card := none, result := .empty }) := by
    refine .changeContext (fun _ => rfl) fun c hc => ⟨fun n hn => ?_, hc.target, hc.frames⟩
    cases hn
    exact hstack
  have hshow : L.Obeys e (editStack destination.stack (Stack.showingCard destination.card)) :=
    editStack_obeys (Stack.showingCard_atomic _) (fun s => s.showCard_recoverable _)
      fun _ _ h => .showCard h
  refine .bind (leaveCard_obeys hinvoke) fun goOn _ => ?_
  split
  · have arrival : L.Obeys e (do
        editStack destination.stack (Stack.showingCard destination.card)
        Action.changeContext fun c =>
          { c with stack := some destination.stack, card := none, result := .empty }
        return (← notify invoke (.ofCard destination.stack destination.card)
          "openCard").afterMessage) :=
      .bind hshow fun _ _ => .bind hcontext fun _ _ =>
        .bind (notify_obeys hinvoke hstack) fun _ _ => .pure trivial
    split
    · exact .bind (Obeys.navigate hstack) fun _ _ => arrival
    · exact arrival
  · exact .pure trivial

theorem goBack_obeys (hinvoke : L.Invokes invoke) : L.Obeys e (goBack invoke) := by
  refine .ask_bind (fun _ _ _ => rfl) fun m hm => ?_
  obtain ⟨hprevious, hdesktop⟩ := hm.desktop.goBack
  dsimp only
  refine Good.bind (.changeWorld hm (fun _ _ => rfl) .goBack hdesktop) fun _ m₁ _ _ hm₁ => ?_
  split
  next destination hdestination =>
    exact arrive_obeys hinvoke (hprevious destination hdestination) m₁ hm₁
  next => exact Yields.bind (Obeys.setResult _) (fun _ _ => .pure trivial) m₁ hm₁

theorem goTo_obeys (hinvoke : L.Invokes invoke) : L.Obeys e (goTo invoke p effect) := by
  refine .bind (evalPart_yields hinvoke p) fun spec hspec => ?_
  refine .get_bind (fun m g _ => by rw [Machine.locate_withGlobals]) fun m hm => ?_
  refine (Obeys.skipDraws _ m hm).bind fun _ m₁ _ _ hm₁ => ?_
  split
  next hplace => exact arrive_obeys hinvoke (hm.within.locate hspec hplace) m₁ hm₁
  next => exact Yields.bind (Obeys.setResult _) (fun _ _ => .pure trivial) m₁ hm₁

theorem go_obeys (hinvoke : L.Invokes invoke) : L.Obeys e (go invoke destination) := by
  refine .bind Obeys.takeEffect fun effect _ => ?_
  cases destination with
  | some p => exact goTo_obeys hinvoke
  | none => exact goBack_obeys hinvoke

/-- The card taken for current is forgotten. -/
theorem forgetCard_obeys : L.Obeys e (Action.changeContext fun c => { c with card := none }) :=
  .changeContext (fun _ => rfl) fun _ hc => ⟨hc.stack, hc.target, hc.frames⟩

theorem welcome_obeys (hinvoke : L.Invokes invoke) (hstack : L.reach stack) :
    L.Obeys e (welcome invoke stack card message) :=
  .bind forgetCard_obeys fun _ _ => .bind Obeys.takeEffect fun _ _ =>
    .bind (Obeys.navigate hstack) fun _ _ => .bind (notify_obeys hinvoke hstack) fun _ _ =>
      .pure trivial

theorem makeCard_obeys (hinvoke : L.Invokes invoke) : L.Obeys e (makeCard invoke) := by
  refine .bind currentStack_yields fun number hnumber => ?_
  have hadding : L.Obeys e (editStack number Stack.addingCard) := fun m hm =>
    editStack_good Stack.addingCard_atomic hm (L.fair_newCard hm hnumber) fun _ _ h => .newCard h
  exact hadding.bind fun _ _ => welcome_obeys hinvoke hnumber

theorem makeBackground_obeys (hinvoke : L.Invokes invoke) :
    L.Obeys e (makeBackground invoke) := by
  refine .bind currentStack_yields fun number hnumber => .ask_bind (fun _ _ _ => rfl) fun m hm => ?_
  refine Good.bind (.changeWorld hm (fun _ _ => rfl) .newBackground hm.desktop)
    fun _ m₁ _ _ hm₁ => ?_
  exact welcome_obeys hinvoke hnumber m₁ hm₁

theorem removeCard_obeys (hinvoke : L.Invokes invoke) (hh : L.reach h.stack) :
    L.Obeys e (removeCard invoke h) := by
  unfold removeCard
  split
  next id _ =>
    have hdelete : L.Obeys e (editStack h.stack (Stack.removingCard id)) :=
      editStack_obeys (Stack.removingCard_atomic id) (fun s => s.deleteCard_recoverable id)
        fun _ _ h => .deleteCard h
    refine .bind (notify_obeys hinvoke hh) fun flow _ => ?_
    split
    · exact .pure trivial
    refine .bind (Obeys.ask fun _ _ _ => rfl) fun wasCurrent _ => .bind hdelete fun _ _ =>
      .bind forgetCard_obeys fun _ _ => ?_
    split
    · exact .bind Obeys.takeEffect fun _ _ => .bind (Obeys.ask fun _ _ _ => rfl) fun _ _ =>
        .bind (Obeys.navigate hh) fun _ _ => .pure trivial
    · exact .pure trivial
  next => exact .bind (Obeys.ask fun _ _ _ => rfl) fun _ _ => .fail rfl

/-! ## Commands -/

theorem checkAbort_obeys : L.Obeys e (Action.demand (·.checkAbort)) :=
  Obeys.demand (fun _ _ _ => rfl) (·.checkAbort_recoverable)

theorem beep_obeys : L.Obeys e (Action.changeWorld fun w => { w with desktop := w.desktop.beep }) :=
  .changeWorld (fun _ _ => rfl) (fun _ => .beep) fun _ h => ⟨h.opened, h.location, h.history⟩

theorem pause_obeys : L.Obeys e (pause millis) :=
  .bind checkAbort_obeys fun _ _ => Obeys.changeClock (·.advance millis)

theorem beepAgain_obeys : L.Obeys e (beepAgain interval times) := by
  induction times with
  | zero => exact .pure trivial
  | succ times ih => exact .bind pause_obeys fun _ _ => .bind beep_obeys fun _ _ => ih

theorem beepTimes_obeys : L.Obeys e (beepTimes times) := by
  unfold beepTimes
  split
  · exact .bind beep_obeys fun _ _ => .bind (Obeys.ask fun _ _ _ => rfl) fun _ _ => beepAgain_obeys
  · exact .pure trivial

theorem waitFor_obeys : L.Obeys e (waitFor amount unit) := by
  have waiting (seconds : Float) : L.Obeys e (do
      if 0 < seconds then pause (millisOf seconds)
      Action.demand (·.checkAbort)) := by
    split
    · exact .bind pause_obeys fun _ _ => checkAbort_obeys
    · exact checkAbort_obeys
  exact waiting _

theorem passThrough_obeys {body : Action Flow} (hbody : L.Obeys e body) :
    L.Obeys e (passThrough body) :=
  .bind checkAbort_obeys fun _ _ => .bind hbody fun _ _ => .pure trivial

theorem loopWhile_obeys {test : Action Bool} {body : Action Flow} (htest : L.Obeys e test)
    (hbody : L.Obeys e body) : L.Obeys e (loopWhile test body fuel) := by
  induction fuel with
  | zero => exact .outOfFuel
  | succ fuel ih =>
    refine .bind htest fun goOn _ => ?_
    split
    · refine .bind (passThrough_obeys hbody) fun flow _ => ?_
      cases flow with
      | some flow => exact .pure trivial
      | none => exact ih
    · exact .pure trivial

theorem loopTimes_obeys {body : Action Flow} (hbody : L.Obeys e body) :
    L.Obeys e (loopTimes body times) := by
  induction times with
  | zero => exact .pure trivial
  | succ times ih =>
    refine .bind (passThrough_obeys hbody) fun flow _ => ?_
    cases flow with
    | some flow => exact .pure trivial
    | none => exact ih

theorem loopCounting_obeys {body : Action Flow} (hbody : L.Obeys .inside body) :
    L.Obeys .inside (loopCounting counter step body times value) := by
  induction times generalizing value with
  | zero => exact .pure trivial
  | succ times ih =>
    refine .bind (Obeys.assign counter _) fun _ _ =>
      .bind (passThrough_obeys hbody) fun flow _ => ?_
    cases flow with
    | some flow => exact .pure trivial
    | none => exact ih

theorem evalTest_obeys (hinvoke : L.Invokes invoke) : L.Obeys e (evalTest invoke x) :=
  .bind (evalExpr_obeys hinvoke x) fun v _ => Obeys.ofExcept v.toBoolean_recoverable

theorem evalInteger_obeys (hinvoke : L.Invokes invoke) : L.Obeys e (evalInteger invoke x) :=
  .bind (evalExpr_obeys hinvoke x) fun v _ => Obeys.ofExcept v.toInteger_recoverable

theorem runLoop_obeys (hinvoke : L.Invokes invoke) {body : Action Flow}
    (hbody : L.Obeys .inside body) : L.Obeys .inside (runLoop invoke fuel kind body) := by
  cases kind with
  | forever => exact loopWhile_obeys (.pure trivial) hbody
  | count times => exact .bind (evalInteger_obeys hinvoke) fun _ _ => loopTimes_obeys hbody
  | whileTrue condition => exact loopWhile_obeys (evalTest_obeys hinvoke) hbody
  | untilTrue condition =>
    exact loopWhile_obeys (.bind (evalTest_obeys hinvoke) fun _ _ => .pure trivial) hbody
  | counting counter first final down =>
    refine .bind (evalInteger_obeys hinvoke) fun _ _ =>
      .bind (evalInteger_obeys hinvoke) fun _ _ => ?_
    split
    · exact loopCounting_obeys hbody
    · exact loopCounting_obeys hbody

theorem sendText_obeys (hinvoke : L.Invokes invoke) : L.Obeys e (sendText invoke text target) := by
  unfold sendText
  split
  split
  · exact .fail rfl
  cases target with
  | some p =>
    exact .bind (resolvePart_yields hinvoke) fun _ hreceiver =>
      .bind (send_obeys hinvoke hreceiver) fun _ _ => .pure trivial
  | none =>
    exact .bind usualReceiver_yields fun _ hreceiver =>
      .bind (send_obeys hinvoke hreceiver) fun _ _ => .pure trivial

theorem updateContainer_obeys (hinvoke : L.Invokes invoke)
    (hop : ∀ v w, Recoverable (op v w)) :
    L.Obeys .inside (updateContainer invoke op value target) := by
  refine .bind (evalExpr_obeys hinvoke value) fun operand _ =>
    .bind (evalContainer_obeys hinvoke target) fun address _ =>
      .bind (Obeys.demand address.discreet_read address.read_recoverable) fun current _ =>
        .bind (Obeys.ofExcept (hop current operand)) fun updated _ => ?_
  exact .bind (write_obeys address .into updated) fun _ _ => .pure trivial

theorem declareGlobals_obeys (hnames : L.Permits names) :
    L.Obeys .inside (declareGlobals names) := by
  induction names with
  | nil => exact .pure trivial
  | cons name rest ih =>
    have hrest : L.Permits rest := fun other hother => hnames other (List.mem_cons_of_mem _ hother)
    exact .bind (Obeys.declareGlobal (hnames name List.mem_cons_self)) fun _ _ => ih hrest

theorem setProperty_obeys (hinvoke : L.Invokes invoke) :
    L.Obeys e (setProperty invoke name value part) := by
  cases part with
  | some p => exact .bind (resolvePart_yields hinvoke) fun h _ => setPartProperty_obeys h name value
  | none => exact setWorldProperty_obeys name value

theorem Terms.Permits.append {T : Terms} {names others : List Symbol}
    (h : T.Permits (names ++ others)) : T.Permits names ∧ T.Permits others :=
  ⟨fun name hname => h name (List.mem_append_left _ hname),
    fun name hname => h name (List.mem_append_right _ hname)⟩

mutual

theorem execCommand_obeys (hinvoke : L.Invokes invoke) :
    ∀ c, L.Permits c.declared → L.Obeys .inside (execCommand invoke fuel c)
  | .put value preposition target, _ =>
    .bind (evalExpr_obeys hinvoke value) fun v _ =>
      .bind (evalContainer_obeys hinvoke target) fun address _ =>
        .bind (write_obeys address preposition v) fun _ _ => .pure trivial
  | .get value, _ =>
    .bind (evalExpr_obeys hinvoke value) fun v _ => .bind (Obeys.assign _ v) fun _ _ =>
      .pure trivial
  | .set _ _ value, _ =>
    .bind (evalExpr_obeys hinvoke value) fun _ _ => .bind (setProperty_obeys hinvoke) fun _ _ =>
      .pure trivial
  | .global names, hnames =>
    have hnames : L.Permits names := by simpa only [Command.declared] using hnames
    .bind (declareGlobals_obeys hnames) fun _ _ => .pure trivial
  | .add .., _ => updateContainer_obeys hinvoke fun _ _ => Value.arithmetic_recoverable ..
  | .subtract .., _ => updateContainer_obeys hinvoke fun _ _ => Value.arithmetic_recoverable ..
  | .multiply .., _ => updateContainer_obeys hinvoke fun _ _ => Value.arithmetic_recoverable ..
  | .divide .., _ => updateContainer_obeys hinvoke Value.divide_recoverable
  | .go _, _ => go_obeys hinvoke
  | .beep none, _ => .bind beepTimes_obeys fun _ _ => .pure trivial
  | .beep (some _), _ =>
    .bind (evalInteger_obeys hinvoke) fun _ _ => .bind beepTimes_obeys fun _ _ => .pure trivial
  | .wait duration _, _ =>
    .bind (evalExpr_obeys hinvoke duration) fun v _ =>
      .bind (Obeys.ofExcept v.toReal_recoverable) fun _ _ => .bind waitFor_obeys fun _ _ =>
        .pure trivial
  | .send message _, _ =>
    .bind (evalExpr_obeys hinvoke message) fun _ _ => sendText_obeys hinvoke
  | .visualEffect effect, _ =>
    .bind (evalExpr_obeys hinvoke effect) fun v _ => .bind (Obeys.effect (some v.text)) fun _ _ =>
      .pure trivial
  | .newCard, _ => makeCard_obeys hinvoke
  | .newBackground, _ => makeBackground_obeys hinvoke
  | .deleteCard none, _ =>
    .bind currentCard_yields fun _ hh => removeCard_obeys hinvoke hh
  | .deleteCard (some _), _ =>
    .bind (resolvePart_yields hinvoke) fun _ hh => removeCard_obeys hinvoke hh
  | .message _ args, _ =>
    .bind (evalArgs_obeys hinvoke args) fun _ _ => .bind usualReceiver_yields fun _ hreceiver =>
      .bind (send_obeys hinvoke hreceiver) fun _ _ => .pure trivial
  | .choose condition whenTrue whenFalse, hnames => by
    rw [Command.declared] at hnames
    refine .bind (evalTest_obeys hinvoke) fun holds _ => ?_
    split
    · exact execBlock_obeys hinvoke whenTrue hnames.append.1
    · exact execBlock_obeys hinvoke whenFalse hnames.append.2
  | .loop _ body, hnames => by
    rw [Command.declared] at hnames
    exact runLoop_obeys hinvoke (execBlock_obeys hinvoke body hnames)
  | .exitRepeat, _ => .pure trivial
  | .nextRepeat, _ => .pure trivial
  | .exitHandler, _ => .pure trivial
  | .exitToHyperCard, _ => .pure trivial
  | .pass, _ => .pure trivial
  | .giveBack none, _ => .pure trivial
  | .giveBack (some value), _ => .bind (evalExpr_obeys hinvoke value) fun _ _ => .pure trivial

theorem execStatement_obeys (hinvoke : L.Invokes invoke) :
    ∀ s, L.Permits s.declared → L.Obeys .inside (execStatement invoke fuel s)
  | .mk _ command, hnames => by
    rw [Statement.declared] at hnames
    exact .noting (execCommand_obeys hinvoke command hnames) fun _ => rfl

theorem execBlock_obeys (hinvoke : L.Invokes invoke) :
    ∀ block, L.Permits (declaredIn block) → L.Obeys .inside (execBlock invoke fuel block)
  | [], _ => .pure trivial
  | s :: rest, hnames => by
    rw [declaredIn] at hnames
    refine .bind (execStatement_obeys hinvoke s hnames.append.1) fun flow _ => ?_
    cases flow with
    | normal => exact execBlock_obeys hinvoke rest hnames.append.2
    | _ => exact .pure trivial

end

/-! ## Handlers -/

theorem bindParams_obeys : L.Obeys .inside (bindParams names args) := by
  induction names generalizing args with
  | nil => exact .pure trivial
  | cons name names ih => exact .bind (Obeys.assign name _) fun _ _ => ih

theorem pushFrame_routine (message : String) (me : Option Handle) (args : List Value) :
    Action.Routine (Action.edit (Machine.pushingFrame message me args)) := by
  rw [Action.edit_eq_change (Machine.pushingFrame_atomic ..)]
  refine .change (fun m g _ => ?_) fun m => m.pushFrame_recoverable message me args
  show Machine.pushFrame _ message me args = (m.pushFrame message me args).map _
  rw [Machine.pushFrame_eq, Machine.pushFrame_eq]
  show (if m.world.settings.maxCallDepth ≤ m.depth then _ else _) = _
  split <;> rfl

/-- What is done in a frame of its own obeys a law if it does so inside. -/
theorem Enters.obeys {α : Type} {enter : Action Unit} {body rest : Action α}
    (henter : Enters message me args enter) (hfair : ∀ m, L.Admits e m → L.Fair enter m)
    (hme : ∀ handle ∈ me, L.reach handle.stack) (hbody : L.Obeys .inside body)
    (hfollows : body.Follows .inside) (hrest : ∀ m, L.Fair body m → L.Fair rest m)
    (hafter : ∀ m, rest.after m = (body.after m).popFrame) :
    L.Obeys e (enter >>= fun _ => rest) := by
  intro m hm
  rcases henter m with ⟨m₁, hpush, hx⟩ | ⟨halt, hx⟩
  · have hgood := hbody m₁ (hm.push hpush hme)
    refine ⟨L.fair_bind (hfair m hm) fun _ m' hm' => ?_, ?_, fun _ _ _ => trivial⟩
    · rw [hx] at hm'
      cases hm'
      exact hrest m₁ hgood.fair
    · have hbind : (enter >>= fun _ => rest).after m = rest.after m₁ := by
        simp only [Action.after, Action.bind_apply_ok hx]
      rw [hbind, hafter]
      exact hm.pop hpush (hfollows m₁) hgood.admits
  · refine ⟨L.fair_bind (hfair m hm) fun _ m' hm' => ?_, ?_, fun _ _ _ => trivial⟩
    · rw [hx] at hm'
      cases hm'
    · simp only [Action.after, Action.bind_apply_error hx]
      exact hm

theorem runHandler_obeys (hinvoke : L.Invokes invoke) (hfollows : invoke.Follows)
    (howner : L.reach owner.stack) (hnames : L.Permits (declaredIn handler.body)) :
    L.Obeys e (runHandler invoke fuel owner handler args) := by
  have hbody : L.Obeys .inside (do
      bindParams handler.params args
      execBlock invoke fuel handler.body) :=
    .bind bindParams_obeys fun _ _ => execBlock_obeys hinvoke handler.body hnames
  have hcourse : Action.Follows .inside (do
      bindParams handler.params args
      execBlock invoke fuel handler.body) :=
    .bind bindParams_follows fun _ => execBlock_follows hfollows handler.body
  refine (enters_pushFrame.noting _).obeys (fun m hm => ?_) (fun handle hhandle => ?_) hbody hcourse
    (fun m hfair => ?_) fun m => ?_
  · exact L.fair_noting (fun _ => rfl) (L.fair_routine hm (pushFrame_routine ..))
  · cases hhandle
    exact howner
  · exact L.fair_noting (fun _ => rfl) (L.fair_andThen (fun _ _ => rfl) hfair)
  · rw [Action.after_noting, Action.after_andThen]

theorem invoke_obeys (fuel : Nat) : L.Invokes (CardScript.invoke fuel) := by
  induction fuel with
  | zero => exact fun _ _ => .outOfFuel
  | succ fuel ih =>
    intro _ _ _ _ howner hnames
    exact runHandler_obeys ih (invoke_follows fuel) howner hnames

theorem runStatements_obeys (hnames : L.Permits (declaredIn statements)) :
    L.Obeys e (runStatements fuel statements) := by
  have hinvoke : L.Invokes (CardScript.invoke fuel) := invoke_obeys fuel
  have hblock : L.Obeys .inside (discard (execBlock (CardScript.invoke fuel) fuel statements)) :=
    .bind (execBlock_obeys hinvoke statements hnames) fun _ _ => .pure trivial
  have hbody : L.Obeys .inside (do
      discard (execBlock (CardScript.invoke fuel) fuel statements)
      Action.ask fun m => (m.lookup? ⟨"it"⟩).getD .empty) := by
    refine .bind hblock fun _ _ => Obeys.ask fun m g hreads => ?_
    rw [hreads]
  have hcourse : Action.Follows .inside (do
      discard (execBlock (CardScript.invoke fuel) fuel statements)
      Action.ask fun m => (m.lookup? ⟨"it"⟩).getD .empty) :=
    .bind (.bind (execBlock_follows (invoke_follows fuel) statements) fun _ => .pure _) fun _ =>
      .ask _
  refine enters_pushFrame.obeys (fun m hm => ?_) nofun hbody hcourse (fun m hfair => ?_) fun m => ?_
  · exact L.fair_routine hm (pushFrame_routine ..)
  · exact L.fair_andThen (fun _ _ => rfl) hfair
  · exact Action.after_andThen ..

/-! ## Runs -/

/-- What an action ends with. -/
def Action.outcome {α : Type} (x : Action α) (m : Machine) : Except Halt α :=
  match x m with
  | .ok a _ => .ok a
  | .error halt _ => .error halt

/-- A run answers what its action ends with, and leaves behind the world of the machine. -/
theorem World.run_eq (w : World) (stack : Option Nat) (x : Action Value) :
    w.run stack x =
      (x.outcome { world := w, context := { stack } },
        (x.after { world := w, context := { stack } }).world) := by
  unfold World.run Action.outcome Action.after
  cases x { world := w, context := { stack } } <;> rfl

/-- What is run for a message from outside any script. -/
def messageRun (fuel : Nat) (target : Option Specifier) (message : String) (args : List Value) :
    Action Value := do
  let receiver ← match target with
    | some spec => Action.resolve spec
    | none => Action.demand (·.currentCard)
  dispatch fuel receiver message args
  Action.ask (·.context.result)

theorem World.send_eq (w : World) (fuel stack : Nat) (target : Option Specifier)
    (message : String) (args : List Value) :
    w.send fuel stack target message args =
      w.run (some stack) (messageRun fuel target message args) := rfl

theorem messageRun_obeys (htarget : ∀ spec ∈ target, spec.Within L.reach) :
    L.Obeys e (messageRun fuel target message args) := by
  have hdispatch {receiver : Handle} (hreceiver : L.reach receiver.stack) :
      L.Obeys e (do
        dispatch fuel receiver message args
        Action.ask (·.context.result)) := by
    have hsend : L.Obeys e (dispatch fuel receiver message args) :=
      .bind (send_obeys (invoke_obeys fuel) hreceiver) fun _ _ => .pure trivial
    exact .bind hsend fun _ _ => Obeys.ask fun _ _ _ => rfl
  cases target with
  | some spec => exact .bind (resolve_yields (htarget spec rfl)) fun _ => hdispatch
  | none => exact .bind currentCard_yields fun _ => hdispatch

end CardScript
