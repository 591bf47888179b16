import CardScript.Proofs.Script.Tracing
import CardScript.Proofs.Stack.Entries

/-!
# The places of errors

When a handler fails, handlers and statements are under way, one inside the other: the statement of
a block that is being carried out, the block inside it or the handler it calls, and so on, down to a
statement that fails itself or a handler for which no frame is begun (`Run.Leads`,
`Run.FailsItself`). On its way out the error passes all of them, and each adds what the error lacks
(`Run.Leads.failsWith`). So it ends up with the place of the innermost ones: the handler entered
last and the statement begun last in it (`Run.Leads.placedFrom`).
-/

namespace CardScript

/-! ## Notes on errors -/

/-- What the one error says the other says as well. -/
structure ScriptError.KeptIn (e e' : ScriptError) : Prop where
  failure : e'.failure = e.failure
  span : ∀ span, e.span = some span → e'.span = some span
  handler : ∀ name, e.handler = some name → e'.handler = some name

namespace ScriptError.KeptIn

variable {e e' e'' : ScriptError}

theorem refl : e.KeptIn e := ⟨rfl, fun _ h => h, fun _ h => h⟩

theorem trans (h : e.KeptIn e') (h' : e'.KeptIn e'') : e.KeptIn e'' where
  failure := h'.failure.trans h.failure
  span span hspan := h'.span span (h.span span hspan)
  handler name hname := h'.handler name (h.handler name hname)

theorem atSpan (e : ScriptError) (span : Span) : e.KeptIn (e.atSpan span) :=
  ⟨rfl, fun known h => by simp [ScriptError.atSpan, h], fun _ h => h⟩

theorem inHandler (e : ScriptError) (name : String) : e.KeptIn (e.inHandler name) :=
  ⟨rfl, fun _ h => h, fun known h => by simp [ScriptError.inHandler, h]⟩

end ScriptError.KeptIn

/-- What is under way inside a run, or was refused. -/
inductive Step where
  | handler (handler : Handler)
  | refusal (handler : Handler)
  | statement (statement : Statement)

/-- What an error is given when it leaves. -/
def Step.note (e : ScriptError) : Step → ScriptError
  | handler h => e.inHandler h.name.spelling
  | refusal h => (e.atSpan h.span).inHandler h.name.spelling
  | statement s => e.atSpan s.span

theorem Step.keptIn_note (e : ScriptError) (step : Step) : e.KeptIn (step.note e) := by
  cases step with
  | handler h => exact .inHandler ..
  | refusal h => exact (ScriptError.KeptIn.atSpan ..).trans (.inHandler ..)
  | statement s => exact .atSpan ..

/-- What an error is given on its way out, from the innermost step to the outermost. -/
def noted (path : List Step) (e : ScriptError) : ScriptError :=
  path.foldr (fun step e => step.note e) e

theorem keptIn_noted (path : List Step) (e : ScriptError) : e.KeptIn (noted path e) := by
  induction path with
  | nil => exact .refl
  | cons step path ih => exact ih.trans (step.keptIn_note _)

/-! ## Runs inside runs -/

/-- A handler or a block that is carried out from a machine. -/
structure Run where
  fuel : Nat
  activity : Activity
  start : Machine

namespace Run

def result (r : Run) : EStateM.Result Halt Machine Flow :=
  insideOf (invoke r.fuel) r.fuel r.activity r.start

def FailsWith (r : Run) (e : ScriptError) : Prop :=
  ∃ m, r.result = .error (.failed e) m

theorem FailsWith.unique {r : Run} {e e' : ScriptError} (h : r.FailsWith e)
    (h' : r.FailsWith e') : e = e' := by
  obtain ⟨m, hm⟩ := h
  obtain ⟨m', hm'⟩ := h'
  cases hm.symm.trans hm'
  rfl

/-- The one run ends as the other does, if that fails: the body of a handler, the rest of a block,
what a statement fails in. -/
inductive Opens : Run → List Step → Run → Prop
  | body : m.pushFrame handler.name.spelling (some owner) args = .ok m₁ →
    bindParams handler.params args m₁ = .ok () m₂ →
    Opens ⟨n + 1, .call owner handler args, m⟩ [.handler handler] ⟨n, .block handler.body, m₂⟩
  | rest : execStatement (invoke n) n s m = .ok .normal m₁ →
    Opens ⟨n, .block (s :: rest), m⟩ [] ⟨n, .block rest, m₁⟩
  | inner : a.Among c.blocks →
    FailsIn (fun inside => c.carryOut inside n) (insideOf (invoke n) n) m a m₁ →
    Opens ⟨n, .block (.mk span c :: rest), m⟩ [.statement (.mk span c)] ⟨n, a, m₁⟩

/-- From a run to one inside it, with what is under way between them, from the outside in. -/
inductive Leads : Run → List Step → Run → Prop
  | refl : Leads r [] r
  | step : Opens r steps r₁ → Leads r₁ path r₂ → Leads r (steps ++ path) r₂

/-- The run fails, and not because one inside it does: no frame is begun for a handler, or its
statement fails whatever is reported from inside. -/
inductive FailsItself : Run → Step → Failure → Prop
  | refused : m.pushFrame handler.name.spelling (some owner) args = .error f →
    FailsItself ⟨n + 1, .call owner handler args, m⟩ (.refusal handler) f
  | statement : Settles (fun inside => c.carryOut inside n) (insideOf (invoke n) n) m
      (.error (.failed { failure := f }) m') →
    FailsItself ⟨n, .block (.mk span c :: rest), m⟩ (.statement (.mk span c)) f

end Run

/-! ## Parameters -/

namespace Frame

/-- The frame with parameters bound to arguments, one after another. -/
def binding : List Symbol → List Value → Frame → Frame
  | [], _, f => f
  | name :: names, args, f => (f.setLocal name (args.headD .empty)).binding names args.tail

variable {f : Frame} {name : Symbol} {names : List Symbol} {args : List Value}

/-- A frame with parameters is the same but for its variables. -/
theorem exists_binding_eq (names : List Symbol) (args : List Value) (f : Frame) :
    ∃ locals, f.binding names args = { f with locals } := by
  induction names generalizing args f with
  | nil => exact ⟨f.locals, rfl⟩
  | cons name names ih =>
    obtain ⟨locals, h⟩ := ih args.tail (f.setLocal name (args.headD .empty))
    exact ⟨locals, h⟩

theorem local?_binding_ne (h : ∀ other ∈ names, other.key ≠ name.key) :
    (f.binding names args).local? name = f.local? name := by
  induction names generalizing args f with
  | nil => rfl
  | cons other names ih =>
    obtain ⟨hother, hnames⟩ := List.forall_mem_cons.1 h
    rw [binding, ih hnames]
    exact PropertyTable.valueAt_put_ne hother.symm _ f.locals

/-- A parameter is bound to the argument in its place, and to nothing if there is none, unless the
same name comes again. -/
theorem local?_binding (before after : List Symbol) (h : ∀ later ∈ after, later.key ≠ name.key) :
    (f.binding (before ++ name :: after) args).local? name =
      some (args[before.length]?.getD .empty) := by
  induction before generalizing args f with
  | nil =>
    have hset := (PropertyTable.puts name.key (args.headD .empty)).valueAt_eq f.locals
    rw [List.nil_append, binding, local?_binding_ne h, List.length_nil, ← List.head?_eq_getElem?,
      ← List.headD_eq_head?_getD]
    exact hset
  | cons first before ih =>
    rw [List.cons_append, binding, ih, List.getElem?_tail, List.length_cons]

end Frame

/-- In a frame in which nothing is global, nothing stands against binding parameters. -/
theorem bindParams_apply {m : Machine} {f : Frame} (hf : m.frame? = some f)
    (hglobals : f.globals = []) (names : List Symbol) (args : List Value) :
    bindParams names args m = .ok () (m.onTop (·.binding names args)) := by
  induction names generalizing args m f with
  | nil => exact congrArg (EStateM.Result.ok ()) m.onTop_id.symm
  | cons name names ih =>
    have hassign : Action.edit (Machine.settingVariable name (args.headD .empty)) m =
        .ok () (m.onTop (·.setLocal name (args.headD .empty))) := by
      refine Action.edit_eq_ok.2 ((m.setVariable_eq name _).trans ?_)
      rw [hf, Option.elim_some, if_neg]
      rw [Frame.declares, hglobals]
      exact Bool.false_ne_true
    have hframe : (m.onTop (·.setLocal name (args.headD .empty))).frame? =
        some (f.setLocal name (args.headD .empty)) := by
      rw [Machine.frame?_onTop, hf, Option.map_some]
    refine (Action.bind_apply_ok hassign).trans ((ih hframe hglobals args.tail).trans ?_)
    rw [Machine.onTop_onTop]
    rfl

/-! ## Handlers and blocks that fail -/

section Failing

variable {calls : Invoke} {m m' m₁ m₂ : Machine} {e : ScriptError}

theorem bindParams_pushFrame {handler : Handler}
    (h : m.pushFrame handler.name.spelling (some owner) args = .ok m₁) :
    bindParams handler.params args m₁ = .ok () (m₁.onTop (·.binding handler.params args)) := by
  obtain ⟨-, f, -, -, -, -, hglobals, hcontext, -⟩ := Machine.pushFrame_eq_ok h
  refine bindParams_apply (f := f) ?_ hglobals _ _
  rw [Machine.frame?, hcontext]
  rfl

/-- A handler for which a frame is begun ends as its body does, once its parameters are bound. -/
theorem runHandler_of_pushFrame {handler : Handler}
    (hpush : m.pushFrame handler.name.spelling (some owner) args = .ok m₁)
    (hbind : bindParams handler.params args m₁ = .ok () m₂) :
    runHandler calls loops owner handler args m =
      (((execBlock calls loops handler.body).noting
        (·.inHandler handler.name.spelling)).andThen Machine.popFrame) m₂ := by
  have hbody : (bindParams handler.params args >>= fun _ =>
      execBlock calls loops handler.body) m₁ = execBlock calls loops handler.body m₂ :=
    Action.bind_apply_ok hbind
  rw [runHandler_eq, Action.inFrame_apply, hpush]
  simp only [handlerBody, Action.andThen, Action.noting, hbody]

theorem runHandler_of_refused {handler : Handler} {f : Failure}
    (hpush : m.pushFrame handler.name.spelling (some owner) args = .error f) :
    runHandler calls loops owner handler args m =
      .error (.failed (Step.note { failure := f } (.refusal handler))) m := by
  rw [runHandler_eq, Action.inFrame_apply, hpush]
  rfl

/-- A handler that fails gets no frame, or its body fails. -/
theorem runHandler_eq_error {handler : Handler}
    (h : runHandler calls loops owner handler args m = .error (.failed e) m') :
    (∃ f, m.pushFrame handler.name.spelling (some owner) args = .error f) ∨
      ∃ m₁ m₂ e₁ stop, m.pushFrame handler.name.spelling (some owner) args = .ok m₁ ∧
        bindParams handler.params args m₁ = .ok () m₂ ∧
        execBlock calls loops handler.body m₂ = .error (.failed e₁) stop := by
  cases hpush : m.pushFrame handler.name.spelling (some owner) args with
  | error f => exact .inl ⟨f, rfl⟩
  | ok m₁ =>
    obtain ⟨m₂, hbind⟩ : ∃ m₂, bindParams handler.params args m₁ = .ok () m₂ :=
      ⟨_, bindParams_pushFrame hpush⟩
    rw [runHandler_of_pushFrame hpush hbind] at h
    simp only [Action.andThen, Action.noting] at h
    cases hbody : execBlock calls loops handler.body m₂ with
    | ok flow stop => simp [hbody] at h
    | error halt stop =>
      cases halt with
      | outOfFuel => simp [hbody] at h
      | failed e₁ => exact .inr ⟨m₁, m₂, e₁, stop, rfl, hbind, hbody⟩

theorem execStatement_failed (h : execCommand calls loops c m = .error (.failed e) m') :
    execStatement calls loops (.mk span c) m = .error (.failed (e.atSpan span)) m' := by
  simp only [execStatement, Action.noting, h]

theorem execBlock_failed (h : execStatement calls loops s m = .error (.failed e) m') :
    execBlock calls loops (s :: rest) m = .error (.failed e) m' :=
  Action.bind_apply_error h

theorem execBlock_rest (h : execStatement calls loops s m = .ok .normal m₁) :
    execBlock calls loops (s :: rest) m = execBlock calls loops rest m₁ :=
  Action.bind_apply_ok h

/-- A block that fails does so in its first statement or, if that ends normally, in the others. -/
theorem execBlock_eq_error (h : execBlock calls loops (s :: rest) m = .error (.failed e) m') :
    execStatement calls loops s m = .error (.failed e) m' ∨
      ∃ m₁, execStatement calls loops s m = .ok .normal m₁ ∧
        execBlock calls loops rest m₁ = .error (.failed e) m' := by
  cases hs : execStatement calls loops s m with
  | error halt m₁ =>
    have hblock : execBlock calls loops (s :: rest) m = .error halt m₁ := Action.bind_apply_error hs
    exact .inl (hblock.symm.trans h)
  | ok flow m₁ =>
    cases flow with
    | normal => exact .inr ⟨m₁, rfl, (execBlock_rest hs).symm.trans h⟩
    | exitRepeat | nextRepeat | exitHandler | exitToHyperCard | pass | returned =>
      have hblock : execBlock calls loops (s :: rest) m = .ok _ m₁ := Action.bind_apply_ok hs
      rw [hblock] at h
      cases h

/-- An error has a position when it leaves a statement. -/
theorem execStatement_eq_error
    (h : execStatement calls loops (.mk span c) m = .error (.failed e) m') :
    ∃ e₀, execCommand calls loops c m = .error (.failed e₀) m' ∧ e = e₀.atSpan span := by
  simp only [execStatement, Action.noting] at h
  cases hc : execCommand calls loops c m with
  | ok flow m₁ => simp [hc] at h
  | error halt m₁ =>
    cases halt with
    | outOfFuel => simp [hc] at h
    | failed e₀ =>
      simp only [hc, EStateM.Result.error.injEq, Halt.failed.injEq] at h
      exact ⟨e₀, by rw [h.2], h.1.symm⟩

/-- A command that fails does so whatever is reported from inside, and without a position, or it
fails in something inside it. -/
theorem execCommand_eq_error (h : execCommand calls loops c m = .error (.failed e) m') :
    (∃ f, Settles (fun inside => c.carryOut inside loops) (insideOf calls loops) m
      (.error (.failed { failure := f }) m')) ∨
      ∃ a m₁, a.Among c.blocks ∧
        FailsIn (fun inside => c.carryOut inside loops) (insideOf calls loops) m a m₁ := by
  rcases Traced.carryOut loops c (insideOf calls loops) m with ⟨r, hplace, hsettles⟩ | hin
  · obtain rfl : r = .error (.failed e) m' := by
      rw [← hsettles.eq, Command.carryOut_insideOf]
      exact h
    have hbare : e = { failure := e.failure } := hplace
    exact .inl ⟨e.failure, hbare ▸ hsettles⟩
  · exact .inr hin

theorem execBlock_error_span (h : execBlock calls loops block m = .error (.failed e) m') :
    e.span.isSome := by
  induction block generalizing m with
  | nil => cases h
  | cons s rest ih =>
    rcases execBlock_eq_error h with hs | ⟨m₁, -, hrest⟩
    · obtain ⟨span, c⟩ := s
      obtain ⟨e₀, -, rfl⟩ := execStatement_eq_error hs
      simp [ScriptError.atSpan]
    · exact ih hrest

end Failing

namespace Run

variable {r r₁ : Run} {steps path : List Step} {step : Step} {e : ScriptError} {f : Failure}

/-- If the run inside fails, the one around it does, and notes what was under way. -/
theorem Opens.failsWith (h : r.Opens steps r₁) (hfails : r₁.FailsWith e) :
    r.FailsWith (noted steps e) := by
  obtain ⟨stop, hstop⟩ := hfails
  cases h with
  | body hpush hbind =>
    refine ⟨stop.popFrame, (runHandler_of_pushFrame hpush hbind).trans ?_⟩
    have hblock : execBlock _ _ _ _ = EStateM.Result.error (Halt.failed e) stop := hstop
    simp only [Action.andThen, Action.noting, hblock]
    rfl
  | rest hs => exact ⟨stop, (execBlock_rest hs).trans hstop⟩
  | inner _ hin =>
    obtain ⟨m', hc⟩ := hin.eq hstop
    rw [Command.carryOut_insideOf] at hc
    exact ⟨m', execBlock_failed (execStatement_failed hc)⟩

theorem FailsItself.failsWith (h : r.FailsItself step f) :
    r.FailsWith (step.note { failure := f }) := by
  cases h with
  | refused hpush => exact ⟨_, runHandler_of_refused hpush⟩
  | statement hsettles =>
    have hc := hsettles.eq
    rw [Command.carryOut_insideOf] at hc
    exact ⟨_, execBlock_failed (execStatement_failed hc)⟩

theorem Leads.failsWith (h : r.Leads path r₁) (hfails : r₁.FailsWith e) :
    r.FailsWith (noted path e) := by
  induction h with
  | refl => exact hfails
  | step hopens _ ih =>
    rw [noted, List.foldr_append]
    exact hopens.failsWith (ih hfails)

/-! ### Every failure has an origin -/

/-- What grows smaller inside a run. -/
noncomputable def weight : Activity → Nat
  | .call .. => 0
  | .block statements => sizeOf statements

/-- The run inside has less fuel, or as much and less to do. -/
def Smaller (r₁ r : Run) : Prop :=
  Prod.Lex (· < ·) (· < ·) (r₁.fuel, weight r₁.activity) (r.fuel, weight r.activity)

theorem weight_lt_of_among {c : Command} {span : Span} {rest : List Statement}
    (h : a.Among c.blocks) : weight a < weight (.block (.mk span c :: rest)) := by
  cases a with
  | call owner handler args =>
    simp only [weight, List.cons.sizeOf_spec]
    omega
  | block statements =>
    cases c with
    | choose condition whenTrue whenFalse =>
      simp only [weight, List.cons.sizeOf_spec, Statement.mk.sizeOf_spec,
        Command.choose.sizeOf_spec]
      rcases List.mem_pair.1 h with rfl | rfl
      · omega
      · omega
    | loop kind body =>
      obtain rfl := List.mem_singleton.1 h
      simp only [weight, List.cons.sizeOf_spec, Statement.mk.sizeOf_spec, Command.loop.sizeOf_spec]
      omega
    | _ => cases h

/-- A run that fails does so itself or in a smaller run. -/
theorem FailsWith.cases (h : r.FailsWith e) :
    (∃ step f, r.FailsItself step f) ∨
      ∃ steps r₁ e₁, r.Opens steps r₁ ∧ r₁.FailsWith e₁ ∧ r₁.Smaller r := by
  obtain ⟨n, activity, m⟩ := r
  obtain ⟨stop, hstop⟩ := h
  cases activity with
  | call owner handler args =>
    cases n with
    | zero => cases hstop
    | succ n =>
      rcases runHandler_eq_error hstop with ⟨f, hpush⟩ | ⟨m₁, m₂, e₁, stop, hpush, hbind, hbody⟩
      · exact .inl ⟨_, f, .refused hpush⟩
      · exact .inr ⟨_, ⟨n, .block handler.body, m₂⟩, e₁, .body hpush hbind, ⟨stop, hbody⟩,
          .left _ _ (Nat.lt_succ_self n)⟩
  | block statements =>
    cases statements with
    | nil => cases hstop
    | cons s rest =>
      rcases execBlock_eq_error hstop with hs | ⟨m₁, hs, hrest⟩
      · obtain ⟨span, c⟩ := s
        obtain ⟨e₀, hc, -⟩ := execStatement_eq_error hs
        rcases execCommand_eq_error hc with ⟨f, hsettles⟩ | ⟨a, m₁, hamong, hin⟩
        · exact .inl ⟨_, f, .statement hsettles⟩
        · have ⟨e₁, stop, _, hinner, _⟩ := hin
          exact .inr ⟨_, ⟨n, a, m₁⟩, e₁, .inner hamong hin, ⟨stop, hinner⟩,
            .right _ (weight_lt_of_among hamong)⟩
      · refine .inr ⟨_, ⟨n, .block rest, m₁⟩, e, .rest hs, ⟨stop, hrest⟩, .right _ ?_⟩
        simp only [weight, List.cons.sizeOf_spec]
        omega

/-- Inside a run that fails is one that fails itself. -/
theorem FailsWith.exists_origin {r : Run} {e : ScriptError} (h : r.FailsWith e) :
    ∃ path r₁ step f, r.Leads path r₁ ∧ r₁.FailsItself step f := by
  rcases h.cases with ⟨step, f, hself⟩ | ⟨steps, r₁, e₁, hopens, hfails, hsmaller⟩
  · exact ⟨[], r, step, f, .refl, hself⟩
  · obtain ⟨path, r₂, step, f, hleads, hself⟩ := hfails.exists_origin
    exact ⟨steps ++ path, r₂, step, f, .step hopens hleads, hself⟩
termination_by (r.fuel, weight r.activity)
decreasing_by exact hsmaller

end Run

/-! ## Places -/

/-- Statements of which the first is in the block and each other one in a block of the one before
it. -/
inductive Nested : List Statement → List Statement → Prop
  | last : s ∈ block → Nested block [s]
  | inner : s ∈ block → inside ∈ s.command.blocks → Nested inside statements →
    Nested block (s :: statements)

theorem Nested.mono {block block' statements : List Statement} (h : Nested block statements)
    (hsubset : ∀ s ∈ block, s ∈ block') : Nested block' statements := by
  cases h with
  | last hs => exact .last (hsubset _ hs)
  | inner hs hinside hnested => exact .inner (hsubset _ hs) hinside hnested

/-- The error says where the steps end: in the last statement of the handler entered last, which is
nested in its body, or at a handler for which no frame was begun. -/
inductive PlacedAt : List Step → ScriptError → Prop
  | statement (outer : List Step) : Nested handler.body (around ++ [s]) →
    PlacedAt (outer ++ .handler handler :: (around ++ [s]).map .statement)
      { failure := f, span := some s.span, handler := some handler.name.spelling }
  | refusal (outer : List Step) : PlacedAt (outer ++ [.refusal handler])
      { failure := .semantic .tooMuchRecursion
        span := some handler.span
        handler := some handler.name.spelling }

namespace PlacedAt

variable {path : List Step} {e : ScriptError}

theorem isSome (h : PlacedAt path e) : e.span.isSome ∧ e.handler.isSome := by
  cases h <;> exact ⟨rfl, rfl⟩

/-- An error with a place is left as it is. -/
theorem note_eq (h : PlacedAt path e) (step : Step) : step.note e = e := by
  cases h <;> cases step <;> rfl

theorem cons (h : PlacedAt path e) (step : Step) : PlacedAt (step :: path) e := by
  cases h with
  | statement outer hnested => exact .statement (step :: outer) hnested
  | refusal outer => exact .refusal (step :: outer)

theorem noted (h : PlacedAt path e) (steps : List Step) :
    PlacedAt (steps ++ path) (noted steps e) := by
  induction steps with
  | nil => exact h
  | cons step steps ih =>
    show PlacedAt (step :: (steps ++ path)) (step.note (CardScript.noted steps e))
    rw [ih.note_eq]
    exact ih.cons step

end PlacedAt

/-- What is known of the place of an error when it leaves a run: all of it, or, if the run is a
block, all but the handler that the block belongs to. -/
inductive PlacedFrom : Activity → List Step → ScriptError → Prop
  | whole : PlacedAt path e → PlacedFrom activity path e
  | statement (around : List Statement) : Nested block (around ++ [s]) →
    PlacedFrom (.block block) ((around ++ [s]).map .statement)
      { failure := f, span := some s.span }

namespace Run

variable {r r₁ : Run} {steps path : List Step} {step : Step} {e : ScriptError} {f : Failure}

theorem pushFrame_eq_error {m : Machine} (h : m.pushFrame message me args = .error f) :
    f = .semantic .tooMuchRecursion := by
  rw [Machine.pushFrame_eq] at h
  split at h
  · exact (Except.error.inj h).symm
  · cases h

theorem Opens.placedFrom (h : r.Opens steps r₁) (hplace : PlacedFrom r₁.activity path e) :
    PlacedFrom r.activity (steps ++ path) (noted steps e) := by
  cases h with
  | body =>
    cases hplace with
    | whole hplace => exact .whole (hplace.noted _)
    | statement around hnested => exact .whole (.statement [] hnested)
  | rest =>
    cases hplace with
    | whole hplace => exact .whole hplace
    | statement around hnested =>
      exact .statement around (hnested.mono fun _ => List.mem_cons_of_mem _)
  | inner hamong =>
    cases hplace with
    | whole hplace => exact .whole (hplace.noted _)
    | statement around hnested =>
      exact .statement (_ :: around) (.inner (List.mem_cons_self ..) hamong hnested)

theorem FailsItself.placedFrom (h : r.FailsItself step f) :
    PlacedFrom r.activity [step] (step.note { failure := f }) := by
  cases h with
  | refused hpush =>
    obtain rfl := pushFrame_eq_error hpush
    exact .whole (.refusal [])
  | statement => exact .statement [] (.last (List.mem_cons_self ..))

/-- Wherever a failure originates, the error says so when it leaves. -/
theorem Leads.placedFrom (h : r.Leads path r₁) (hself : r₁.FailsItself step f) :
    PlacedFrom r.activity (path ++ [step]) (noted path (step.note { failure := f })) := by
  induction h with
  | refl => exact hself.placedFrom
  | step hopens _ ih =>
    rw [noted, List.foldr_append, List.append_assoc]
    exact hopens.placedFrom (ih hself)

end Run

/-- **Errors say where they happened.** Whenever a handler fails, there is a way from it down to
where the failure originates. The error has a position and a handler, and whichever way leads down,
they are the innermost ones on it: the handler entered last and the last statement begun there,
which is nested in its body, or else the handler that got no frame. All errors that leave a block
have a position, and whatever an inner error says is still said of it outside. -/
theorem error_places (fuel : Nat) :
    (∀ owner handler args m e m',
      runHandler (invoke fuel) fuel owner handler args m = .error (.failed e) m' →
      let r : Run := ⟨fuel + 1, .call owner handler args, m⟩
      e.span.isSome ∧ e.handler.isSome ∧
      (∃ path r₁ step, r.Leads path r₁ ∧ r₁.FailsItself step e.failure) ∧
      ∀ path r₁ step f, r.Leads path r₁ → r₁.FailsItself step f →
        f = e.failure ∧ PlacedAt (path ++ [step]) e) ∧
    (∀ calls loops block m e m',
      execBlock calls loops block m = .error (.failed e) m' → e.span.isSome) ∧
    ∀ (r r₁ : Run) path e₁, r.Leads path r₁ → r₁.FailsWith e₁ →
      ∃ e, r.FailsWith e ∧ e₁.KeptIn e := by
  refine ⟨fun owner handler args m e m' h => ?_, fun _ _ _ _ _ _ => execBlock_error_span,
    fun r r₁ path e₁ hleads hfails =>
      ⟨_, hleads.failsWith hfails, keptIn_noted path e₁⟩⟩
  have hfails : Run.FailsWith ⟨fuel + 1, .call owner handler args, m⟩ e := ⟨m', h⟩
  have hplaced (path r₁ step f) (hleads : Run.Leads ⟨fuel + 1, .call owner handler args, m⟩ path r₁)
      (hself : r₁.FailsItself step f) : f = e.failure ∧ PlacedAt (path ++ [step]) e := by
    obtain rfl : noted path (step.note { failure := f }) = e :=
      (hleads.failsWith hself.failsWith).unique hfails
    refine ⟨?_, ?_⟩
    · exact ((step.keptIn_note { failure := f }).trans (keptIn_noted path _)).failure.symm
    · cases hleads.placedFrom hself with
      | whole hplace => exact hplace
  obtain ⟨path, r₁, step, f, hleads, hself⟩ := hfails.exists_origin
  obtain ⟨rfl, hplace⟩ := hplaced path r₁ step f hleads hself
  exact ⟨hplace.isSome.1, hplace.isSome.2, ⟨path, r₁, step, hleads, hself⟩, hplaced⟩

/-- A handler that sends a message. -/
def Handler.sendsInner : Handler where
  name := ⟨"outer"⟩
  span := ⟨1, 1⟩
  body := [.mk ⟨2, 3⟩ (.message ⟨"inner"⟩ [])]

/-- A stack with that handler, and one for the message that fails in a statement of a statement. -/
def Stack.fails : Stack where
  script := { handlers := [
    .sendsInner,
    { name := ⟨"inner"⟩
      span := ⟨4, 1⟩
      body := [
        .mk ⟨5, 3⟩ (.choose (.literal "true" true)
          [.mk ⟨6, 5⟩ (.choose (.literal "maybe" true) [] [])] [])] }] }
  cards := [.blank 101 100 "" {}]
  backgrounds := [.blank 100 "" {}]
  currentCard := 101

/-- The error of the inner handler leaves the outer one with the place of the inner statement. -/
theorem error_places_nested :
    ∃ path r₁ step, Run.Leads
        ⟨9, .call (.ofStack 0) .sendsInner [], { world := { allStacks := [.fails] } }⟩ path r₁ ∧
      r₁.FailsItself step (.semantic (.notBoolean "maybe")) ∧
      PlacedAt (path ++ [step])
        { failure := .semantic (.notBoolean "maybe")
          span := some ⟨6, 5⟩
          handler := some "inner" } := by
  obtain ⟨-, -, ⟨path, r₁, step, hleads, hself⟩, hplaced⟩ :=
    (error_places 8).1 (.ofStack 0) .sendsInner [] { world := { allStacks := [.fails] } }
      { failure := .semantic (.notBoolean "maybe"), span := some ⟨6, 5⟩, handler := some "inner" }
      _ rfl
  exact ⟨path, r₁, step, hleads, hself, (hplaced path r₁ step _ hleads hself).2⟩

end CardScript
