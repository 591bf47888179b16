import CardScript.Proofs.Script.Lawful

/-!
# Globals that nobody declares

A global reaches a script only through a frame that declares it. So a run in which no frame, no
statement and no script within reach declares `x` goes the same way whatever the table of globals
holds for `x`, and leaves that entry alone.

The two runs are compared with a third one, on a machine that has forgotten `x`: forgetting first
and running then is running first and forgetting then (`ignoring`). This is a law, so the
interpreter obeys it.
-/

namespace CardScript

/-! ## The table without a name -/

namespace Globals

variable {g : Globals} {x name : Symbol}

/-- The entry of a name, in any letter case. -/
def entryOf (g : Globals) (x : Symbol) : Option (Symbol × Value) :=
  g.entries.find? (·.1.sameAs x)

/-- The table without a name. -/
def without (g : Globals) (x : Symbol) : Globals :=
  ⟨g.entries.filter (!·.1.sameAs x)⟩

/-- What is the same as one name is not the same as another. -/
theorem not_sameAs (hname : name.key ≠ x.key) {s : Symbol} (hs : s.sameAs name = true) :
    s.sameAs x = false := by
  have hkey : s.key = name.key := eq_of_beq hs
  rw [Symbol.sameAs, hkey]
  exact beq_eq_false_iff_ne.2 hname

theorem entryOf_set (hname : name.key ≠ x.key) (value : Value) :
    (g.set name value).entryOf x = g.entryOf x := by
  have hput (entries : List (Symbol × Value)) :
      (put name value entries).find? (·.1.sameAs x) = entries.find? (·.1.sameAs x) := by
    induction entries with
    | nil =>
      have hself : name.sameAs x = false := not_sameAs hname (beq_self_eq_true _)
      simp [put, hself]
    | cons entry rest ih =>
      obtain ⟨s, v⟩ := entry
      rw [put]
      split
      next hs => simp [not_sameAs hname hs]
      next => simp [List.find?_cons, ih]
  exact hput g.entries

theorem without_set (hname : name.key ≠ x.key) (value : Value) :
    (g.set name value).without x = (g.without x).set name value := by
  have hput (entries : List (Symbol × Value)) :
      (put name value entries).filter (!·.1.sameAs x) =
        put name value (entries.filter (!·.1.sameAs x)) := by
    induction entries with
    | nil =>
      have hself : name.sameAs x = false := not_sameAs hname (beq_self_eq_true _)
      simp [put, hself]
    | cons entry rest ih =>
      obtain ⟨s, v⟩ := entry
      by_cases hs : s.sameAs name = true
      · simp [put, hs, not_sameAs hname hs]
      · by_cases hx : s.sameAs x = true
        · simp [put, hs, hx, ih]
        · simp [put, hs, hx, ih]
  exact congrArg Globals.mk (hput g.entries)

theorem get?_without (hname : name.key ≠ x.key) : (g.without x).get? name = g.get? name := by
  have hfind : (g.entries.filter (!·.1.sameAs x)).find? (·.1.sameAs name) =
      g.entries.find? (·.1.sameAs name) := by
    rw [List.find?_filter]
    congr 1
    funext entry
    by_cases hs : entry.1.sameAs name = true
    · simp [hs, not_sameAs hname hs]
    · simp [hs]
  exact congrArg (Option.map (·.2)) hfind

theorem without_seed (hname : name.key ≠ x.key) :
    (g.seed name).without x = (g.without x).seed name := by
  unfold seed
  rw [get?_without hname]
  split
  · rfl
  · exact without_set hname .empty

end Globals

/-! ## Forgetting a global -/

namespace Machine

variable {m : Machine} {x : Symbol}

/-- The machine without a global. -/
def forget (m : Machine) (x : Symbol) : Machine :=
  m.withGlobals (m.world.globals.without x)

/-- What a frame declares is not `x` if the frame does not declare `x`. -/
theorem key_ne_of_declares (h : ∀ f ∈ m.frame?, x.key ∉ f.globals) (hf : m.frame? = some f)
    (hname : f.declares name = true) : name.key ≠ x.key := by
  intro heq
  have hkey : name.key ∈ f.globals := List.contains_iff_mem.1 hname
  exact h f hf (heq ▸ hkey)

theorem readsAlike_forget (h : ∀ f ∈ m.frame?, x.key ∉ f.globals) :
    m.ReadsAlike (m.world.globals.without x) := by
  intro name
  unfold lookup?
  have hsame : (m.withGlobals (m.world.globals.without x)).frame? = m.frame? := rfl
  rw [hsame]
  cases hframe : m.frame? with
  | none => rfl
  | some f =>
    simp only
    split
    next hdeclares =>
      have hname := key_ne_of_declares h hframe hdeclares
      exact congrArg (fun v => some (v.getD .empty)) (Globals.get?_without hname)
    next => rfl

theorem setVariable_forget (h : ∀ f ∈ m.frame?, x.key ∉ f.globals) (name : Symbol)
    (value : Value) :
    (m.forget x).setVariable name value = (m.setVariable name value).map (·.forget x) := by
  rw [setVariable_eq, setVariable_eq]
  show m.frame?.elim _ _ = _
  cases hframe : m.frame? with
  | none => rfl
  | some f =>
    show Except.ok (if f.declares name then _ else _) =
      Except.ok ((if f.declares name then _ else _ : Machine).forget x)
    split
    next hdeclares =>
      have hname := key_ne_of_declares h hframe hdeclares
      exact congrArg (fun g => Except.ok (m.withGlobals g)) (Globals.without_set hname value).symm
    next => rfl

theorem seedGlobal_forget (hname : name.key ≠ x.key) :
    (m.forget x).seedGlobal name = (m.seedGlobal name).forget x :=
  congrArg m.withGlobals (Globals.without_seed hname).symm

theorem modifyFrame_forget (m : Machine) (x : Symbol) (change : Frame → Frame) :
    (m.forget x).modifyFrame change = (m.modifyFrame change).map (·.forget x) := by
  rw [modifyFrame_eq, modifyFrame_eq]
  show m.frame?.elim _ _ = _
  cases m.frame? <;> rfl

end Machine

/-! ## The law -/

namespace Action

variable {α : Type} {m : Machine} {x : Symbol}

/-- Forgetting a global before an action or after it is the same. -/
def Ignores (x : Symbol) (y : Action α) (m : Machine) : Prop :=
  y (m.forget x) = onMachine (·.forget x) (y m)

theorem Discreet.ignores {y : Action α} (hy : y.Discreet)
    (h : ∀ f ∈ m.frame?, x.key ∉ f.globals) : y.Ignores x m := by
  have hglobals := hy.globals_after m
  have hforget : y (m.forget x) = onMachine (·.withGlobals (m.world.globals.without x)) (y m) :=
    hy m _ (Machine.readsAlike_forget h)
  rw [Ignores, hforget]
  cases hm : y m with
  | ok a m' =>
    simp only [after, hm] at hglobals
    simp only [onMachine, Machine.forget, hglobals]
  | error halt m' =>
    simp only [after, hm] at hglobals
    simp only [onMachine, Machine.forget, hglobals]

theorem ignores_edit {y : Editing Machine Unit} (hy : y.Atomic)
    (h : y.result (m.forget x) = (y.result m).map (·.forget x)) :
    (Action.edit y).Ignores x m := by
  rw [Ignores, edit_eq_change hy, change_apply, change_apply, h]
  cases y.result m <;> rfl

theorem Ignores.bind {β : Type} {y : Action α} {f : α → Action β} (hy : y.Ignores x m)
    (hf : ∀ a m', y m = .ok a m' → (f a).Ignores x m') : (y >>= f).Ignores x m := by
  rw [Ignores] at hy ⊢
  cases hm : y m with
  | ok a m' =>
    rw [hm] at hy
    rw [bind_apply_ok hy, bind_apply_ok hm]
    exact hf a m' hm
  | error halt m' =>
    rw [hm] at hy
    rw [bind_apply_error hy, bind_apply_error hm]
    rfl

theorem Ignores.noting {y : Action α} (hy : y.Ignores x m) (note : ScriptError → ScriptError) :
    (y.noting note).Ignores x m := by
  rw [Ignores] at hy ⊢
  simp only [Action.noting, hy]
  cases y m with
  | ok a m' => rfl
  | error halt m' => cases halt <;> rfl

theorem Ignores.andThen {y : Action α} {f : Machine → Machine} (hy : y.Ignores x m)
    (hf : ∀ m g, f (m.withGlobals g) = (f m).withGlobals g) : (y.andThen f).Ignores x m := by
  have hforget (m : Machine) : f (m.forget x) = (f m).forget x := by
    have hglobals : (f m).world.globals = m.world.globals :=
      congrArg (·.world.globals) (hf m m.world.globals)
    rw [Machine.forget, Machine.forget, hf, hglobals]
  rw [Ignores] at hy ⊢
  simp only [Action.andThen, hy]
  cases y m with
  | ok a m' => simp only [onMachine, hforget]
  | error halt m' => simp only [onMachine, hforget]

theorem ignores_declareGlobal (hname : name.key ≠ x.key) : (declareGlobal name).Ignores x m := by
  have hchange : (Action.edit (Machine.modifyingFrame (·.declare name))).Ignores x
      (m.seedGlobal name) :=
    ignores_edit (Machine.modifyingFrame_atomic _) (Machine.modifyFrame_forget ..)
  rw [Ignores, ← Machine.seedGlobal_forget hname] at hchange
  exact hchange

end Action

/-- Where nothing declares `x`, actions ignore it, and its entry stays what it is. -/
def ignoring (x : Symbol) (R : Nat → Prop) (entry : Option (Symbol × Value)) : Law where
  reach := R
  stack _ := True
  declarable key := key ≠ x.key
  globals g := g.entryOf x = entry
  framed := False
  stack_leads _ _ := trivial
  globals_set value hname hentry := (Globals.entryOf_set hname value).trans hentry
  Fair y m := y.Ignores x m
  fair_routine hm hy := hy.discreet.ignores fun _ hf hkey => hm.scope hf hkey rfl
  fair_bind hy hf := hy.bind hf
  fair_noting _ hy := hy.noting _
  fair_andThen hf hy := hy.andThen hf
  fair_assign name value hm := Action.ignores_edit (Machine.settingVariable_atomic name value) <|
    Machine.setVariable_forget (fun _ hf hkey => hm.scope hf hkey rfl) name value
  fair_declare _ hname := Action.ignores_declareGlobal hname
  fair_effect _ _ :=
    Action.ignores_edit (Machine.modifyingFrame_atomic _) (Machine.modifyFrame_forget ..)
  fair_newCard hm _ := (Action.Discreet.editStack _ _).ignores fun _ hf hkey =>
    hm.scope hf hkey rfl

/-! ## Two runs -/

/-- None of these names is `x`, in any letter case. -/
def Silent (x : Symbol) (names : List Symbol) : Prop :=
  ∀ name ∈ names, name.key ≠ x.key

/-- No active frame declares `x`, nor does any script of the stacks `R`, and the machine refers to
no other stacks: the open ones, those of places visited (which going there has opened), and those
that the run is bound to, by itself or by its target and its handlers, are all among them. -/
structure Machine.Unaware (x : Symbol) (R : Nat → Prop) (m : Machine) : Prop where
  within : m.Within R
  scripts : ∀ n, R n → (m.world.stack n).Scripted fun script => Silent x script.declared
  frames : ∀ f ∈ m.context.frames.toList, f.declares x = false

namespace Machine.Unaware

variable {x : Symbol} {R : Nat → Prop} {m m₁ m₂ : Machine} {e : Extent}

theorem admits (h : m.Unaware x R) :
    (ignoring x R (m.world.globals.entryOf x)).Admits e m where
  within := h.within
  everyStack _ _ := trivial
  scripts := h.scripts
  scopes f hf key hkey heq := by
    have hdeclares : f.declares x = true := List.contains_iff_mem.2 (heq ▸ hkey)
    rw [h.frames f hf] at hdeclares
    cases hdeclares
  globals := rfl
  entered _ hframed := hframed.elim

theorem forget (h : m.Unaware x R) : (m.forget x).Unaware x R :=
  ⟨⟨h.within.desktop, h.within.context⟩, h.scripts, h.frames⟩

theorem of_forget (h : (m.forget x).Unaware x R) : m.Unaware x R :=
  ⟨⟨h.within.desktop, h.within.context⟩, h.scripts, h.frames⟩

theorem of_alike (h : m₁.Unaware x R) (halike : m₁.forget x = m₂.forget x) : m₂.Unaware x R := by
  apply of_forget
  rw [← halike]
  exact h.forget

/-- A run that begins in this world with nothing under way. -/
theorem start (h : m.Unaware x R) (hstack : ∀ n ∈ stack, R n) :
    Unaware x R { world := m.world, context := { stack } } :=
  ⟨⟨h.within.desktop, hstack, nofun, nofun⟩, h.scripts, nofun⟩

end Machine.Unaware

namespace Action

variable {α : Type} {x : Symbol} {R : Nat → Prop} {m₁ m₂ : Machine} {e : Extent}

/-- Two runs of an action to which a global makes no difference. -/
structure Unaffected (x : Symbol) (m₁ m₂ : Machine) (y : Action α) : Prop where
  outcome_eq : y.outcome m₁ = y.outcome m₂
  alike : (y.after m₁).forget x = (y.after m₂).forget x
  entry₁ : (y.after m₁).world.globals.entryOf x = m₁.world.globals.entryOf x
  entry₂ : (y.after m₂).world.globals.entryOf x = m₂.world.globals.entryOf x

theorem outcome_and_after_eq {y : Action α}
    (h : onMachine (·.forget x) (y m₁) = onMachine (·.forget x) (y m₂)) :
    y.outcome m₁ = y.outcome m₂ ∧ (y.after m₁).forget x = (y.after m₂).forget x := by
  unfold outcome after
  cases h₁ : y m₁ with
  | ok a m₁' =>
    cases h₂ : y m₂ with
    | ok b m₂' =>
      rw [h₁, h₂] at h
      obtain ⟨rfl, hm⟩ := EStateM.Result.ok.inj h
      exact ⟨rfl, hm⟩
    | error halt m₂' =>
      rw [h₁, h₂] at h
      cases h
  | error halt m₁' =>
    cases h₂ : y m₂ with
    | ok b m₂' =>
      rw [h₁, h₂] at h
      cases h
    | error halt' m₂' =>
      rw [h₁, h₂] at h
      obtain ⟨rfl, hm⟩ := EStateM.Result.error.inj h
      exact ⟨rfl, hm⟩

theorem unaffected {y : Action α} (hy : ∀ entry, (ignoring x R entry).Obeys e y)
    (halike : m₁.forget x = m₂.forget x) (hm : m₁.Unaware x R) : y.Unaffected x m₁ m₂ := by
  have h₁ := hy _ m₁ hm.admits
  have h₂ := hy _ m₂ (hm.of_alike halike).admits
  have hrun : onMachine (·.forget x) (y m₁) = onMachine (·.forget x) (y m₂) := by
    have hfair₁ : y.Ignores x m₁ := h₁.fair
    have hfair₂ : y.Ignores x m₂ := h₂.fair
    rw [← hfair₁, ← hfair₂, halike]
  obtain ⟨houtcome, hafter⟩ := outcome_and_after_eq hrun
  exact ⟨houtcome, hafter, h₁.admits.globals, h₂.admits.globals⟩

end Action

namespace World

variable {x : Symbol} {w₁ w₂ : World}

/-- The world without a global. -/
def forget (w : World) (x : Symbol) : World :=
  { w with globals := w.globals.without x }

/-- Two runs in their worlds to which a global makes no difference. -/
structure RunsAlike (x : Symbol) (w₁ w₂ : World) (run : World → Outcome) : Prop where
  outcome_eq : (run w₁).1 = (run w₂).1
  alike : (run w₁).2.forget x = (run w₂).2.forget x
  entry₁ : (run w₁).2.globals.entryOf x = w₁.globals.entryOf x
  entry₂ : (run w₂).2.globals.entryOf x = w₂.globals.entryOf x

theorem runsAlike {y : Action Value} {stack : Option Nat}
    (h : y.Unaffected x { world := w₁, context := { stack } }
      { world := w₂, context := { stack } }) : RunsAlike x w₁ w₂ (·.run stack y) := by
  refine ⟨?_, ?_, ?_, ?_⟩
  · simp only [run_eq]
    exact h.outcome_eq
  · simp only [run_eq]
    exact congrArg (·.world) h.alike
  · simp only [run_eq]
    exact h.entry₁
  · simp only [run_eq]
    exact h.entry₂

end World

/-- **Globals that nobody declares do not interfere.** On two machines that are alike but for the
entry of `x`, where no frame, script or statement declares `x`, every piece of a run ends the same
way on both, leaves them alike but for `x`, and leaves the entry of `x` as it was on each. -/
theorem undeclared_global_noninterference (x : Symbol) (fuel loops : Nat) {R : Nat → Prop}
    {m₁ m₂ : Machine} (halike : m₁.forget x = m₂.forget x) (hm : m₁.Unaware x R) :
    (∀ block, Silent x (declaredIn block) →
      (execBlock (invoke fuel) loops block).Unaffected x m₁ m₂) ∧
    (∀ expr, (evalExpr (invoke fuel) expr).Unaffected x m₁ m₂) ∧
    (∀ owner handler args, R owner.stack → Silent x (declaredIn handler.body) →
      (runHandler (invoke fuel) loops owner handler args).Unaffected x m₁ m₂) ∧
    (∀ target message args, R target.stack →
      (send (invoke fuel) target message args).Unaffected x m₁ m₂) ∧
    (∀ name args, (callFunction (invoke fuel) name args).Unaffected x m₁ m₂) ∧
    (∀ statements, Silent x (declaredIn statements) →
      (runStatements fuel statements).Unaffected x m₁ m₂) ∧
    (∀ stack target message args, R stack → (∀ spec ∈ target, spec.Within R) →
      World.RunsAlike x m₁.world m₂.world (·.send fuel stack target message args)) ∧
    (∀ stack statements, (∀ n ∈ stack, R n) → Silent x (declaredIn statements) →
      World.RunsAlike x m₁.world m₂.world (·.eval fuel stack statements)) := by
  have hinvoke (entry : Option (Symbol × Value)) : (ignoring x R entry).Invokes (invoke fuel) :=
    invoke_obeys fuel
  have hstart (stack : Option Nat) :
      Machine.forget { world := m₁.world, context := { stack } } x =
        Machine.forget { world := m₂.world, context := { stack } } x :=
    congrArg (fun m => Machine.mk m.world { stack }) halike
  refine ⟨fun block hblock => ?_, fun expr => ?_, fun owner handler args howner hbody => ?_,
    fun target message args htarget => ?_, fun name args => ?_, fun statements hstatements => ?_,
    fun stack target message args hstack htarget => ?_,
    fun stack statements hstack hstatements => ?_⟩
  · exact Action.unaffected (fun entry => execBlock_obeys (hinvoke entry) block hblock) halike hm
  · exact Action.unaffected (e := .outside) (fun entry => evalExpr_obeys (hinvoke entry) expr)
      halike hm
  · exact Action.unaffected (e := .outside) (fun entry =>
      runHandler_obeys (hinvoke entry) (invoke_follows fuel) howner hbody) halike hm
  · exact Action.unaffected (e := .outside) (fun entry => send_obeys (hinvoke entry) htarget)
      halike hm
  · exact Action.unaffected (e := .outside) (fun entry => callFunction_obeys (hinvoke entry))
      halike hm
  · exact Action.unaffected (e := .outside) (fun entry => runStatements_obeys hstatements)
      halike hm
  · have hbound : ∀ n ∈ some stack, R n := by
      rintro n ⟨⟩
      exact hstack
    simp only [World.send_eq]
    exact World.runsAlike (Action.unaffected (e := .outside)
      (fun entry => messageRun_obeys htarget) (hstart (some stack)) (hm.start hbound))
  · exact World.runsAlike (Action.unaffected (e := .outside)
      (fun entry => runStatements_obeys hstatements) (hstart stack) (hm.start hstack))

/-- A stack of one card, with a handler that sets a variable without declaring it. -/
def Stack.tally : Stack where
  script := { handlers := [
    { name := ⟨"bump"⟩
      body := [.mk {} (.put (.literal "7" false) .into (.var ⟨"Score"⟩ none))] }] }
  nextId := 102
  cards := [{ id := 101, background := 100 }]
  backgrounds := [{ id := 100 }]
  currentCard := 101

/-- Loose statements being carried out on that stack. -/
def Machine.tally (globals : Globals) : Machine where
  world := { globals, desktop := { opened := [0], focused := some 0 }, allStacks := [.tally] }
  context := { stack := some 0, frames := CallStack.empty.push {} }

/-- A global of which one machine knows and the other does not is neither read nor written by
statements and a handler that use its name for variables of their own. -/
theorem undeclared_global_noninterference_tally :
    let m₁ := Machine.tally ⟨[(⟨"score"⟩, .ofInt 5)]⟩
    let m₂ := Machine.tally {}
    let block : List Statement :=
      [.mk {} (.put (.literal "1" false) .into (.var ⟨"Score"⟩ none)),
        .mk {} (.message ⟨"bump"⟩ []), .mk {} (.get (.var ⟨"score"⟩))]
    m₁.forget ⟨"SCORE"⟩ = m₂.forget ⟨"SCORE"⟩ ∧ m₁.Unaware ⟨"SCORE"⟩ (· = 0) ∧
      Silent ⟨"SCORE"⟩ (declaredIn block) ∧
      (execBlock (invoke 2) 2 block).Unaffected ⟨"SCORE"⟩ m₁ m₂ := by
  intro m₁ m₂ block
  have halike : m₁.forget ⟨"SCORE"⟩ = m₂.forget ⟨"SCORE"⟩ := rfl
  have hblock : Silent ⟨"SCORE"⟩ (declaredIn block) := nofun
  have hm : m₁.Unaware ⟨"SCORE"⟩ (· = 0) := by
    refine ⟨⟨⟨?_, nofun, nofun⟩, ?_, nofun, ?_⟩, ?_, ?_⟩
    · simp [m₁, Machine.tally]
    · simp [m₁, Machine.tally]
    · simp [m₁, Machine.tally]
    · rintro n rfl
      refine ⟨nofun, fun c hc => ?_, fun b hb => ?_⟩
      · obtain rfl := List.mem_singleton.1 hc
        exact ⟨nofun, nofun⟩
      · obtain rfl := List.mem_singleton.1 hb
        exact ⟨nofun, nofun⟩
    · simp [m₁, Machine.tally, Frame.declares]
  exact ⟨halike, hm, hblock,
    (undeclared_global_noninterference ⟨"SCORE"⟩ 2 2 halike hm).1 block hblock⟩

end CardScript
