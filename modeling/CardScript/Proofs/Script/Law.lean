import CardScript.Proofs.Script.CallStack
import CardScript.Proofs.Script.Reach
import CardScript.Proofs.Script.Routine
import CardScript.Proofs.Stack.Scripts

/-!
# Laws of runs

A law says what every action of a run is to satisfy (`Law.Fair`), given what holds of the machine
before it (`Terms.Admits`). It is laid down for a few elementary actions: the routine ones, and the
four that depend on the frame or on the current card. It is also to pass from actions to their
composition. `Law.Yields` says that an action obeys a law, keeps its terms and answers something
with a given property; it is closed under the ways in which the interpreter composes actions.
-/

namespace CardScript

variable {α β : Type}

/-! ## Frames -/

theorem Machine.frame?_onTop (m : Machine) (change : Frame → Frame) :
    (m.onTop change).frame? = m.frame?.map change :=
  List.head?_modifyHead

theorem Machine.onTop_id (m : Machine) : m.onTop id = m := by
  simp only [onTop, CallStack.modifyTop, List.modifyHead_id, id]

theorem Machine.onTop_onTop (m : Machine) (first next : Frame → Frame) :
    (m.onTop first).onTop next = m.onTop fun f => next (first f) := by
  simp only [onTop, CallStack.modifyTop, List.modifyHead_modifyHead, Function.comp_def]

theorem Machine.mem_frames_onTop {m : Machine} {change : Frame → Frame} {f : Frame}
    (hf : f ∈ (m.onTop change).context.frames.toList) :
    (∃ top, m.frame? = some top ∧ f = change top) ∨ f ∈ m.context.frames.toList := by
  simp only [Machine.onTop, CallStack.toList_modifyTop] at hf
  simp only [Machine.frame?, CallStack.top?]
  cases hframes : m.context.frames.toList with
  | nil =>
    rw [hframes] at hf
    cases hf
  | cons top below =>
    rw [hframes] at hf
    rcases List.mem_cons.1 hf with rfl | hf
    · exact .inl ⟨top, rfl, rfl⟩
    · exact .inr (List.mem_cons_of_mem _ hf)

/-! ## Terms -/

/-- What is to hold of the machine throughout a run. -/
structure Terms where
  /-- The stacks a run may come to. -/
  reach : Nat → Prop
  /-- What holds of these stacks. -/
  stack : Stack → Prop
  /-- Keys of the variables that may be declared global. -/
  declarable : String → Prop
  /-- What holds of the table of globals. -/
  globals : Globals → Prop
  /-- Statements are carried out in a frame. -/
  framed : Prop
  stack_leads : ∀ {s t : Stack}, stack s → s.Leads t → stack t
  globals_set : ∀ {g : Globals} {name : Symbol} (value : Value),
    declarable name.key → globals g → globals (g.set name value)

namespace Terms

variable {T : Terms} {e : Extent} {m : Machine}

/-- All of these may be declared global. -/
def Permits (T : Terms) (names : List Symbol) : Prop :=
  ∀ name ∈ names, T.declarable name.key

/-- A machine on which a piece of a run may begin. -/
structure Admits (T : Terms) (e : Extent) (m : Machine) : Prop where
  within : m.Within T.reach
  everyStack : ∀ n, T.reach n → T.stack (m.world.stack n)
  scripts : ∀ n, T.reach n → (m.world.stack n).Scripted fun script => T.Permits script.declared
  scopes : ∀ f ∈ m.context.frames.toList, ∀ key ∈ f.globals, T.declarable key
  globals : T.globals m.world.globals
  entered : e = .inside → T.framed → m.frame?.isSome

namespace Admits

theorem desktop (h : T.Admits e m) : m.world.desktop.Within T.reach :=
  h.within.desktop

/-- Scripts change the world stack by stack; the desktop and the globals are looked at apart. -/
theorem change (h : T.Admits e m) (hchange : World.Change m.world w)
    (hdesktop : w.desktop.Within T.reach) (hglobals : T.globals w.globals) :
    T.Admits e (m.withWorld w) where
  within := ⟨hdesktop, h.within.context⟩
  everyStack n hn := T.stack_leads (h.everyStack n hn) (hchange.leads n)
  scripts n hn := (h.scripts n hn).leads (fun _ hname => nomatch hname) (hchange.leads n)
  scopes := h.scopes
  globals := hglobals
  entered := h.entered

theorem context (h : T.Admits e m) {c : Context} (hframes : c.frames = m.context.frames)
    (hwithin : c.Within T.reach) : T.Admits e { m with context := c } where
  within := ⟨h.desktop, hwithin⟩
  everyStack := h.everyStack
  scripts := h.scripts
  scopes f hf := h.scopes f (hframes ▸ hf)
  globals := h.globals
  entered he hframed := by
    have hframe := h.entered he hframed
    unfold Machine.frame? at hframe ⊢
    rw [hframes]
    exact hframe

/-- The innermost frame may change, but not whose handler it is for. -/
theorem onTop {change : Frame → Frame} (h : T.Admits e m) (hme : ∀ f : Frame, (change f).me = f.me)
    (hscope : ∀ f ∈ m.frame?, ∀ key ∈ (change f).globals, T.declarable key) :
    T.Admits e (m.onTop change) where
  within := by
    refine ⟨h.desktop, h.within.context.stack, h.within.context.target, fun f hf => ?_⟩
    rcases Machine.mem_frames_onTop hf with ⟨top, htop, rfl⟩ | hf
    · rw [hme]
      exact h.within.context.frames top (List.mem_of_mem_head? htop)
    · exact h.within.context.frames f hf
  everyStack := h.everyStack
  scripts := h.scripts
  scopes f hf := by
    rcases Machine.mem_frames_onTop hf with ⟨top, htop, rfl⟩ | hf
    · exact hscope top htop
    · exact h.scopes f hf
  globals := h.globals
  entered he hframed := by
    rw [Machine.frame?_onTop, Option.isSome_map]
    exact h.entered he hframed

/-- A handler is carried out in a frame of its own, which declares nothing yet. -/
theorem push (h : T.Admits e m) (hpush : m.pushFrame message me args = .ok m₁)
    (hme : ∀ handle ∈ me, T.reach handle.stack) : T.Admits .inside m₁ := by
  obtain ⟨-, f, -, rfl, -, -, hglobals, hcontext, hworld⟩ := Machine.pushFrame_eq_ok hpush
  have hmem {g : Frame} (hg : g ∈ m₁.context.frames.toList) :
      g = f ∨ g ∈ m.context.frames.toList := by
    rw [hcontext] at hg
    exact List.mem_cons.1 hg
  refine ⟨⟨?_, ?_, ?_, fun g hg => ?_⟩, ?_, ?_, fun g hg => ?_, ?_, fun _ _ => ?_⟩
  · rw [hworld]
    exact h.desktop
  · rw [hcontext]
    exact h.within.context.stack
  · rw [hcontext]
    exact h.within.context.target
  · rcases hmem hg with rfl | hg
    · exact hme
    · exact h.within.context.frames g hg
  · rw [hworld]
    exact h.everyStack
  · rw [hworld]
    exact h.scripts
  · rcases hmem hg with rfl | hg
    · rw [hglobals]
      exact nofun
    · exact h.scopes g hg
  · rw [hworld]
    exact h.globals
  · rw [Machine.frame?, hcontext]
    rfl

/-- When the handler is over, the frames are those it was called with. -/
theorem pop {m₁ m₂ : Machine} (h : T.Admits e m) (hpush : m.pushFrame message me args = .ok m₁)
    (hcourse : Machine.Course .inside m₁ m₂) (h₂ : T.Admits .inside m₂) :
    T.Admits e m₂.popFrame := by
  have hframes : m₂.popFrame.context.frames.toList = m.context.frames.toList :=
    (Machine.Disciplined.call hpush hcourse.disciplined : m.Disciplined .outside _).frames
  refine ⟨⟨h₂.desktop, h₂.within.context.stack, h₂.within.context.target, ?_⟩, h₂.everyStack,
    h₂.scripts, ?_, h₂.globals, fun he hframed => ?_⟩
  · rw [hframes]
    exact h.within.context.frames
  · rw [hframes]
    exact h.scopes
  · rw [Machine.frame?, CallStack.top?, hframes]
    exact h.entered he hframed

/-- What is global in the innermost frame may be declared so. -/
theorem scope (h : T.Admits e m) (hf : f ∈ m.frame?) (hkey : key ∈ f.globals) :
    T.declarable key :=
  h.scopes f (List.mem_of_mem_head? hf) key hkey

theorem setVariable (h : T.Admits e m) (hset : m.setVariable name value = .ok m') :
    T.Admits e m' := by
  rw [Machine.setVariable_eq] at hset
  cases hf : m.frame? with
  | none =>
    rw [hf] at hset
    cases hset
  | some f =>
    rw [hf] at hset
    cases hset
    split
    next hname =>
      have hdeclarable := h.scope hf (List.contains_iff_mem.1 hname)
      have hglobals := T.globals_set value hdeclarable h.globals
      exact h.change (.setGlobal name value) h.desktop hglobals
    next => exact h.onTop (fun _ => rfl) fun _ hg _ hkey => h.scope hg hkey

theorem seedGlobal (h : T.Admits e m) (hname : T.declarable name.key) :
    T.Admits e (m.seedGlobal name) := by
  refine h.change (.seedGlobal name) h.desktop ?_
  unfold Globals.seed
  split
  · exact h.globals
  · exact T.globals_set _ hname h.globals

theorem declare (h : T.Admits e m) (hname : T.declarable name.key) :
    T.Admits e (m.onTop (·.declare name)) := by
  refine h.onTop (fun f => ?_) fun f hf key hkey => ?_
  · unfold Frame.declare
    split <;> rfl
  · unfold Frame.declare at hkey
    split at hkey
    · exact h.scope hf hkey
    · rcases List.mem_cons.1 hkey with rfl | hkey
      · exact hname
      · exact h.scope hf hkey

end Admits

end Terms

/-! ## Laws -/

/-- A law of runs: what actions are to satisfy on the machines that its terms admit. -/
structure Law extends Terms where
  /-- What is to hold of an action that begins on a machine. -/
  Fair : ∀ {α : Type}, Action α → Machine → Prop
  fair_routine : ∀ {α : Type} {x : Action α} {e : Extent} {m : Machine},
    toTerms.Admits e m → x.Routine → Fair x m
  fair_bind : ∀ {α β : Type} {x : Action α} {f : α → Action β} {m : Machine},
    Fair x m → (∀ a m', x m = .ok a m' → Fair (f a) m') → Fair (x >>= f) m
  fair_noting : ∀ {α : Type} {x : Action α} {note : ScriptError → ScriptError} {m : Machine},
    (∀ error, (note error).failure = error.failure) → Fair x m → Fair (x.noting note) m
  fair_andThen : ∀ {α : Type} {x : Action α} {f : Machine → Machine} {m : Machine},
    (∀ m g, f (m.withGlobals g) = (f m).withGlobals g) → Fair x m → Fair (x.andThen f) m
  fair_assign : ∀ {m : Machine} (name : Symbol) (value : Value),
    toTerms.Admits .inside m → Fair (Action.edit (Machine.settingVariable name value)) m
  fair_declare : ∀ {m : Machine} {name : Symbol},
    toTerms.Admits .inside m → declarable name.key → Fair (declareGlobal name) m
  fair_effect : ∀ {m : Machine} (effect : Option String),
    toTerms.Admits .inside m → Fair (Action.edit (Machine.modifyingFrame ({ · with effect }))) m
  fair_newCard : ∀ {e : Extent} {m : Machine} {n : Nat},
    toTerms.Admits e m → reach n → Fair (editStack n Stack.addingCard) m

namespace Law

variable {L : Law} {e : Extent} {m : Machine} {P : α → Prop} {Q : β → Prop}

/-- An action obeys a law on a machine, keeps its terms, and answers only with `P`. -/
structure Good (L : Law) (e : Extent) (P : α → Prop) (x : Action α) (m : Machine) : Prop where
  fair : L.Fair x m
  admits : L.Admits e (x.after m)
  yields : ∀ a m', x m = .ok a m' → P a

/-- An action obeys a law wherever it may begin, and answers only with `P`. -/
def Yields (L : Law) (e : Extent) (P : α → Prop) (x : Action α) : Prop :=
  ∀ m, L.Admits e m → L.Good e P x m

/-- An action obeys a law, whatever it answers. -/
abbrev Obeys (L : Law) (e : Extent) (x : Action α) : Prop :=
  L.Yields e (fun _ => True) x

theorem Good.bind {x : Action β} {f : β → Action α} (hx : L.Good e Q x m)
    (hf : ∀ b m', x m = .ok b m' → Q b → L.Admits e m' → L.Good e P (f b) m') :
    L.Good e P (x >>= f) m := by
  have hadmits := hx.admits
  cases hm : x m with
  | ok b m₁ =>
    rw [show x.after m = m₁ by simp only [Action.after, hm]] at hadmits
    have hgood := hf b m₁ hm (hx.yields b m₁ hm) hadmits
    refine ⟨L.fair_bind hx.fair fun b' m' hm' => ?_, ?_, ?_⟩
    · rw [hm] at hm'
      cases hm'
      exact hgood.fair
    · simp only [Action.after, Action.bind_apply_ok hm]
      exact hgood.admits
    · rw [Action.bind_apply_ok hm]
      exact hgood.yields
  | error halt m₁ =>
    rw [show x.after m = m₁ by simp only [Action.after, hm]] at hadmits
    refine ⟨L.fair_bind hx.fair fun b' m' hm' => ?_, ?_, fun a m' hm' => ?_⟩
    · rw [hm] at hm'
      cases hm'
    · simp only [Action.after, Action.bind_apply_error hm]
      exact hadmits
    · rw [Action.bind_apply_error hm] at hm'
      cases hm'

theorem Good.routine {x : Action α} (hm : L.Admits e m) (hx : x.Routine)
    (hafter : L.Admits e (x.after m)) (hP : ∀ a m', x m = .ok a m' → P a) : L.Good e P x m :=
  ⟨L.fair_routine hm hx, hafter, hP⟩

/-- A change of the world that is the same whatever the globals. -/
theorem Good.changeWorld {f : World → World} (hm : L.Admits e m)
    (hf : ∀ w g, f { w with globals := g } = { f w with globals := g })
    (hchange : World.Change m.world (f m.world)) (hdesktop : (f m.world).desktop.Within L.reach) :
    L.Good e (fun _ => True) (Action.changeWorld f) m := by
  have hroutine := Action.Routine.changeWorld hf
  have hglobals : (f m.world).globals = m.world.globals := hroutine.discreet.globals_after m
  have hafter := hm.change hchange hdesktop (hglobals ▸ hm.globals)
  exact .routine hm hroutine hafter fun _ _ _ => trivial

theorem Good.changeContext {f : Context → Context} (hm : L.Admits e m)
    (hframes : (f m.context).frames = m.context.frames) (hwithin : (f m.context).Within L.reach) :
    L.Good e (fun _ => True) (Action.changeContext f) m :=
  .routine hm (.changeContext f) (hm.context hframes hwithin) fun _ _ _ => trivial

namespace Yields

theorem bind {x : Action β} {f : β → Action α} (hx : L.Yields e Q x)
    (hf : ∀ b, Q b → L.Yields e P (f b)) : L.Yields e P (x >>= f) :=
  fun m hm => (hx m hm).bind fun b m' _ hb hm' => hf b hb m' hm'

theorem obeys {x : Action α} (hx : L.Yields e P x) : L.Obeys e x :=
  fun m hm => ⟨(hx m hm).fair, (hx m hm).admits, fun _ _ _ => trivial⟩

theorem pure {a : α} (h : P a) : L.Yields e P (Pure.pure a : Action α) := by
  refine fun m hm => .routine hm (.pure a) hm fun a' m' ha => ?_
  cases ha
  exact h

theorem fail (h : f.isInternal = false) : L.Yields e P (Action.fail f : Action α) := by
  refine fun m hm => .routine hm (.fail h) hm fun a m' ha => ?_
  cases ha

theorem outOfFuel : L.Yields e P (Action.outOfFuel : Action α) := by
  refine fun m hm => .routine hm .outOfFuel hm fun a m' ha => ?_
  cases ha

theorem ofExcept {x : Except Failure α} (hx : Recoverable x) (h : ∀ a, x = .ok a → P a) :
    L.Yields e P (Action.ofExcept x) := by
  cases x with
  | ok a => exact pure (h a rfl)
  | error f => exact fail ((recoverable_error f).1 hx)

theorem ask {read : Machine → α} (hread : Machine.Discreet read)
    (h : ∀ m, L.Admits e m → P (read m)) : L.Yields e P (Action.ask read) := by
  refine fun m hm => .routine hm (.ask hread) hm fun a m' ha => ?_
  cases ha
  exact h m hm

/-- What is read decides how to go on, on the machine it was read off. -/
theorem get_bind {f : Machine → Action α} (hf : Machine.Discreet f)
    (h : ∀ m, L.Admits e m → L.Good e P (f m) m) : L.Yields e P (get >>= f) := by
  intro m hm
  have hask : L.Good e (fun _ => True) (Action.ask f) m := ask hf (fun _ _ => trivial) m hm
  have hgood : L.Good e P (Action.ask f >>= id) m := by
    refine hask.bind fun x m' hx _ _ => ?_
    cases hx
    exact h m hm
  exact hgood

theorem ask_bind {read : Machine → β} {f : β → Action α}
    (hf : Machine.Discreet fun m => f (read m))
    (h : ∀ m, L.Admits e m → L.Good e P (f (read m)) m) : L.Yields e P (Action.ask read >>= f) :=
  get_bind hf h

theorem demand {read : Machine → Except Failure α} (hread : Machine.Discreet read)
    (hrecoverable : ∀ m, Recoverable (read m))
    (h : ∀ m a, L.Admits e m → read m = .ok a → P a) : L.Yields e P (Action.demand read) := by
  intro m hm
  refine .routine hm (.demand hread hrecoverable) ?_ fun a m' ha => ?_
  · rw [Action.after_demand]
    exact hm
  · exact h m a hm (Action.demand_eq_ok ha).1

theorem noting {x : Action α} {note : ScriptError → ScriptError} (hx : L.Yields e P x)
    (hnote : ∀ error, (note error).failure = error.failure) : L.Yields e P (x.noting note) := by
  intro m hm
  have hgood := hx m hm
  refine ⟨L.fair_noting hnote hgood.fair, ?_, fun a m' ha => ?_⟩
  · rw [Action.after_noting]
    exact hgood.admits
  · unfold Action.noting at ha
    split at ha
    next hok =>
      cases ha
      exact hgood.yields _ _ hok
    next => cases ha
    next => cases ha

end Yields

namespace Obeys

theorem ofExcept {x : Except Failure α} (hx : Recoverable x) : L.Obeys e (Action.ofExcept x) :=
  Yields.ofExcept hx fun _ _ => trivial

theorem ask {read : Machine → α} (hread : Machine.Discreet read) : L.Obeys e (Action.ask read) :=
  Yields.ask hread fun _ _ => trivial

theorem demand {read : Machine → Except Failure α} (hread : Machine.Discreet read)
    (hrecoverable : ∀ m, Recoverable (read m)) : L.Obeys e (Action.demand read) :=
  Yields.demand hread hrecoverable fun _ _ _ _ => trivial

theorem changeWorld {f : World → World}
    (hf : ∀ w g, f { w with globals := g } = { f w with globals := g })
    (hchange : ∀ w, World.Change w (f w))
    (hdesktop : ∀ w, w.desktop.Within L.reach → (f w).desktop.Within L.reach) :
    L.Obeys e (Action.changeWorld f) :=
  fun m hm => .changeWorld hm hf (hchange m.world) (hdesktop m.world hm.desktop)

theorem changeContext {f : Context → Context} (hframes : ∀ c, (f c).frames = c.frames)
    (hwithin : ∀ c, c.Within L.reach → (f c).Within L.reach) :
    L.Obeys e (Action.changeContext f) :=
  fun m hm => .changeContext hm (hframes m.context) (hwithin m.context hm.within.context)

theorem setResult (value : Value) : L.Obeys e (Action.setResult value) :=
  changeContext (fun _ => rfl) fun _ h => ⟨h.stack, h.target, h.frames⟩

theorem skipDraws (n : Nat) :
    L.Obeys e (Action.changeWorld fun w => { w with draws := w.draws.skip n }) :=
  changeWorld (fun _ _ => rfl) (fun _ => .draws n) fun _ h => h

theorem changeClock (f : Clock → Clock) :
    L.Obeys e (Action.changeWorld fun w => { w with clock := f w.clock }) :=
  changeWorld (fun _ _ => rfl) (fun _ => .clock _) fun _ h => h

theorem navigate {destination : Destination} (hstack : L.reach destination.stack) :
    L.Obeys e (Action.navigate destination) :=
  changeWorld (fun _ _ => rfl) (fun _ => .navigate destination) fun _ h => h.navigate hstack

theorem takeEffect : L.Obeys e Action.takeEffect := by
  refine fun m hm => .routine hm ?_ ?_ fun _ _ _ => trivial
  · exact .of_ok (fun _ _ _ => rfl) fun _ => ⟨_, _, rfl⟩
  · exact hm.onTop (fun _ => rfl) fun _ hf _ hkey => hm.scope hf hkey

/-- A change that fails leaves the machine alone. -/
theorem change {f : Machine → Except Failure Machine}
    (hfair : ∀ m, L.Admits e m → L.Fair (Action.change f) m)
    (hadmits : ∀ m m', L.Admits e m → f m = .ok m' → L.Admits e m') :
    L.Obeys e (Action.change f) := by
  refine fun m hm => ⟨hfair m hm, ?_, fun _ _ _ => trivial⟩
  simp only [Action.after, Action.change_apply]
  cases hf : f m with
  | ok m' => exact hadmits m m' hm hf
  | error f' => exact hm

/-- An edit whose checks come first leaves the machine alone when it fails. -/
theorem edit {x : Editing Machine Unit} (hx : x.Atomic)
    (hfair : ∀ m, L.Admits e m → L.Fair (Action.edit x) m)
    (hadmits : ∀ m m', L.Admits e m → x.result m = .ok m' → L.Admits e m') :
    L.Obeys e (Action.edit x) := by
  rw [Action.edit_eq_change hx] at hfair ⊢
  exact change hfair hadmits

theorem assign (name : Symbol) (value : Value) :
    L.Obeys .inside (Action.edit (Machine.settingVariable name value)) :=
  edit (Machine.settingVariable_atomic name value) (fun _ hm => L.fair_assign name value hm)
    fun _ _ hm h => hm.setVariable h

theorem effect (effect : Option String) :
    L.Obeys .inside (Action.edit (Machine.modifyingFrame ({ · with effect }))) := by
  refine edit (Machine.modifyingFrame_atomic _) (fun _ hm => L.fair_effect effect hm)
    fun m m' hm h => ?_
  rw [Machine.modifyFrame_eq_ok h]
  exact hm.onTop (fun _ => rfl) fun _ hf _ hkey => hm.scope hf hkey

theorem declareGlobal (hname : L.declarable name.key) :
    L.Obeys .inside (CardScript.declareGlobal name) := by
  refine fun m hm => ⟨L.fair_declare hm hname, ?_, fun _ _ _ => trivial⟩
  have hseeded := hm.seedGlobal hname
  show L.Admits .inside
    ((Action.edit (Machine.modifyingFrame (·.declare name))).after (m.seedGlobal name))
  rw [Action.edit_eq_change (Machine.modifyingFrame_atomic _)]
  simp only [Action.after, Action.change_apply]
  cases hframe : (Machine.modifyingFrame (·.declare name)).result (m.seedGlobal name) with
  | ok m' =>
    simp only
    rw [Machine.modifyFrame_eq_ok hframe]
    exact hseeded.declare hname
  | error f => exact hseeded

end Obeys

end Law

end CardScript
