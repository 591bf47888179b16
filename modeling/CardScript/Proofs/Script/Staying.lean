import CardScript.Proofs.Script.CallStack
import CardScript.Proofs.Stack.Reachable

/-!
# Actions that stay where they are

Of what scripts do, only going and making and removing cards moves anything about. All other
elementary actions come to an end and leave alone where one is and has been, which cards the stacks
show, which stack the run works on and how many frames are open (`Action.Stays`).
-/

namespace CardScript

variable {α β : Type}

/-! ## Machines -/

/-- Two desktops that differ at most in what was shown and heard. -/
structure Desktop.SamePlace (d d' : Desktop) : Prop where
  opened : d'.opened = d.opened
  focused : d'.focused = d.focused
  location : d'.location = d.location
  history : d'.history = d.history
  navigations : d'.navigations = d.navigations

namespace Desktop.SamePlace

variable {d d' d'' : Desktop}

theorem refl : d.SamePlace d := ⟨rfl, rfl, rfl, rfl, rfl⟩

theorem trans (h : d.SamePlace d') (h' : d'.SamePlace d'') : d.SamePlace d'' where
  opened := h'.opened.trans h.opened
  focused := h'.focused.trans h.focused
  location := h'.location.trans h.location
  history := h'.history.trans h.history
  navigations := h'.navigations.trans h.navigations

end Desktop.SamePlace

theorem World.Change.length_eq {w w' : World} (h : World.Change w w') :
    w'.allStacks.length = w.allStacks.length := by
  cases h with
  | property h =>
    obtain ⟨table, -, rfl, -⟩ := World.setProperty_eq_ok h
    rfl
  | contents h | partProperty h =>
    obtain ⟨s, -, h⟩ := Failure.bind_eq_ok.1 h
    cases h
    exact List.length_set
  | showCard | newCard | newBackground | deleteCard => exact List.length_set
  | _ => rfl

/-- From one machine to another without a move. -/
structure Machine.Stays (m m' : Machine) : Prop where
  depth : m'.depth = m.depth
  settings : m'.world.settings = m.world.settings
  /-- The stack the run works on. -/
  bound : m'.context.stack = m.context.stack
  desktop : m.world.desktop.SamePlace m'.world.desktop
  count : m'.world.allStacks.length = m.world.allStacks.length
  leads : ∀ n, (m.world.stack n).Leads (m'.world.stack n)
  current : ∀ n, (m'.world.stack n).currentCard = (m.world.stack n).currentCard

namespace Machine.Stays

variable {m m' m'' : Machine}

theorem refl : m.Stays m := ⟨rfl, rfl, rfl, .refl, rfl, fun _ => .refl, fun _ => rfl⟩

theorem trans (h : m.Stays m') (h' : m'.Stays m'') : m.Stays m'' where
  depth := h'.depth.trans h.depth
  settings := h'.settings.trans h.settings
  bound := h'.bound.trans h.bound
  desktop := h.desktop.trans h'.desktop
  count := h'.count.trans h.count
  leads n := (h.leads n).trans (h'.leads n)
  current n := (h'.current n).trans (h.current n)

theorem change {w : World} (hchange : World.Change m.world w)
    (hdesktop : m.world.desktop.SamePlace w.desktop)
    (hcurrent : ∀ n, (w.stack n).currentCard = (m.world.stack n).currentCard) :
    m.Stays (m.withWorld w) :=
  ⟨rfl, hchange.settings_eq, rfl, hdesktop, hchange.length_eq, hchange.leads, hcurrent⟩

/-- A stack is written that goes on showing its card. -/
theorem changeStack {number : Nat} {s : Stack}
    (hchange : World.Change m.world (m.world.withStack number s))
    (hs : s.currentCard = (m.world.stack number).currentCard) :
    m.Stays (m.withWorld (m.world.withStack number s)) := by
  refine .change hchange .refl fun n => ?_
  rcases m.world.stack_withStack number n s with heq | ⟨rfl, heq⟩
  · rw [heq]
  · rw [heq, hs]

theorem context {c : Context} (hdepth : c.frames.depth = m.context.frames.depth)
    (hbound : c.stack = m.context.stack) : m.Stays { m with context := c } :=
  ⟨hdepth, rfl, hbound, .refl, rfl, fun _ => .refl, fun _ => rfl⟩

theorem onTop (change : Frame → Frame) : m.Stays (m.onTop change) := .context rfl rfl

end Machine.Stays

/-! ### Writing -/

namespace Stack

variable {s t : Stack}

theorem currentCard_setContents (h : s.setContents f value = .ok t) :
    t.currentCard = s.currentCard := by
  rw [setContents_eq] at h
  split at h
  · split at h
    · obtain ⟨p, -, h⟩ := Failure.bind_eq_ok.1 h
      cases h
      rfl
    · cases h
  · cases h

theorem currentCard_withTable (s : Stack) (table : PropertyTable) (r : PartRef) :
    (s.withTable table r).currentCard = s.currentCard := by
  cases r with
  | stack => rfl
  | card id | background id | part kind layer id =>
    simp only [withTable]
    split <;> rfl

theorem currentCard_setProperty (h : s.setProperty f key value = .ok t) :
    t.currentCard = s.currentCard := by
  simp only [setProperty_eq] at h
  split at h
  · cases h
  split at h
  · exact currentCard_setContents h
  obtain ⟨before, -, h⟩ := Failure.bind_eq_ok.1 h
  obtain ⟨table, -, h⟩ := Failure.bind_eq_ok.1 h
  cases h
  exact currentCard_withTable ..

end Stack

namespace Machine

variable {m m' : Machine} {w : World}

theorem setContents_stays (h : m.world.setContents handle value = .ok w) :
    m.Stays (m.withWorld w) := by
  have hchange : World.Change m.world w := .contents h
  obtain ⟨s, hs, h⟩ := Failure.bind_eq_ok.1 h
  cases h
  exact .changeStack hchange (Stack.currentCard_setContents hs)

theorem setPartProperty_stays (h : m.world.setPartProperty handle name value = .ok w) :
    m.Stays (m.withWorld w) := by
  have hchange : World.Change m.world w := .partProperty h
  obtain ⟨s, hs, h⟩ := Failure.bind_eq_ok.1 h
  cases h
  exact .changeStack hchange (Stack.currentCard_setProperty hs)

theorem setProperty_stays (h : m.world.setProperty name value = .ok w) :
    m.Stays (m.withWorld w) := by
  have hchange : World.Change m.world w := .property h
  obtain ⟨table, -, rfl, -⟩ := World.setProperty_eq_ok h
  exact .change hchange .refl fun _ => rfl

theorem modifyFrame_stays (h : m.modifyFrame change = .ok m') : m.Stays m' := by
  rw [modifyFrame_eq_ok h]
  exact .onTop change

theorem setVariable_stays (h : m.setVariable name value = .ok m') : m.Stays m' := by
  obtain ⟨f, -, h⟩ := setVariable_eq_ok h
  split at h
  · rw [h]
    exact .change (.setGlobal name value) .refl fun _ => rfl
  · rw [h]
    exact .onTop _

end Machine

theorem Slot.store_stays {m m' : Machine} {slot : Slot} (h : slot.store m value = .ok m') :
    m.Stays m' := by
  rw [store_eq] at h
  cases slot with
  | «variable» name => exact Machine.setVariable_stays h
  | contents part =>
    obtain ⟨w, hw, h⟩ := Failure.bind_eq_ok.1 h
    cases h
    exact Machine.setContents_stays hw
  | property name part =>
    cases part with
    | none =>
      obtain ⟨w, hw, h⟩ := Failure.bind_eq_ok.1 h
      cases h
      exact Machine.setProperty_stays hw
    | some part =>
      obtain ⟨w, hw, h⟩ := Failure.bind_eq_ok.1 h
      cases h
      exact Machine.setPartProperty_stays hw
  | messageBox =>
    cases h
    exact .change (.message _) ⟨rfl, rfl, rfl, rfl, rfl⟩ fun _ => rfl

theorem Address.write_stays {m m' : Machine} {a : Address}
    (h : a.write m preposition value = .ok m') : m.Stays m' := by
  rw [Address.write_eq] at h
  split at h
  · exact Slot.store_stays h
  · obtain ⟨_, -, h⟩ := Failure.bind_eq_ok.1 h
    obtain ⟨_, -, h⟩ := Failure.bind_eq_ok.1 h
    exact Slot.store_stays h

/-! ## Actions -/

namespace Action

/-- An action that comes to an end, with the machine after it related to the one before. -/
structure EndsIn (K : Machine → Machine → Prop) (x : Action α) : Prop where
  ends : ∀ m m', x m ≠ .error .outOfFuel m'
  keeps : ∀ m, K m (x.after m)

namespace EndsIn

variable {K : Machine → Machine → Prop}

theorem of_ok {x : Action α} (h : ∀ m, ∃ a m', x m = .ok a m' ∧ K m m') : x.EndsIn K := by
  refine ⟨fun m m' hm => ?_, fun m => ?_⟩
  · obtain ⟨a, m₁, hok, -⟩ := h m
    rw [hok] at hm
    cases hm
  · obtain ⟨a, m₁, hok, hkeeps⟩ := h m
    simp only [after, hok]
    exact hkeeps

theorem bind {x : Action α} {f : α → Action β}
    (htrans : ∀ {m m₁ m₂ : Machine}, K m m₁ → K m₁ m₂ → K m m₂) (hx : x.EndsIn K)
    (hf : ∀ a, (f a).EndsIn K) : (x >>= f).EndsIn K := by
  refine ⟨fun m m' hm => ?_, fun m => ?_⟩
  · cases hxm : x m with
    | ok a m₁ =>
      rw [bind_apply_ok hxm] at hm
      exact (hf a).ends m₁ m' hm
    | error halt m₁ =>
      rw [bind_apply_error hxm] at hm
      cases hm
      exact hx.ends m m' hxm
  · have h := hx.keeps m
    cases hxm : x m with
    | ok a m₁ =>
      simp only [after, hxm, bind_apply_ok hxm] at h ⊢
      exact htrans h ((hf a).keeps m₁)
    | error halt m₁ =>
      simp only [after, hxm, bind_apply_error hxm] at h ⊢
      exact h

/-- A change that fails leaves the machine alone. -/
theorem change {f : Machine → Except Failure Machine} (hrefl : ∀ m, K m m)
    (h : ∀ m m', f m = .ok m' → K m m') : (Action.change f).EndsIn K := by
  refine ⟨fun m m' hm => ?_, fun m => ?_⟩
  · rw [change_apply] at hm
    cases hf : f m <;> rw [hf] at hm <;> cases hm
  · simp only [after, change_apply]
    cases hf : f m with
    | ok m' => exact h m m' hf
    | error f' => exact hrefl m

end EndsIn

/-- An action that comes to an end and stays where it is. -/
abbrev Stays (x : Action α) : Prop := x.EndsIn Machine.Stays

namespace Stays

theorem of_ok {x : Action α} (h : ∀ m : Machine, ∃ a m', x m = .ok a m' ∧ m.Stays m') :
    x.Stays :=
  EndsIn.of_ok h

theorem pure (a : α) : Stays (Pure.pure a : Action α) := of_ok fun m => ⟨a, m, rfl, .refl⟩

theorem fail (f : Failure) : Stays (Action.fail f : Action α) :=
  ⟨fun _ _ => nofun, fun _ => .refl⟩

theorem get : Stays (MonadState.get : Action Machine) := of_ok fun m => ⟨m, m, rfl, .refl⟩

theorem ofExcept (x : Except Failure α) : Stays (Action.ofExcept x) := by
  cases x with
  | ok a => exact pure a
  | error f => exact fail f

theorem ask (read : Machine → α) : Stays (Action.ask read) :=
  of_ok fun m => ⟨read m, m, rfl, .refl⟩

theorem bind {x : Action α} {f : α → Action β} (hx : x.Stays) (hf : ∀ a, (f a).Stays) :
    (x >>= f).Stays :=
  EndsIn.bind Machine.Stays.trans hx hf

theorem demand (read : Machine → Except Failure α) : Stays (Action.demand read) :=
  bind get fun m => ofExcept (read m)

theorem change {f : Machine → Except Failure Machine}
    (h : ∀ m m' : Machine, f m = .ok m' → m.Stays m') : Stays (Action.change f) :=
  EndsIn.change (fun _ => .refl) h

theorem edit {x : Editing Machine Unit} (hx : x.Atomic)
    (h : ∀ m m' : Machine, x.result m = .ok m' → m.Stays m') : Stays (Action.edit x) :=
  edit_eq_change hx ▸ change h

/-- The world changes, but neither the stacks nor where one is. -/
theorem changeWorld {f : World → World} (hchange : ∀ w, World.Change w (f w))
    (hdesktop : ∀ w : World, w.desktop.SamePlace (f w).desktop)
    (hcurrent : ∀ (w : World) n, ((f w).stack n).currentCard = (w.stack n).currentCard) :
    Stays (Action.changeWorld f) :=
  of_ok fun _ => ⟨(), _, rfl, .change (hchange _) (hdesktop _) (hcurrent _)⟩

theorem changeContext {f : Context → Context} (hdepth : ∀ c, (f c).frames.depth = c.frames.depth)
    (hbound : ∀ c, (f c).stack = c.stack) : Stays (Action.changeContext f) :=
  of_ok fun m => ⟨(), _, rfl, .context (hdepth m.context) (hbound m.context)⟩

theorem setResult (value : Value) : Stays (Action.setResult value) :=
  changeContext (fun _ => rfl) fun _ => rfl

theorem skipDraws (n : Nat) :
    Stays (Action.changeWorld fun w => { w with draws := w.draws.skip n }) :=
  changeWorld (fun _ => .draws n) (fun _ => .refl) fun _ _ => rfl

theorem changeClock (f : Clock → Clock) :
    Stays (Action.changeWorld fun w => { w with clock := f w.clock }) :=
  changeWorld (fun _ => .clock _) (fun _ => .refl) fun _ _ => rfl

theorem resolve (spec : Specifier) : Stays (Action.resolve spec) :=
  bind get fun _ => bind (skipDraws _) fun _ => ofExcept _

theorem takeEffect : Stays Action.takeEffect :=
  bind get fun _ => bind (changeContext (fun _ => rfl) fun _ => rfl) fun _ => pure _

end Stays

end Action

/-! ## The elementary actions of the interpreter -/

theorem endOfWay_stays : (endOfWay message passed).Stays := by
  unfold endOfWay
  split
  · exact .pure _
  · exact .fail _

theorem callBuiltin_stays : (callBuiltin name args).Stays := by
  unfold callBuiltin callBuiltin?
  cases Builtin.named? name with
  | none => exact .fail _
  | some b =>
    exact .bind .get fun _ => .bind (.skipDraws _) fun _ =>
      .bind (.changeClock (·.skip b.readings)) fun _ => .ofExcept _

theorem usualOwner_stays : (usualOwner type).Stays := by
  unfold usualOwner
  split
  · exact .bind (.demand _) fun _ => .pure _
  · exact .bind (.demand _) fun _ => .pure _
  · exact .demand _

theorem countParts_stays : (countParts type layer owner).Stays := by
  refine .bind (.ask _) fun w => ?_
  split
  · exact .pure _
  · exact .fail _

theorem pinChunk_stays : (pinChunk chunk text).Stays :=
  .bind (.ask _) fun _ => .bind (.skipDraws _) fun _ => .pure _

theorem settleChunk_stays : (settleChunk slot chunk).Stays := by
  unfold settleChunk
  split
  · exact .pure _
  · exact .bind (.demand _) fun _ => pinChunk_stays

theorem beep_stays : (Action.changeWorld fun w => { w with desktop := w.desktop.beep }).Stays :=
  .changeWorld (fun _ => .beep) (fun _ => ⟨rfl, rfl, rfl, rfl, rfl⟩) fun _ _ => rfl

theorem pause_stays : (pause millis).Stays :=
  .bind (.demand _) fun _ => .changeClock (·.advance millis)

theorem beepAgain_stays : (beepAgain interval times).Stays := by
  induction times with
  | zero => exact .pure _
  | succ times ih => exact .bind pause_stays fun _ => .bind beep_stays fun _ => ih

theorem beepTimes_stays : (beepTimes times).Stays := by
  unfold beepTimes
  split
  · exact .bind beep_stays fun _ => .bind (.ask _) fun _ => beepAgain_stays
  · exact .pure _

theorem waitFor_stays : (waitFor amount unit).Stays := by
  have waiting (seconds : Float) : Action.Stays (do
      if 0 < seconds then pause (millisOf seconds)
      Action.demand (·.checkAbort)) := by
    split
    · exact .bind pause_stays fun _ => .demand _
    · exact .demand _
  exact waiting _

theorem assign_stays (name : Symbol) (value : Value) :
    (Action.edit (Machine.settingVariable name value)).Stays :=
  .edit (Machine.settingVariable_atomic ..) fun _ _ => Machine.setVariable_stays

theorem modifyFrame_stays (change : Frame → Frame) :
    (Action.edit (Machine.modifyingFrame change)).Stays :=
  .edit (Machine.modifyingFrame_atomic change) fun _ _ => Machine.modifyFrame_stays

theorem setPartProperty_stays (h : Handle) (name : String) (value : Value) :
    (editStack h.stack (Stack.settingProperty h.found name value)).Stays := by
  rw [Action.edit_setPartProperty]
  refine .change fun m m' hm => ?_
  obtain ⟨w, hw, hm⟩ := Failure.bind_eq_ok.1 hm
  cases hm
  exact Machine.setPartProperty_stays hw

theorem setWorldProperty_stays (name : String) (value : Value) :
    (Action.edit (Machine.onWorld (World.settingProperty name value))).Stays := by
  rw [Action.edit_setProperty]
  refine .change fun m m' hm => ?_
  obtain ⟨w, hw, hm⟩ := Failure.bind_eq_ok.1 hm
  cases hm
  exact Machine.setProperty_stays hw

theorem write_stays (a : Address) (preposition : Preposition) (value : Value) :
    (Action.edit (a.writing preposition value)).Stays :=
  .edit (a.writing_atomic ..) fun _ _ => Address.write_stays

theorem declareGlobals_stays : (declareGlobals names).Stays := by
  induction names with
  | nil => exact .pure _
  | cons name rest ih =>
    have hseed : Action.Stays (modify (·.seedGlobal name)) :=
      .of_ok fun m => ⟨(), _, rfl, .change (.seedGlobal name) .refl fun _ => rfl⟩
    have hdeclare : (declareGlobal name).Stays :=
      .bind hseed fun _ => modifyFrame_stays _
    exact .bind hdeclare fun _ => ih

theorem bindParams_stays : (bindParams names args).Stays := by
  induction names generalizing args with
  | nil => exact .pure _
  | cons name names ih => exact .bind (assign_stays name _) fun _ => ih

end CardScript
