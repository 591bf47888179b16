import CardScript.Proofs.Script.Interpreter

/-!
# The call stack

Whatever a script does, every frame it begins is ended, the target is set back, and the frames of
its callers stay as they are (`Machine.Course.disciplined`). The bound on the depth is read off
`CallStack.peak`: the type has every depth at or below it, no step lowers it, and a push raises it
to the depth it reaches, so it is the greatest depth at any point of a run.
-/

namespace CardScript

/-- The frame of the same handler later on: it may have set variables and declared globals. -/
structure Frame.Continues (f g : Frame) : Prop where
  message : g.message = f.message
  me : g.me = f.me
  args : g.args = f.args
  begunAt : g.begunAt = f.begunAt
  globals : f.globals ⊆ g.globals

namespace Frame.Continues

variable {f g h : Frame}

theorem refl : f.Continues f := ⟨rfl, rfl, rfl, rfl, fun _ => id⟩

theorem trans (hfg : f.Continues g) (hgh : g.Continues h) : f.Continues h where
  message := hgh.message.trans hfg.message
  me := hgh.me.trans hfg.me
  args := hgh.args.trans hfg.args
  begunAt := hgh.begunAt.trans hfg.begunAt
  globals := fun _ hname => hgh.globals (hfg.globals hname)

theorem declare (name : Symbol) : f.Continues (f.declare name) := by
  unfold Frame.declare
  split
  · exact refl
  · exact ⟨rfl, rfl, rfl, rfl, fun _ => List.mem_cons_of_mem _⟩

end Frame.Continues

/-- The open frames after a piece of a run of some extent. -/
def FramesKept : Extent → List Frame → List Frame → Prop
  | .outside, before, after => after = before
  | .inside, [], after => after = []
  | .inside, f :: below, after => ∃ g, after = g :: below ∧ f.Continues g

namespace FramesKept

variable {e : Extent} {before between after : List Frame}

theorem refl : FramesKept e before before := by
  cases e with
  | outside => rfl
  | inside =>
    cases before with
    | nil => rfl
    | cons f below => exact ⟨f, rfl, .refl⟩

theorem trans (h₁ : FramesKept e before between) (h₂ : FramesKept e between after) :
    FramesKept e before after := by
  cases e with
  | outside => exact Eq.trans h₂ h₁
  | inside =>
    cases before with
    | nil =>
      cases h₁
      exact h₂
    | cons f below =>
      obtain ⟨g, rfl, hfg⟩ := h₁
      obtain ⟨h, rfl, hgh⟩ := h₂
      exact ⟨h, rfl, hfg.trans hgh⟩

theorem modifyHead {change : Frame → Frame} (h : ∀ f : Frame, f.Continues (change f)) :
    FramesKept .inside before (before.modifyHead change) := by
  cases before with
  | nil => rfl
  | cons f below => exact ⟨change f, rfl, h f⟩

/-- Whatever the extent, at most the innermost frame changes. -/
theorem innermost (h : FramesKept e before after) :
    before = [] ∧ after = [] ∨
      ∃ f g below, before = f :: below ∧ after = g :: below ∧ f.Continues g := by
  cases before with
  | nil => cases e <;> exact .inl ⟨rfl, h⟩
  | cons f below =>
    cases e with
    | outside => exact .inr ⟨f, f, below, rfl, h, .refl⟩
    | inside =>
      obtain ⟨g, hg, hfg⟩ := h
      exact .inr ⟨f, g, below, rfl, hg, hfg⟩

end FramesKept

theorem World.Change.settings_eq {w w' : World} (h : World.Change w w') :
    w'.settings = w.settings := by
  cases h with
  | property h =>
    obtain ⟨table, -, rfl, -⟩ := World.setProperty_eq_ok h
    rfl
  | contents h =>
    obtain ⟨s, _, h⟩ := Failure.bind_eq_ok.1 h
    cases h
    rfl
  | partProperty h =>
    obtain ⟨s, _, h⟩ := Failure.bind_eq_ok.1 h
    cases h
    rfl
  | _ => rfl

namespace Machine

variable {e : Extent} {m m' : Machine}

def peak (m : Machine) : Nat :=
  m.context.frames.peak

/-- What a piece of a run makes of the frames, the target and the depth. -/
structure Disciplined (e : Extent) (m m' : Machine) : Prop where
  frames : FramesKept e m.context.frames.toList m'.context.frames.toList
  target : m'.context.target = m.context.target
  settings : m'.world.settings = m.world.settings
  peak_mono : m.peak ≤ m'.peak
  peak_le : m'.peak ≤ max m.peak m.world.settings.maxCallDepth

namespace Disciplined

theorem refl : Disciplined e m m :=
  ⟨.refl, rfl, rfl, Nat.le_refl _, Nat.le_max_left ..⟩

theorem trans {m₁ m₂ m₃ : Machine} (h₁ : Disciplined e m₁ m₂) (h₂ : Disciplined e m₂ m₃) :
    Disciplined e m₁ m₃ where
  frames := h₁.frames.trans h₂.frames
  target := h₂.target.trans h₁.target
  settings := h₂.settings.trans h₁.settings
  peak_mono := Nat.le_trans h₁.peak_mono h₂.peak_mono
  peak_le := by
    have h := h₂.peak_le
    rw [h₁.settings] at h
    have := h₁.peak_le
    omega

theorem onTop {change : Frame → Frame} (h : ∀ f : Frame, f.Continues (change f)) :
    Disciplined .inside m (m.onTop change) :=
  ⟨.modifyHead h, rfl, rfl, Nat.le_refl _, Nat.le_max_left ..⟩

/-- A call is over when its frame has been popped, and has gone no deeper than the limit. -/
theorem call {m₁ m₂ : Machine} (hpush : m.pushFrame message me values = .ok m₁)
    (h : Disciplined .inside m₁ m₂) : Disciplined e m m₂.popFrame := by
  obtain ⟨hdepth, f, -, -, -, -, -, hcontext, hworld⟩ := pushFrame_eq_ok hpush
  have hframes := h.frames
  rw [hcontext] at hframes
  obtain ⟨g, hg, -⟩ := hframes
  have hpeak : m₁.peak = max m.peak (m.depth + 1) := by rw [peak, hcontext]; rfl
  have hsettings : m₁.world.settings = m.world.settings := by rw [hworld]
  have hmono := h.peak_mono
  have hle := h.peak_le
  rw [hsettings] at hle
  refine ⟨?_, ?_, h.settings.trans hsettings, ?_, ?_⟩
  · rw [show m₂.popFrame.context.frames.toList = m.context.frames.toList by
      simp [popFrame, hg]]
    exact .refl
  · exact h.target.trans (by rw [hcontext])
  · show m.peak ≤ m₂.peak
    omega
  · show m₂.peak ≤ _
    omega

end Disciplined

/-- The discipline of the call stack holds along every course. -/
theorem Course.disciplined (h : Course e m m') : Disciplined e m m' := by
  induction h with
  | refl => exact .refl
  | trans _ _ ih₁ ih₂ => exact ih₁.trans ih₂
  | world h => exact ⟨.refl, rfl, h.settings_eq, Nat.le_refl _, Nat.le_max_left ..⟩
  | result | stack | card => exact ⟨.refl, rfl, rfl, Nat.le_refl _, Nat.le_max_left ..⟩
  | assign name value => exact .onTop fun _ => ⟨rfl, rfl, rfl, rfl, fun _ => id⟩
  | declare name => exact .onTop fun _ => .declare name
  | effect effect => exact .onTop fun _ => ⟨rfl, rfl, rfl, rfl, fun _ => id⟩
  | call hpush _ ih => exact .call hpush ih
  | send _ ih => exact ⟨ih.frames, rfl, ih.settings, ih.peak_mono, ih.peak_le⟩

end Machine

/-! ## What every run keeps -/

/-- What a caller finds of the call stack when an action is over. -/
structure Machine.CallsKept (m m' : Machine) : Prop where
  depth : m'.depth = m.depth
  below : m'.context.frames.toList.tail = m.context.frames.toList.tail
  innermost : ∀ f, m.frame? = some f → ∃ g, m'.frame? = some g ∧ f.Continues g
  target : m'.context.target = m.context.target
  peak_mono : m.peak ≤ m'.peak
  /-- With the record begun at the depth of the start, no depth on the way exceeds both that depth
  and the limit. -/
  peak_le : m.peak = m.depth → m'.peak ≤ max m.world.settings.maxCallDepth m.depth

theorem Machine.Disciplined.callsKept {m m' : Machine} (h : m.Disciplined e m') :
    m.CallsKept m' := by
  have hpeak : m.peak = m.depth → m'.peak ≤ max m.world.settings.maxCallDepth m.depth := by
    intro hpeak
    rw [Nat.max_comm, ← hpeak]
    exact h.peak_le
  obtain ⟨hbefore, hafter⟩ | ⟨f, g, below, hbefore, hafter, hfg⟩ := h.frames.innermost
  · refine ⟨?_, ?_, fun f hf => ?_, h.target, h.peak_mono, hpeak⟩
    · rw [depth, depth, CallStack.depth_eq, CallStack.depth_eq, hbefore, hafter]
    · rw [hbefore, hafter]
    · rw [frame?, CallStack.top?, hbefore] at hf
      cases hf
  · refine ⟨?_, ?_, fun f' hf => ?_, h.target, h.peak_mono, hpeak⟩
    · rw [depth, depth, CallStack.depth_eq, CallStack.depth_eq, hbefore, hafter]
      rfl
    · rw [hbefore, hafter]
      rfl
    · rw [frame?, CallStack.top?, hbefore] at hf
      cases hf
      exact ⟨g, by rw [frame?, CallStack.top?, hafter]; rfl, hfg⟩

/-- An action that leaves the call stack as its caller may expect, wherever it begins and however
it ends. -/
def Action.KeepsCalls (x : Action α) : Prop :=
  ∀ m : Machine, m.CallsKept (x.after m)

/-- An action that leaves all open frames exactly as they are. -/
def Action.KeepsFrames (x : Action α) : Prop :=
  ∀ m, (x.after m).context.frames.toList = m.context.frames.toList

theorem Action.Follows.keepsCalls {x : Action α} (h : x.Follows e) : x.KeepsCalls :=
  fun m => (h m).disciplined.callsKept

theorem Action.Follows.keepsCallsAndFrames {x : Action α} (h : x.Follows .outside) :
    x.KeepsCalls ∧ x.KeepsFrames :=
  ⟨h.keepsCalls, fun m => (h m).disciplined.frames⟩

/-- **The discipline of the call stack.** Blocks, expressions, handlers, messages, function calls
and loose statements end at the depth they began at, with the target and all but the innermost
frame as they were; that frame goes on as the same one. Only blocks can touch it at all. -/
theorem callStack_discipline (fuel loops : Nat) :
    (∀ block, (execBlock (invoke fuel) loops block).KeepsCalls) ∧
    (∀ x, (evalExpr (invoke fuel) x).KeepsCalls ∧ (evalExpr (invoke fuel) x).KeepsFrames) ∧
    (∀ owner handler args,
      (runHandler (invoke fuel) loops owner handler args).KeepsCalls ∧
        (runHandler (invoke fuel) loops owner handler args).KeepsFrames) ∧
    (∀ target message args,
      (send (invoke fuel) target message args).KeepsCalls ∧
        (send (invoke fuel) target message args).KeepsFrames) ∧
    (∀ name args,
      (callFunction (invoke fuel) name args).KeepsCalls ∧
        (callFunction (invoke fuel) name args).KeepsFrames) ∧
    (∀ statements,
      (runStatements fuel statements).KeepsCalls ∧
        (runStatements fuel statements).KeepsFrames) := by
  have hinvoke := invoke_follows fuel
  refine ⟨fun block => ?_, fun x => ?_, fun owner handler args => ?_, fun target message args => ?_,
    fun name args => ?_, fun statements => ?_⟩
  · exact (execBlock_follows hinvoke block).keepsCalls
  · exact (evalExpr_follows hinvoke x).keepsCallsAndFrames
  · exact (runHandler_follows hinvoke).keepsCallsAndFrames
  · exact (send_follows hinvoke).keepsCallsAndFrames
  · exact (callFunction_follows hinvoke).keepsCallsAndFrames
  · exact runStatements_follows.keepsCallsAndFrames

end CardScript
