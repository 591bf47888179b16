import CardScript.Proofs.Script.Atomicity
import Mathlib.Data.List.Forall2
import Mathlib.Logic.Function.Basic

/-!
# What an abort stops

Several runs share one world and with it the clock of aborts, while each has frames of its own.
Frames are begun and ended and aborts are asked for in any order. A history lists what happened,
the latest first. It settles when the open frames of a run were begun (`begunTimes`), and an abort
stops the frames begun before it and no others. This rests on three facts about the clock, which
every event keeps (`Runs.InStep`): no tick is later than the clock, frames further out carry
earlier ticks, and a frame's tick lies before the last request exactly if a request followed the
event that began the frame.
-/

namespace CardScript

variable {ι : Type}

/-- What happens to the frames of several runs. -/
inductive FrameEvent (ι : Type) where
  | push (run : ι) (message : String) (me : Option Handle) (args : List Value)
  | pop (run : ι)
  /-- An abort is asked for. -/
  | request

/-- Runs that share one world. -/
structure Runs (ι : Type) where
  world : World
  context : ι → Context

/-! ## Events -/

namespace Runs

/-- One of the runs, in the world they share. -/
def machine (r : Runs ι) (i : ι) : Machine :=
  { world := r.world, context := r.context i }

/-- The open frames of a run, the innermost first. -/
def frames (r : Runs ι) (i : ι) : List Frame :=
  (r.context i).frames.toList

/-- No frame is open, and the clock is new. -/
structure Idle (r : Runs ι) : Prop where
  interrupt : r.world.interrupt = {}
  frames : ∀ i, r.frames i = []

theorem depth_machine (r : Runs ι) (i : ι) : (r.machine i).depth = (r.frames i).length :=
  CallStack.depth_eq _

/-- A run is to stop if its innermost frame is aborted. -/
theorem checkAbort_eq_error_iff (r : Runs ι) (i : ι) :
    (r.machine i).checkAbort = .error (.semantic .aborted) ↔
      ∃ f ∈ (r.frames i).head?, r.world.interrupt.aborts f.begunAt = true := by
  have hframe : (r.machine i).frame? = (r.frames i).head? := rfl
  unfold Machine.checkAbort Machine.isAborted
  rw [hframe]
  cases (r.frames i).head? with
  | none => simp
  | some f =>
    show (if r.world.interrupt.aborts f.begunAt = true then _ else _) = _ ↔ _
    split
    next haborts => simp [haborts]
    next hgoing => simp [hgoing]

variable [DecidableEq ι]

/-- The runs when one of them has gone on. -/
def withMachine (r : Runs ι) (i : ι) (m : Machine) : Runs ι :=
  { world := m.world, context := Function.update r.context i m.context }

/-- The runs after an event, whether or not a frame is refused. -/
def step (r : Runs ι) : FrameEvent ι → Runs ι
  | .push i message me args =>
    match Machine.pushingFrame message me args (r.machine i) with
    | .ok _ m | .error _ m => r.withMachine i m
  | .pop i => r.withMachine i (r.machine i).popFrame
  | .request => { r with world := { r.world with interrupt := r.world.interrupt.request } }

/-- The runs after a history, of which the latest event comes first. -/
def after (r : Runs ι) : List (FrameEvent ι) → Runs ι
  | [] => r
  | e :: earlier => (r.after earlier).step e

variable {r : Runs ι} {i j : ι} {message : String} {me : Option Handle} {args : List Value}

theorem frames_withMachine (r : Runs ι) (i j : ι) (m : Machine) :
    (r.withMachine i m).frames j = if j = i then m.context.frames.toList else r.frames j := by
  by_cases h : j = i
  · subst h
    simp only [frames, withMachine, Function.update_self, if_true]
  · simp only [frames, withMachine, Function.update_of_ne h, if_neg h]

theorem withMachine_self (r : Runs ι) (i : ι) : r.withMachine i (r.machine i) = r :=
  congrArg (Runs.mk r.world) (Function.update_eq_self i r.context)

/-- A frame that is refused leaves all as it was. -/
theorem step_push_of_le (h : r.world.settings.maxCallDepth ≤ (r.frames i).length) :
    r.step (.push i message me args) = r := by
  have hrefused : Machine.pushingFrame message me args (r.machine i) =
      .error (.semantic .tooMuchRecursion) (r.machine i) :=
    (Machine.pushingFrame_apply ..).trans (if_pos (r.depth_machine i ▸ h))
  rw [step, hrefused]
  exact r.withMachine_self i

/-- A frame begins at the next tick of the clock. -/
theorem step_push_of_lt (h : (r.frames i).length < r.world.settings.maxCallDepth)
    (message : String) (me : Option Handle) (args : List Value) :
    (r.step (.push i message me args)).world =
        { r.world with interrupt := r.world.interrupt.stamp.2 } ∧
      ∀ j, (r.step (.push i message me args)).frames j =
        if j = i then
          { message, me, args, begunAt := r.world.interrupt.clock + 1 } :: r.frames i
        else r.frames j := by
  have hpush : ∃ m, Machine.pushingFrame message me args (r.machine i) = .ok () m ∧
      m.world = { r.world with interrupt := r.world.interrupt.stamp.2 } ∧
      m.context.frames.toList =
        { message, me, args, begunAt := r.world.interrupt.clock + 1 } :: r.frames i :=
    ⟨_, (Machine.pushingFrame_apply ..).trans (if_neg (Nat.not_le.2 (r.depth_machine i ▸ h))),
      rfl, rfl⟩
  obtain ⟨m, hm, hworld, hframes⟩ := hpush
  rw [step, hm]
  refine ⟨hworld, fun j => ?_⟩
  rw [frames_withMachine, hframes]

theorem frames_pop (r : Runs ι) (i j : ι) :
    (r.step (.pop i)).frames j = if j = i then (r.frames i).tail else r.frames j :=
  r.frames_withMachine i j _

end Runs

/-! ## When frames were begun -/

/-- When the open frames of a run were begun, the innermost first: how many events came before the
one that began the frame. At the limit no frame is begun. -/
def begunTimes [DecidableEq ι] (limit : Nat) (i : ι) : List (FrameEvent ι) → List Nat
  | [] => []
  | .push j _ _ _ :: earlier =>
    let times := begunTimes limit i earlier
    if i = j ∧ times.length < limit then earlier.length :: times else times
  | .pop j :: earlier =>
    let times := begunTimes limit i earlier
    if i = j then times.tail else times
  | .request :: earlier => begunTimes limit i earlier

namespace Interrupt

variable {interrupt interrupt' : Interrupt} {i : ι} {history : List (FrameEvent ι)} {f : Frame}
  {time : Nat}

/-- The frame was begun at this time of a history, by the event of that time, and is aborted exactly
if a request came later. -/
def StopsSince (interrupt : Interrupt) (i : ι) (history : List (FrameEvent ι)) (f : Frame)
    (time : Nat) : Prop :=
  ∃ later earlier, history = later ++ .push i f.message f.me f.args :: earlier ∧
    earlier.length = time ∧ (interrupt.aborts f.begunAt = true ↔ .request ∈ later)

/-- One more event stops a frame if it is a request, and changes nothing for it otherwise. -/
theorem StopsSince.cons (h : interrupt.StopsSince i history f time) (e : FrameEvent ι)
    (he : interrupt'.aborts f.begunAt = true ↔
      e = .request ∨ interrupt.aborts f.begunAt = true) :
    interrupt'.StopsSince i (e :: history) f time := by
  obtain ⟨later, earlier, hhistory, htime, haborts⟩ := h
  refine ⟨e :: later, earlier, by rw [hhistory, List.cons_append], htime, ?_⟩
  rw [he, haborts, List.mem_cons, eq_comm]

/-- What is begun after all requests is not stopped. -/
theorem StopsSince.aborts_eq_false {later earlier : List (FrameEvent ι)}
    (h : interrupt.StopsSince i (later ++ earlier) f time) (hlater : .request ∉ later)
    (htime : earlier.length ≤ time) : interrupt.aborts f.begunAt = false := by
  obtain ⟨later', earlier', hhistory, rfl, haborts⟩ := h
  rw [← Bool.not_eq_true, haborts]
  intro hrequest
  -- The event that began the frame is in `later`, and all that followed it is as well.
  have hlength : later'.length ≤ later.length := by
    have hlength := congrArg List.length hhistory
    simp only [List.length_append, List.length_cons] at hlength
    omega
  have hinitial : later' <+: later := by
    refine List.prefix_of_prefix_length_le ?_ (List.prefix_append later earlier) hlength
    rw [hhistory]
    exact List.prefix_append ..
  exact hlater (hinitial.subset hrequest)

/-- Ticks descend from the innermost frame on, so the frames that are stopped lie at the bottom. -/
theorem exists_bottom (interrupt : Interrupt) {frames : List Frame}
    (h : frames.Pairwise fun f g => g.begunAt < f.begunAt) :
    ∃ going stopped, frames = going ++ stopped ∧
      (∀ f ∈ going, interrupt.aborts f.begunAt = false) ∧
      ∀ f ∈ stopped, interrupt.aborts f.begunAt = true := by
  induction frames with
  | nil => exact ⟨[], [], rfl, nofun, nofun⟩
  | cons f frames ih =>
    obtain ⟨hbelow, hframes⟩ := List.pairwise_cons.1 h
    cases hf : interrupt.aborts f.begunAt with
    | false =>
      obtain ⟨going, stopped, hsplit, hgoing, hstopped⟩ := ih hframes
      refine ⟨f :: going, stopped, by rw [hsplit, List.cons_append], ?_, hstopped⟩
      exact List.forall_mem_cons.2 ⟨hf, hgoing⟩
    | true =>
      refine ⟨[], f :: frames, rfl, nofun, List.forall_mem_cons.2 ⟨hf, fun g hg => ?_⟩⟩
      have hlt : f.begunAt < interrupt.requestedAt := of_decide_eq_true hf
      exact decide_eq_true (Nat.lt_trans (hbelow g hg) hlt)

end Interrupt

/-! ## Histories -/

namespace Runs

variable [DecidableEq ι]

/-- The runs have come from a new clock by a history. -/
structure InStep (limit : Nat) (history : List (FrameEvent ι)) (r : Runs ι) : Prop where
  limit_eq : r.world.settings.maxCallDepth = limit
  clock_le : r.world.interrupt.clock ≤ history.length
  requestedAt_le : r.world.interrupt.requestedAt ≤ r.world.interrupt.clock
  begunAt_le : ∀ i, ∀ f ∈ r.frames i, f.begunAt ≤ r.world.interrupt.clock
  /-- Frames further out carry earlier ticks. -/
  descending : ∀ i, (r.frames i).Pairwise fun f g => g.begunAt < f.begunAt
  stops : ∀ i, List.Forall₂ (r.world.interrupt.StopsSince i history) (r.frames i)
    (begunTimes limit i history)

namespace InStep

variable {limit : Nat} {history : List (FrameEvent ι)} {r : Runs ι}

theorem idle (h : r.Idle) : r.InStep r.world.settings.maxCallDepth [] := by
  have hclock : r.world.interrupt.clock = 0 := by rw [h.interrupt]
  have hrequestedAt : r.world.interrupt.requestedAt = 0 := by rw [h.interrupt]
  constructor
  · rfl
  · exact Nat.le_of_eq hclock
  · exact Nat.le_of_eq (hrequestedAt.trans hclock.symm)
  · intro i f hf
    rw [h.frames] at hf
    cases hf
  · intro i
    rw [h.frames]
    exact .nil
  · intro i
    rw [h.frames]
    exact .nil

/-- An event other than a request leaves the frames that stay open as they are. -/
theorem stops_cons (h : r.InStep limit history) (e : FrameEvent ι) (he : e ≠ .request)
    (interrupt : Interrupt) (hsame : interrupt.requestedAt = r.world.interrupt.requestedAt)
    (i : ι) :
    List.Forall₂ (interrupt.StopsSince i (e :: history)) (r.frames i)
      (begunTimes limit i history) := by
  refine (h.stops i).imp fun f time hf => hf.cons e ?_
  simp only [Interrupt.aborts, hsame, he, false_or]

theorem length_begunTimes (h : r.InStep limit history) (i : ι) :
    (begunTimes limit i history).length = (r.frames i).length :=
  (h.stops i).length_eq.symm

variable {i : ι}

/-- A frame that is begun is later than all requests. -/
theorem push_of_lt (h : r.InStep limit history) (hdepth : (r.frames i).length < limit)
    (message : String) (me : Option Handle) (args : List Value) :
    (r.step (.push i message me args)).InStep limit (.push i message me args :: history) := by
  obtain ⟨hworld, hframes⟩ := step_push_of_lt (h.limit_eq.symm ▸ hdepth) message me args
  constructor
  · rw [hworld]
    exact h.limit_eq
  · rw [hworld]
    exact Nat.succ_le_succ h.clock_le
  · rw [hworld]
    exact Nat.le_succ_of_le h.requestedAt_le
  · intro j f hf
    rw [hframes] at hf
    rw [hworld]
    split at hf
    · rcases List.mem_cons.1 hf with rfl | hf
      · exact Nat.le_refl _
      · exact Nat.le_succ_of_le (h.begunAt_le i f hf)
    · exact Nat.le_succ_of_le (h.begunAt_le j f hf)
  · intro j
    rw [hframes]
    split
    · refine List.pairwise_cons.2 ⟨fun f hf => ?_, h.descending i⟩
      exact Nat.lt_succ_of_le (h.begunAt_le i f hf)
    · exact h.descending j
  · intro j
    have hkept := h.stops_cons (.push i message me args) nofun
      r.world.interrupt.stamp.2 rfl j
    rw [hworld, hframes]
    by_cases hji : j = i
    · subst hji
      rw [begunTimes, if_pos rfl, if_pos ⟨rfl, h.length_begunTimes j ▸ hdepth⟩]
      refine .cons ⟨[], history, rfl, rfl, ?_⟩ hkept
      have hnew : ¬ r.world.interrupt.clock + 1 < r.world.interrupt.requestedAt :=
        Nat.not_lt.2 (Nat.le_succ_of_le h.requestedAt_le)
      simp [Interrupt.aborts, Interrupt.stamp, hnew]
    · rw [begunTimes, if_neg hji, if_neg fun hboth => hji hboth.1]
      exact hkept

/-- At the limit no frame is begun, and no tick of the clock is used up. -/
theorem push_of_le (h : r.InStep limit history) (hdepth : limit ≤ (r.frames i).length)
    (message : String) (me : Option Handle) (args : List Value) :
    (r.step (.push i message me args)).InStep limit (.push i message me args :: history) := by
  rw [step_push_of_le (h.limit_eq.symm ▸ hdepth)]
  refine ⟨h.limit_eq, Nat.le_succ_of_le h.clock_le, h.requestedAt_le, h.begunAt_le, h.descending,
    fun j => ?_⟩
  have hrefused : ¬ (j = i ∧ (begunTimes limit j history).length < limit) := by
    rintro ⟨rfl, hlt⟩
    rw [h.length_begunTimes] at hlt
    exact Nat.not_lt.2 hdepth hlt
  rw [begunTimes, if_neg hrefused]
  exact h.stops_cons (.push i message me args) nofun r.world.interrupt rfl j

theorem pop (h : r.InStep limit history) (i : ι) :
    (r.step (.pop i)).InStep limit (.pop i :: history) := by
  refine ⟨h.limit_eq, Nat.le_succ_of_le h.clock_le, h.requestedAt_le, fun j f hf => ?_,
    fun j => ?_, fun j => ?_⟩
  · rw [frames_pop] at hf
    split at hf
    · exact h.begunAt_le i f (List.mem_of_mem_tail hf)
    · exact h.begunAt_le j f hf
  · rw [frames_pop]
    split
    · exact (h.descending i).sublist (List.tail_sublist _)
    · exact h.descending j
  · have hkept := h.stops_cons (.pop i) nofun r.world.interrupt rfl j
    rw [frames_pop, begunTimes]
    by_cases hji : j = i
    · subst hji
      rw [if_pos rfl, if_pos rfl, ← List.drop_one, ← List.drop_one]
      exact List.forall₂_drop 1 hkept
    · rw [if_neg hji, if_neg hji]
      exact hkept

/-- A request is later than all frames, and stops them. -/
theorem request (h : r.InStep limit history) :
    (r.step .request).InStep limit (.request :: history) := by
  refine ⟨h.limit_eq, Nat.succ_le_succ h.clock_le, Nat.le_refl _, fun j f hf => ?_, h.descending,
    fun j => ?_⟩
  · exact Nat.le_succ_of_le (h.begunAt_le j f hf)
  · have hboth := (List.forall₂_and_left _ _).2 ⟨h.begunAt_le j, h.stops j⟩
    refine hboth.imp fun f time ⟨hle, hf⟩ => hf.cons .request ?_
    have hstops : (r.step .request).world.interrupt.aborts f.begunAt = true :=
      decide_eq_true (Nat.lt_succ_of_le hle)
    simp only [hstops, true_or]

theorem step (h : r.InStep limit history) (e : FrameEvent ι) :
    (r.step e).InStep limit (e :: history) := by
  cases e with
  | push i message me args =>
    rcases Nat.lt_or_ge (r.frames i).length limit with hdepth | hdepth
    · exact h.push_of_lt hdepth message me args
    · exact h.push_of_le hdepth message me args
  | pop i => exact h.pop i
  | request => exact h.request

/-- The innermost frame of a run is aborted if a request came after the event that began it. -/
theorem aborts_head_iff (h : r.InStep limit history) (i : ι) :
    (∃ f ∈ (r.frames i).head?, r.world.interrupt.aborts f.begunAt = true) ↔
      ∃ later message me args earlier,
        history = later ++ .push i message me args :: earlier ∧
        (begunTimes limit i history).head? = some earlier.length ∧ .request ∈ later := by
  have hstops := h.stops i
  generalize r.frames i = frames, begunTimes limit i history = times at hstops ⊢
  cases hstops with
  | nil => simp
  | cons hf _ =>
    obtain ⟨later, earlier, hhistory, rfl, haborts⟩ := hf
    constructor
    · rintro ⟨_, ⟨⟩, hf⟩
      exact ⟨later, _, _, _, earlier, hhistory, rfl, haborts.1 hf⟩
    · rintro ⟨later', message, me, args, earlier', hhistory', htime, hrequest⟩
      -- As many events came before the one as before the other, so they are the same.
      have hlength : earlier.length = earlier'.length := Option.some.inj htime
      obtain ⟨rfl, -⟩ := List.append_inj' (hhistory.symm.trans hhistory')
        (by simp only [List.length_cons, hlength])
      exact ⟨_, rfl, haborts.2 hrequest⟩

end InStep

theorem Idle.inStep {r : Runs ι} (h : r.Idle) (history : List (FrameEvent ι)) :
    (r.after history).InStep r.world.settings.maxCallDepth history := by
  induction history with
  | nil => exact .idle h
  | cons e earlier ih => exact ih.step e

end Runs

/-- **An abort stops the frames begun before it and no others.** Runs that share one world begin and
end frames and aborts are asked for, in whatever order. Each open frame was begun by an event of the
history, as the number of events before it tells, and is aborted exactly if a request came after
that event. Within a run, the aborted frames are those at the bottom of the call stack; frames
begun after the last request are not aborted; and a run is told to stop exactly if a request came
after the event that began its innermost frame. The clock does not run ahead of the number of
events. -/
theorem abort_stops_earlier_frames [DecidableEq ι] (r : Runs ι) (hr : r.Idle)
    (history : List (FrameEvent ι)) :
    let s := r.after history
    let times := fun i => begunTimes r.world.settings.maxCallDepth i history
    s.world.interrupt.clock ≤ history.length ∧
    ∀ i,
      List.Forall₂ (fun f time => ∃ later earlier,
          history = later ++ .push i f.message f.me f.args :: earlier ∧ earlier.length = time ∧
          (s.world.interrupt.aborts f.begunAt = true ↔ .request ∈ later))
        (s.frames i) (times i) ∧
      (∃ going stopped, s.frames i = going ++ stopped ∧
        (∀ f ∈ going, s.world.interrupt.aborts f.begunAt = false) ∧
        ∀ f ∈ stopped, s.world.interrupt.aborts f.begunAt = true) ∧
      (∀ later earlier, history = later ++ earlier → .request ∉ later →
        List.Forall₂ (fun f time => earlier.length ≤ time →
          s.world.interrupt.aborts f.begunAt = false) (s.frames i) (times i)) ∧
      ((s.machine i).checkAbort = .error (.semantic .aborted) ↔
        ∃ later message me args earlier,
          history = later ++ .push i message me args :: earlier ∧
          (times i).head? = some earlier.length ∧ .request ∈ later) := by
  intro s times
  have hs := hr.inStep history
  refine ⟨hs.clock_le, fun i => ⟨hs.stops i, ?_, ?_, ?_⟩⟩
  · exact s.world.interrupt.exists_bottom (hs.descending i)
  · rintro later earlier rfl hlater
    exact (hs.stops i).imp fun f time hf => hf.aborts_eq_false hlater
  · rw [Runs.checkAbort_eq_error_iff]
    exact hs.aborts_head_iff i

/-- Two runs, of which one has begun a frame, then the other one, then an abort was asked for, and
then the first run has begun another frame. The first run goes on until that frame is ended. -/
theorem abort_stops_earlier_frames_twoRuns :
    let r : Runs Bool := { world := .start {}, context := fun _ => {} }
    let history : List (FrameEvent Bool) :=
      [.push true "later" none [], .request, .push false "other" none [],
        .push true "earlier" none []]
    r.Idle ∧
    (∃ f g, (r.after history).frames true = [f, g] ∧ f.message = "later" ∧ g.message = "earlier" ∧
      (r.after history).world.interrupt.aborts f.begunAt = false ∧
      (r.after history).world.interrupt.aborts g.begunAt = true) ∧
    ((r.after history).machine false).checkAbort = .error (.semantic .aborted) ∧
    ((r.after history).machine true).checkAbort = .ok () ∧
    ((r.after (.pop true :: history)).machine true).checkAbort = .error (.semantic .aborted) := by
  intro r history
  have hr : r.Idle := ⟨rfl, fun _ => rfl⟩
  obtain ⟨-, hhistory⟩ := abort_stops_earlier_frames r hr history
  obtain ⟨-, hpopped⟩ := abort_stops_earlier_frames r hr (.pop true :: history)
  refine ⟨hr, ⟨_, _, rfl, rfl, rfl, rfl, rfl⟩, ?_, rfl, ?_⟩
  · obtain ⟨-, -, -, hother⟩ := hhistory false
    exact hother.2 ⟨[.push true "later" none [], .request], "other", none, [], _, rfl, rfl, by simp⟩
  · obtain ⟨-, -, -, hearlier⟩ := hpopped true
    exact hearlier.2
      ⟨[.pop true, .push true "later" none [], .request, .push false "other" none []], "earlier",
        none, [], _, rfl, rfl, by simp⟩

end CardScript
