import CardScript.Proofs.Script.Lawful

/-!
# No run ends in a defect

A defect would be an access to a frame where there is none, or a stack whose current card is not
among its cards. Statements are carried out in a frame, and stacks stay coherent whatever scripts
do to them, so no action ends in a defect (`sound`). Requests from outside begin where these hold
and leave a world in which they hold again (`World.Fit.answer`); by induction so do all requests of
a session.
-/

namespace CardScript

/-! ## The law -/

namespace Action

variable {α β : Type} {m : Machine}

theorem RecoversAt.bind {x : Action α} {f : α → Action β} (hx : x.RecoversAt m)
    (hf : ∀ a m', x m = .ok a m' → (f a).RecoversAt m') : (x >>= f).RecoversAt m := by
  intro error m' herror
  cases hm : x m with
  | ok a m₁ =>
    rw [bind_apply_ok hm] at herror
    exact hf a m₁ hm error m' herror
  | error halt m₁ =>
    rw [bind_apply_error hm] at herror
    cases herror
    exact hx error m' hm

theorem RecoversAt.noting {x : Action α} {note : ScriptError → ScriptError} (hx : x.RecoversAt m)
    (hnote : ∀ error, (note error).failure = error.failure) : (x.noting note).RecoversAt m := by
  intro error m' herror
  unfold Action.noting at herror
  split at herror
  next => cases herror
  next inner m₁ hm =>
    cases herror
    rw [hnote]
    exact hx inner m' hm
  next => cases herror

theorem RecoversAt.andThen {x : Action α} {f : Machine → Machine} (hx : x.RecoversAt m) :
    (x.andThen f).RecoversAt m := by
  intro error m' herror
  unfold Action.andThen at herror
  split at herror
  next => cases herror
  next halt m₁ hm =>
    cases herror
    exact hx error m₁ hm

theorem recoversAt_modifyFrame {change : Frame → Frame} (h : m.frame?.isSome) :
    (Action.edit (Machine.modifyingFrame change)).RecoversAt m := by
  obtain ⟨f, hf⟩ := Option.isSome_iff_exists.1 h
  rw [edit_eq_change (Machine.modifyingFrame_atomic change)]
  have hresult := m.modifyFrame_eq change
  rw [hf, Machine.modifyFrame] at hresult
  exact recoversAt_change (hresult ▸ recoverable_ok _)

theorem recoversAt_setVariable (name : Symbol) (value : Value) (h : m.frame?.isSome) :
    (Action.edit (Machine.settingVariable name value)).RecoversAt m := by
  obtain ⟨f, hf⟩ := Option.isSome_iff_exists.1 h
  rw [edit_eq_change (Machine.settingVariable_atomic name value)]
  have hresult := m.setVariable_eq name value
  rw [hf, Machine.setVariable] at hresult
  exact recoversAt_change (hresult ▸ recoverable_ok _)

theorem recoversAt_declareGlobal (name : Symbol) (h : m.frame?.isSome) :
    (declareGlobal name).RecoversAt m :=
  recoversAt_modifyFrame (m := m.seedGlobal name) h

end Action

theorem Stack.Coherent.newCard_recoverable {s : Stack} (hs : s.Coherent) : Recoverable s.newCard :=
  s.newCard_recoverable (isSome_card?.2 hs.current_mem)

/-- Where the first stacks are coherent and statements are carried out in a frame, no action ends in
a defect. -/
def sound (count : Nat) : Law where
  reach n := n < count
  stack := Stack.Coherent
  declarable _ := True
  globals _ := True
  framed := True
  stack_leads hs h := (hs.leads h).1
  globals_set _ _ _ := trivial
  Fair x m := x.RecoversAt m
  fair_routine _ hx := hx.recovers _
  fair_bind hx hf := hx.bind hf
  fair_noting hnote hx := hx.noting hnote
  fair_andThen _ hx := hx.andThen
  fair_assign name value hm := Action.recoversAt_setVariable name value (hm.entered rfl trivial)
  fair_declare hm _ := Action.recoversAt_declareGlobal _ (hm.entered rfl trivial)
  fair_effect _ hm := Action.recoversAt_modifyFrame (hm.entered rfl trivial)
  fair_newCard hm hn := Action.recoversAt_editStack (hm.everyStack _ hn).newCard_recoverable

/-! ## Requests -/

/-- What is asked for from outside any script. -/
inductive Request where
  /-- A message to a part of a stack, by default its current card. -/
  | send (stack : Nat) (target : Option Specifier) (message : String) (args : List Value)
  /-- Loose statements on a stack, or on whichever has the focus. -/
  | eval (stack : Option Nat) (statements : List Statement)

/-- A request that names only stacks among `R`. -/
def Request.Within (R : Nat → Prop) : Request → Prop
  | .send stack target _ _ => R stack ∧ ∀ spec ∈ target, spec.Within R
  | .eval stack _ => ∀ n ∈ stack, R n

/-- A request with the draws and the time it meets with, and the fuel it is given. -/
structure Visit where
  request : Request
  fuel : Nat := ample
  draws : Draws := {}
  clock : Clock := {}

namespace World

def answer (w : World) (v : Visit) : Outcome :=
  let w := { w with draws := v.draws, clock := v.clock }
  match v.request with
  | .send stack target message args => w.send v.fuel stack target message args
  | .eval stack statements => w.eval v.fuel stack statements

/-- The answers to requests, each in the world that the one before it left behind. -/
def answers (w : World) : List Visit → List (Except Halt Value)
  | [] => []
  | v :: rest => (w.answer v).1 :: (w.answer v).2.answers rest

/-- A world of these stacks, some of them opened on the desktop one after another. -/
def opening (settings : Settings) (allStacks : List Stack) (opened : List Nat) : World :=
  opened.foldl openStack { start settings with allStacks := allStacks }

/-- The first stacks are coherent, and there are no others on the desktop. -/
structure Fit (count : Nat) (w : World) : Prop where
  desktop : w.desktop.Within (· < count)
  coherent : ∀ n < count, (w.stack n).Coherent

namespace Fit

variable {count : Nat} {w : World}

theorem openStack (h : w.Fit count) (hn : n < count) : (w.openStack n).Fit count :=
  ⟨h.desktop.openStack hn _, h.coherent⟩

theorem admits (h : w.Fit count) {stack : Option Nat} (hstack : ∀ n ∈ stack, n < count) :
    (sound count).Admits .outside { world := w, context := { stack } } where
  within := ⟨h.desktop, hstack, nofun, nofun⟩
  everyStack := h.coherent
  scripts _ _ := .of_forall fun _ _ _ => trivial
  scopes := nofun
  globals := trivial
  entered := nofun

/-- A run that obeys the law does not end in a defect, and leaves a fit world. -/
theorem run (h : w.Fit count) {stack : Option Nat} (hstack : ∀ n ∈ stack, n < count)
    {x : Action Value} (hx : (sound count).Obeys .outside x) :
    (w.run stack x).2.Fit count ∧
      ∀ error, (w.run stack x).1 = .error (.failed error) → error.failure.isInternal = false := by
  have hgood := hx _ (h.admits hstack)
  rw [run_eq]
  refine ⟨⟨hgood.admits.desktop, hgood.admits.everyStack⟩, fun error herror => ?_⟩
  dsimp only [Action.outcome] at herror
  split at herror
  next => cases herror
  next halt m' hm =>
    cases herror
    exact hgood.fair error m' hm

theorem answer (h : w.Fit count) {v : Visit} (hv : v.request.Within (· < count)) :
    (w.answer v).2.Fit count ∧
      ∀ error, (w.answer v).1 = .error (.failed error) → error.failure.isInternal = false := by
  have hw : Fit count { w with draws := v.draws, clock := v.clock } := ⟨h.desktop, h.coherent⟩
  unfold World.answer
  cases hrequest : v.request with
  | send stack target message args =>
    rw [hrequest] at hv
    have hstack : ∀ n ∈ some stack, n < count := by
      rintro n ⟨⟩
      exact hv.1
    simp only [World.send_eq]
    exact hw.run hstack (messageRun_obeys hv.2)
  | eval stack statements =>
    rw [hrequest] at hv
    exact hw.run hv (runStatements_obeys fun _ _ => trivial)

theorem answers (h : w.Fit count) {visits : List Visit}
    (hvisits : ∀ v ∈ visits, v.request.Within (· < count)) :
    ∀ error, .error (.failed error) ∈ w.answers visits → error.failure.isInternal = false := by
  induction visits generalizing w with
  | nil => exact nofun
  | cons v rest ih =>
    intro error herror
    obtain ⟨hnext, hanswer⟩ := h.answer (hvisits v List.mem_cons_self)
    rcases List.mem_cons.1 herror with herror | herror
    · exact hanswer error herror.symm
    · exact ih hnext (fun v hv => hvisits v (List.mem_cons_of_mem _ hv)) error herror

end Fit

/-- Stacks that were opened from snapshots make a fit world. -/
theorem fit_opening (settings : Settings) {allStacks : List Stack}
    (hstacks : ∀ s ∈ allStacks, ∃ snapshot : StackSnapshot, snapshot.toStack = .ok s)
    {opened : List Nat} (hopened : ∀ n ∈ opened, n < allStacks.length) :
    (opening settings allStacks opened).Fit allStacks.length := by
  have hstart : Fit allStacks.length { start settings with allStacks := allStacks } := by
    refine ⟨⟨nofun, nofun, nofun⟩, fun n hn => ?_⟩
    obtain ⟨snapshot, hsnapshot⟩ := hstacks allStacks[n] (List.getElem_mem hn)
    have hget : stack { start settings with allStacks := allStacks } n = allStacks[n] := by
      simp [stack, hn]
    rw [hget]
    exact StackSnapshot.toStack_coherent hsnapshot
  unfold opening
  generalize ({ start settings with allStacks := allStacks } : World) = w at hstart
  induction opened generalizing w with
  | nil => exact hstart
  | cons n rest ih =>
    have hn := hopened n List.mem_cons_self
    exact ih (fun k hk => hopened k (List.mem_cons_of_mem _ hk)) (w.openStack n)
      (hstart.openStack hn)

/-- **No request ends in a defect.** Whatever messages are sent to the stacks of a desktop and
whatever statements are carried out there, one after another and under any settings, every failure
is one that a script can bring about. -/
theorem answers_recoverable (settings : Settings) {allStacks : List Stack}
    (hstacks : ∀ s ∈ allStacks, ∃ snapshot : StackSnapshot, snapshot.toStack = .ok s)
    {opened : List Nat} (hopened : ∀ n ∈ opened, n < allStacks.length) {visits : List Visit}
    (hvisits : ∀ v ∈ visits, v.request.Within (· < allStacks.length)) :
    ∀ error, .error (.failed error) ∈ (opening settings allStacks opened).answers visits →
      error.failure.isInternal = false ∧
        error.failure.code ∈ ["E101", "E102", "E103", "E104", "E105"] := by
  intro error herror
  have hinternal := (fit_opening settings hstacks hopened).answers hvisits error herror
  refine ⟨hinternal, ?_⟩
  cases hfailure : error.failure with
  | internal defect =>
    rw [hfailure] at hinternal
    cases hinternal
  | _ => simp [Failure.code]

/-- A card is made and removed again on a desktop with one stack of two cards, and a message that
nobody knows fails. -/
theorem answers_recoverable_twoCards :
    let visits : List Visit :=
      [{ request := .eval none [.mk {} .newCard, .mk {} (.deleteCard none)] },
        { request := .send 0 none "greet" [] }]
    ∃ (s : Stack) (error : ScriptError), StackSnapshot.twoCards.toStack = .ok s ∧
      .error (.failed error) ∈ (opening {} [s] [0]).answers visits ∧
      error.failure.isInternal = false := by
  intro visits
  obtain ⟨s, hs, hfails⟩ : ∃ s : Stack, StackSnapshot.twoCards.toStack = .ok s ∧
      ((opening {} [s] [0]).answers visits).any (fun answer =>
        match answer with
        | .error (.failed _) => true
        | _ => false) = true :=
    ⟨_, rfl, by decide +kernel⟩
  have hstacks : ∀ t ∈ [s], ∃ snapshot : StackSnapshot, snapshot.toStack = .ok t := by
    intro t ht
    exact ⟨.twoCards, List.mem_singleton.1 ht ▸ hs⟩
  have hvisits : ∀ v ∈ visits, v.request.Within (· < [s].length) := by
    simp [visits, Request.Within]
  obtain ⟨answer, hanswer, hfailed⟩ := List.any_eq_true.1 hfails
  split at hfailed
  next error =>
    have hrecoverable := answers_recoverable {} hstacks (by simp) hvisits error hanswer
    exact ⟨s, error, hs, hanswer, hrecoverable.1⟩
  next => cases hfailed

end World

end CardScript
