import CardScript.Proofs.Script.Delivery

/-!
# Passing a message on

A message that every handler passes on goes from its target up to the stack as long as the way is
open: after each handler the next card has to be there still (`Stack.WayOpen`). Then the script of
the stack settles what becomes of the message; otherwise it is lost, without a word or with a
failure that names the card (`pass_reaches_stack`). A handler closes the way by removing its own
card before it passes the message (`pass_lost_with_card`).
-/

namespace CardScript

/-! ## Open ways -/

namespace Stack

variable {s : Stack} {f g : Found}

/-- The next component on the way of a message is there: above a part the card on which it lies or
through which it is seen, and above a card the background, as long as the card is there. -/
def WayOpen (s : Stack) (f : Found) : Prop :=
  match f.part with
  | .part _ .card id => ∃ p, s.part? id = some p ∧ (s.card? p.owner).isSome
  | .part _ .background _ => (s.card? (f.card.getD s.currentCard)).isSome
  | .card id => (s.card? id).isSome
  | .background _ | .stack => True

theorem scriptOf_of_gone {r : PartRef} (h : ¬(s.scriptOf r).isOk) :
    s.scriptOf r = .error (gone r) := by
  simp only [scriptOf] at h ⊢
  split
  next heq =>
    rw [heq] at h
    exact absurd rfl h
  next => rfl

theorem isOk_scriptOf_card {id : PartId} :
    (s.scriptOf (.card id)).isOk ↔ (s.card? id).isSome := by
  simp only [scriptOf]
  cases s.card? id with
  | some c => exact ⟨fun _ => rfl, fun _ => rfl⟩
  | none =>
    constructor
    · intro h
      cases h
    · intro h
      cases h

theorem Orderly.isOk_scriptOf_background (hs : s.Orderly) {id : PartId} {c : Card}
    (hc : s.card? id = some c) : (s.scriptOf (.background c.background)).isOk := by
  obtain ⟨b, hb, hid⟩ := hs.background_mem c (card?_eq_some hc).1
  simp only [scriptOf, ← hid, hs.background?_eq hb, Option.map_some]
  rfl

/-- The way is open if the next component is found and has a script. -/
theorem Orderly.wayOpen_iff (hs : s.Orderly) (hne : f.part ≠ .stack) :
    s.WayOpen f ↔ ∃ g, s.parent? f = some g ∧ (s.scriptOf g.part).isOk := by
  obtain ⟨part, context⟩ := f
  cases part with
  | stack => exact absurd rfl hne
  | background id => exact ⟨fun _ => ⟨_, rfl, rfl⟩, fun _ => trivial⟩
  | card id =>
    simp only [WayOpen, parent?]
    cases hc : s.card? id with
    | none => simp
    | some c => simpa using hs.isOk_scriptOf_background hc
  | part kind layer id =>
    cases layer with
    | card =>
      simp only [WayOpen, parent?, Option.map_eq_some_iff]
      constructor
      · rintro ⟨p, hp, hcard⟩
        exact ⟨_, ⟨p, hp, rfl⟩, isOk_scriptOf_card.2 hcard⟩
      · rintro ⟨_, ⟨p, hp, rfl⟩, hok⟩
        exact ⟨p, hp, isOk_scriptOf_card.1 hok⟩
    | background =>
      simp only [WayOpen, parent?, Option.some.injEq, exists_eq_left']
      exact isOk_scriptOf_card.symm

/-- A component that is there has one above it, even if that is gone. -/
theorem exists_parent? (hok : (s.scriptOf f.part).isOk) (hne : f.part ≠ .stack) :
    ∃ g, s.parent? f = some g := by
  obtain ⟨part, context⟩ := f
  cases part with
  | stack => exact absurd rfl hne
  | background id => exact ⟨_, rfl⟩
  | card id =>
    obtain ⟨c, hc⟩ := Option.isSome_iff_exists.1 (isOk_scriptOf_card.1 hok)
    simp only [parent?, hc]
    exact ⟨_, rfl⟩
  | part kind layer id =>
    cases layer with
    | background => exact ⟨_, rfl⟩
    | card =>
      simp only [scriptOf, parent?] at hok ⊢
      cases hp : s.part? id with
      | some p => exact ⟨_, rfl⟩
      | none =>
        rw [hp] at hok
        cases hok

/-- Of the components that come next, only a card can be gone. -/
theorem Orderly.parent?_gone (hs : s.Orderly) (hparent : s.parent? f = some g)
    (hgone : ¬(s.scriptOf g.part).isOk) : ∃ id, g.part = .card id := by
  obtain ⟨part, context⟩ := f
  cases part with
  | stack => cases hparent
  | background id =>
    cases hparent
    exact absurd rfl hgone
  | card id =>
    obtain ⟨c, hc, rfl⟩ := Option.map_eq_some_iff.1 hparent
    exact absurd (hs.isOk_scriptOf_background hc) hgone
  | part kind layer id =>
    cases layer with
    | card =>
      obtain ⟨p, -, rfl⟩ := Option.map_eq_some_iff.1 hparent
      exact ⟨_, rfl⟩
    | background =>
      cases hparent
      exact ⟨_, rfl⟩

end Stack

/-! ## Consultations along the way -/

namespace Consultation

section

variable (invoke : Invoke) (message : String) (args : List Value)

/-- The machine once the handler of the part has run, if it has one. -/
def after (c : Consultation) : Machine :=
  match c.search message with
  | .ok (some handler) => (invoke c.part handler args).after c.machine
  | _ => c.machine

/-- The handler of the part, if it has one, ends by passing the message on. -/
def Passes (c : Consultation) : Prop :=
  ∀ handler, c.search message = .ok (some handler) →
    ∃ m, invoke c.part handler args c.machine = .ok .pass m

/-- The way on from the part is open once its handler has run. -/
def WayOpen (c : Consultation) : Prop :=
  ((c.after invoke message args).world.stack c.part.stack).WayOpen c.part.found

end

variable {invoke : Invoke} {message : String} {args : List Value} {passed passed' : Bool}
  {c c' : Consultation} {m : Machine} {handler : Handler}

theorem after_of_none (h : c.search message = .ok none) :
    c.after invoke message args = c.machine := by
  rw [after, h]

theorem after_of_run (h : c.search message = .ok (some handler))
    (hrun : invoke c.part handler args c.machine = .ok flow m) :
    c.after invoke message args = m := by
  simp only [after, h, Action.after, hrun]

/-- Handlers change stacks step by step. -/
theorem leads_after (hinvoke : invoke.Follows) (message : String) (args : List Value)
    (c : Consultation) (number : Nat) :
    (c.machine.world.stack number).Leads
      ((c.after invoke message args).world.stack number) := by
  unfold after
  split
  next handler _ => exact (hinvoke c.part handler args c.machine).leads number
  next => exact .refl

theorem LeadsOn.parent (h : c.LeadsOn invoke message args passed passed' c') :
    c'.machine = c.after invoke message args ∧ c'.machine.world.parent? c.part = some c'.part := by
  cases h with
  | unhandled hsearch hparent => exact ⟨(after_of_none hsearch).symm, hparent⟩
  | handedOn hsearch hrun hparent => exact ⟨(after_of_run hsearch hrun).symm, hparent⟩

theorem search_of_gone (message : String) (h : ¬(c.machine.world.scriptOf c.part).isOk) :
    c.search message = .error (.noSuchPart c.part.found.part.idForm) := by
  have hscript : c.machine.world.scriptOf c.part = .error (Stack.gone c.part.found.part) :=
    Stack.scriptOf_of_gone h
  rw [search, hscript]
  rfl

/-- The script of the stack is searched, whatever has been done to its cards. -/
theorem search_stack (h : c.part.found.part = .stack) :
    c.search message =
      .ok ((c.machine.world.stack c.part.stack).script.handler? message false) := by
  rw [search, World.scriptOf, h]
  rfl

end Consultation

/-! ## Heard or lost -/

section

variable (invoke : Invoke) (message : String) (args : List Value)

/-- The script of the stack is consulted in the end, and what becomes of the message is settled
there. -/
def HeardByStack (number : Nat) (script : Script) (way : List Consultation)
    (r : EStateM.Result Halt Machine Flow) : Prop :=
  ∃ c ∈ way, c.part.found.part = .stack ∧ c.part.stack = number ∧
    c.search message = .ok (script.handler? message false) ∧
    ∃ passed, c.Ends invoke message args passed r

/-- The message never comes to the stack. Either nothing is said, or a card is missed. -/
structure LostOnTheWay (way : List Consultation) (r : EStateM.Result Halt Machine Flow) :
    Prop where
  unheard : ∀ c ∈ way, c.part.found.part ≠ .stack
  result : (∃ m, r = .ok .normal m) ∨
    ∃ id m, r = .error (.failed { failure := .noSuchPart (PartRef.card id).idForm }) m

end

namespace Trail

variable {invoke : Invoke} {message : String} {args : List Value} {passed : Bool}
  {c : Consultation} {rest : List Consultation} {r : EStateM.Result Halt Machine Flow}
  {script : Script}

/-- The way ends at a part that is gone. -/
theorem of_gone (h : Trail invoke message args passed c rest r)
    (hgone : ¬(c.machine.world.scriptOf c.part).isOk) :
    rest = [] ∧
      r = .error (.failed { failure := .noSuchPart c.part.found.part.idForm }) c.machine := by
  have hsearch := Consultation.search_of_gone message hgone
  cases h with
  | last hends =>
    cases hends with
    | gone h =>
      cases hsearch.symm.trans h
      exact ⟨rfl, rfl⟩
    | unhandled h | handedOn h | taken h | failed h => cases hsearch.symm.trans h
  | next hleads =>
    cases hleads with
    | unhandled h | handedOn h => cases hsearch.symm.trans h

end Trail

namespace Consultation

variable {invoke : Invoke} {message : String} {args : List Value} {passed passed' : Bool}
  {c c' : Consultation} {r : EStateM.Result Halt Machine Flow}

theorem reachable_after (hinvoke : invoke.Follows) (message : String) (args : List Value)
    (hreachable : (c.machine.world.stack c.part.stack).Reachable) :
    ((c.after invoke message args).world.stack c.part.stack).Reachable :=
  hreachable.leads (leads_after hinvoke message args c c.part.stack)

/-- The last consultation, where the message is heard by the stack or the way is closed. -/
theorem Ends.heard_or_lost (hinvoke : invoke.Follows) (h : c.Ends invoke message args passed r)
    (hreachable : (c.machine.world.stack c.part.stack).Reachable)
    (hthere : (c.machine.world.scriptOf c.part).isOk)
    (hpass : c.part.found.part ≠ .stack → c.Passes invoke message args) :
    c.WayOpen invoke message args ∧ HeardByStack invoke message args c.part.stack
        (c.machine.world.stack c.part.stack).script [c] r ∨
      ¬c.WayOpen invoke message args ∧ LostOnTheWay [c] r := by
  by_cases hstack : c.part.found.part = .stack
  · refine .inl ⟨?_, c, List.mem_singleton_self c, hstack, rfl, search_stack hstack, passed, h⟩
    rw [WayOpen, Stack.WayOpen, hstack]
    trivial
  refine .inr ?_
  obtain ⟨g, hg⟩ := Stack.exists_parent? hthere hstack
  cases h with
  | gone hsearch =>
    rw [search] at hsearch
    cases hscript : c.machine.world.scriptOf c.part with
    | ok script =>
      rw [hscript] at hsearch
      cases hsearch
    | error f =>
      rw [hscript] at hthere
      cases hthere
  | unhandled hsearch hparent =>
    rw [World.parent?, hg] at hparent
    cases hparent
  | @handedOn handler m passed _ hsearch hrun hparent =>
    have hafter := after_of_run hsearch hrun
    refine ⟨fun hopen => ?_, fun c' hc' => List.mem_singleton.1 hc' ▸ hstack, .inl ⟨m, rfl⟩⟩
    have horderly := (reachable_after hinvoke message args hreachable).coherent.toOrderly
    obtain ⟨g, hg, -⟩ := (horderly.wayOpen_iff hstack).1 hopen
    rw [hafter] at hg
    rw [World.parent?, hg] at hparent
    cases hparent
  | taken hsearch hrun hne =>
    obtain ⟨m, hm⟩ := hpass hstack _ hsearch
    cases hrun.symm.trans hm
    exact absurd rfl hne
  | failed hsearch hrun =>
    obtain ⟨m, hm⟩ := hpass hstack _ hsearch
    cases hrun.symm.trans hm

theorem LeadsOn.ne_stack (h : c.LeadsOn invoke message args passed passed' c') :
    c.part.found.part ≠ .stack := by
  intro hstack
  obtain ⟨-, hparent⟩ := h.parent
  obtain ⟨g, hg, -⟩ := Option.map_eq_some_iff.1 hparent
  rw [Stack.parent?, hstack] at hg
  cases hg

/-- The way on was open if the next part is there. -/
theorem LeadsOn.wayOpen_iff (hinvoke : invoke.Follows)
    (h : c.LeadsOn invoke message args passed passed' c')
    (hreachable : (c.machine.world.stack c.part.stack).Reachable) :
    c.WayOpen invoke message args ↔ (c'.machine.world.scriptOf c'.part).isOk := by
  obtain ⟨hmachine, hparent⟩ := h.parent
  obtain ⟨g, hg, hnext⟩ := Option.map_eq_some_iff.1 hparent
  have horderly := (reachable_after hinvoke message args hreachable).coherent.toOrderly
  rw [WayOpen, horderly.wayOpen_iff h.ne_stack, ← hmachine, hg, ← hnext]
  constructor
  · rintro ⟨_, ⟨⟩, hok⟩
    exact hok
  · intro hok
    exact ⟨g, rfl, hok⟩

end Consultation

/-- Where all handlers below the stack pass the message on, it is heard by the stack if the way
stays open, and lost if not. -/
theorem Trail.heard_or_lost {invoke : Invoke} (hinvoke : invoke.Follows)
    (h : Trail invoke message args passed c rest r)
    (hreachable : (c.machine.world.stack c.part.stack).Reachable)
    (hthere : (c.machine.world.scriptOf c.part).isOk)
    (hpass : ∀ c' ∈ c :: rest, c'.part.found.part ≠ .stack → c'.Passes invoke message args) :
    (∀ c' ∈ c :: rest, c'.WayOpen invoke message args) ∧
      HeardByStack invoke message args c.part.stack
        (c.machine.world.stack c.part.stack).script (c :: rest) r ∨
    (∃ c' ∈ c :: rest, ¬c'.WayOpen invoke message args) ∧ LostOnTheWay (c :: rest) r := by
  -- the induction follows the trail; each part is there when it is consulted, or it is the last
  induction h with
  | last hends =>
    rcases hends.heard_or_lost hinvoke hreachable hthere (hpass _ List.mem_cons_self) with
      ⟨hopen, hheard⟩ | ⟨hclosed, hlost⟩
    · exact .inl ⟨fun c' hc' => List.mem_singleton.1 hc' ▸ hopen, hheard⟩
    · exact .inr ⟨⟨_, List.mem_cons_self, hclosed⟩, hlost⟩
  | @next passed passed' c' rest r c hleads htrail ih =>
    obtain ⟨hmachine, hparent⟩ := hleads.parent
    obtain ⟨g, hg, hnext⟩ := Option.map_eq_some_iff.1 hparent
    have hstack : c'.part.stack = c.part.stack := by rw [← hnext]
    have hafter := Consultation.reachable_after hinvoke message args hreachable
    have hscript := (Consultation.leads_after hinvoke message args c c.part.stack).script_eq
    rw [← hmachine, ← hstack] at hafter
    rw [← hmachine] at hscript
    have hopen := hleads.wayOpen_iff hinvoke hreachable
    by_cases hthere' : (c'.machine.world.scriptOf c'.part).isOk
    · rcases ih hafter hthere' fun d hd => hpass d (List.mem_cons_of_mem c hd) with
        ⟨hways, d, hd, hheard⟩ | ⟨⟨d, hd, hclosed⟩, hlost⟩
      · rw [hstack, hscript] at hheard
        exact .inl ⟨List.forall_mem_cons.2 ⟨hopen.2 hthere', hways⟩,
          d, List.mem_cons_of_mem c hd, hheard⟩
      · exact .inr ⟨⟨d, List.mem_cons_of_mem c hd, hclosed⟩,
          List.forall_mem_cons.2 ⟨hleads.ne_stack, hlost.unheard⟩, hlost.result⟩
    · obtain ⟨rfl, rfl⟩ := htrail.of_gone hthere'
      obtain ⟨id, hid⟩ : ∃ id, c'.part.found.part = .card id := by
        rw [hstack] at hafter
        rw [← hnext] at hthere' ⊢
        exact hafter.coherent.toOrderly.parent?_gone hg hthere'
      refine .inr ⟨⟨c, List.mem_cons_self, fun h => hthere' (hopen.1 h)⟩, ?_, ?_⟩
      · exact List.forall_mem_cons.2 ⟨hleads.ne_stack, by simp [hid]⟩
      · exact .inr ⟨id, _, by rw [hid]⟩

/-! ## Messages that are sent -/

theorem send_apply (invoke : Invoke) (target : Handle) (message : String) (args : List Value)
    (m : Machine) :
    send invoke target message args m =
      Action.onMachine (·.withTarget m.context.target)
        (deliver invoke message args maxStations false target (m.withTarget (some target))) := by
  show ((deliver invoke message args maxStations false target).andThen fun m' =>
    m'.withTarget m.context.target) (m.withTarget (some target)) = _
  unfold Action.andThen
  cases deliver invoke message args maxStations false target (m.withTarget (some target)) with
  | ok | error => rfl

/-- **Passing a message on.** A message is sent to a part that is there, and every handler below the
stack that runs for it ends by passing it on, whatever else it does. As long as the way is open
after each of them, the handler that the script of the stack has for the message is run in the end,
and what becomes of the message is settled there. Otherwise the message never comes to the stack. -/
theorem pass_reaches_stack (fuel : Nat) (message : String) (args : List Value) {target : Handle}
    {m : Machine} (hreachable : (m.world.stack target.stack).Reachable)
    (hthere : (m.world.scriptOf target).isOk) :
    let first : Consultation := ⟨target, m.withTarget (some target)⟩
    (∃ rest r, Trail (invoke fuel) message args false first rest r) ∧
    ∀ rest r, Trail (invoke fuel) message args false first rest r →
      (∀ c ∈ first :: rest, c.part.found.part ≠ .stack → c.Passes (invoke fuel) message args) →
      send (invoke fuel) target message args m =
        Action.onMachine (·.withTarget m.context.target) r ∧
      ((∀ c ∈ first :: rest, c.WayOpen (invoke fuel) message args) →
        HeardByStack (invoke fuel) message args target.stack (m.world.stack target.stack).script
          (first :: rest) r ∧
        ∀ c ∈ first :: rest, ∀ handler, c.search message = .ok (some handler) →
          handler.RunsFor fuel c.part args c.machine) ∧
      ((∃ c ∈ first :: rest, ¬c.WayOpen (invoke fuel) message args) →
        LostOnTheWay (first :: rest) r) := by
  intro first
  refine ⟨exists_trail _ _ _ target.height_lt, fun rest r htrail hpass => ?_⟩
  have hdeliver : deliver (invoke fuel) message args maxStations false target
      (m.withTarget (some target)) = r := htrail.deliver_eq target.height_lt
  have hruns : ∀ c ∈ first :: rest, ∀ handler, c.search message = .ok (some handler) →
      handler.RunsFor fuel c.part args c.machine :=
    fun c _ handler _ => handler.runsFor fuel c.part args c.machine
  refine ⟨by rw [send_apply, hdeliver], ?_⟩
  rcases htrail.heard_or_lost (invoke_follows fuel) hreachable hthere hpass with
    ⟨hopen, hheard⟩ | ⟨⟨c, hc, hclosed⟩, hlost⟩
  · refine ⟨fun _ => ⟨hheard, hruns⟩, ?_⟩
    rintro ⟨c, hc, hclosed⟩
    exact absurd (hopen c hc) hclosed
  · exact ⟨fun hopen => absurd (hopen c hc) hclosed, fun _ => hlost⟩

/-- Two cards in a stack that remembers a message, and a handler for it on the first card. -/
def StackSnapshot.greeting (body : List Statement) : StackSnapshot where
  script := { handlers := [
    { name := ⟨"greet"⟩
      body := [
        .mk {} (.global [⟨"mark"⟩]),
        .mk {} (.put (.literal "reached" true) .into (.var ⟨"mark"⟩ none))] }] }
  cards := [{ script := { handlers := [{ name := ⟨"greet"⟩, body }] } }, {}]

/-- The message was passed on, and the machine that was left passes a test. -/
def passedOn (test : Machine → Bool) : EStateM.Result Halt Machine Flow → Bool
  | .ok .pass m => test m
  | _ => false

theorem exists_of_passedOn {test : Machine → Bool} {r : EStateM.Result Halt Machine Flow}
    (h : passedOn test r) : ∃ m, r = .ok .pass m ∧ test m := by
  unfold passedOn at h
  split at h
  next m => exact ⟨m, rfl, h⟩
  next => cases h

/-- The handler of the card makes another card, which becomes the current one, and passes the
message on, so that the stack hears it. -/
theorem pass_reaches_stack_greeting :
    ∃ s : Stack, (StackSnapshot.greeting [.mk {} .newCard, .mk {} .pass]).toStack = .ok s ∧
      let m : Machine := { world := { allStacks := [s] }, context := { stack := some 0 } }
      let first : Consultation := ⟨.ofCard 0 101, m.withTarget (some (.ofCard 0 101))⟩
      ∃ rest r, HeardByStack (invoke 8) "greet" [] 0 s.script (first :: rest) r ∧
        send (invoke 8) (.ofCard 0 101) "greet" [] m =
          Action.onMachine (·.withTarget none) r := by
  let background : Handle := ⟨0, ⟨.background 100, some 101⟩⟩
  obtain ⟨s, hs, hthere, handler, hsearch, htest⟩ :
      ∃ s : Stack, (StackSnapshot.greeting [.mk {} .newCard, .mk {} .pass]).toStack = .ok s ∧
        let m : Machine := { world := { allStacks := [s] }, context := { stack := some 0 } }
        let first : Consultation := ⟨.ofCard 0 101, m.withTarget (some (.ofCard 0 101))⟩
        (m.world.scriptOf first.part).isOk ∧
        ∃ handler, first.search "greet" = .ok (some handler) ∧
          passedOn (fun m₁ => m₁.world.parent? first.part == some background &&
              ((m₁.world.stack 0).card? 101).isSome &&
              (Consultation.search "greet" ⟨background, m₁⟩).toOption.any (·.isNone))
            (invoke 8 first.part handler [] first.machine) :=
    ⟨_, rfl, rfl, _, rfl, by decide +kernel⟩
  let m : Machine := { world := { allStacks := [s] }, context := { stack := some 0 } }
  let first : Consultation := ⟨.ofCard 0 101, m.withTarget (some (.ofCard 0 101))⟩
  have hreachable : (m.world.stack 0).Reachable := ⟨_, s, hs, .refl⟩
  obtain ⟨m₁, hrun, htest⟩ := exists_of_passedOn htest
  simp only [Bool.and_eq_true, beq_iff_eq] at htest
  obtain ⟨⟨hparent, hcard⟩, hsilent⟩ := htest
  have hnone : Consultation.search "greet" ⟨background, m₁⟩ = .ok none := by
    cases hsearch : Consultation.search "greet" ⟨background, m₁⟩ with
    | error f =>
      rw [hsearch] at hsilent
      cases hsilent
    | ok handler? =>
      cases handler? with
      | none => rfl
      | some handler =>
        rw [hsearch] at hsilent
        cases hsilent
  let second : Consultation := ⟨background, m₁⟩
  let third : Consultation := ⟨.ofStack 0, m₁⟩
  obtain ⟨r, hends⟩ | ⟨_, _, hleads⟩ := third.ends_or_leadsOn (invoke 8) "greet" [] true
  · have htrail : Trail (invoke 8) "greet" [] false first [second, third] r :=
      .next (.handedOn hsearch hrun hparent) (.next (.unhandled hnone rfl) (.last hends))
    have hpass : ∀ c ∈ [first, second, third], c.part.found.part ≠ .stack →
        c.Passes (invoke 8) "greet" [] := by
      simp only [List.forall_mem_cons, List.not_mem_nil, false_implies, implies_true, and_true]
      refine ⟨fun _ handler' hsearch' => ?_, fun _ handler' hsearch' => ?_,
        fun hstack => absurd rfl hstack⟩
      · cases hsearch.symm.trans hsearch'
        exact ⟨m₁, hrun⟩
      · cases hnone.symm.trans hsearch'
    have hopen : ∀ c ∈ [first, second, third], c.WayOpen (invoke 8) "greet" [] := by
      simp only [List.forall_mem_cons, List.not_mem_nil, false_implies, implies_true, and_true]
      refine ⟨?_, trivial, trivial⟩
      rw [Consultation.WayOpen, Consultation.after_of_run hsearch hrun]
      exact hcard
    obtain ⟨-, hways⟩ := pass_reaches_stack 8 "greet" [] hreachable hthere
    obtain ⟨hsend, hheard, -⟩ := hways _ _ htrail hpass
    exact ⟨s, hs, _, r, (hheard hopen).1, hsend⟩
  · exact absurd rfl hleads.ne_stack

/-- The handler of the card removes the card and passes the message on. Nothing is said, and the
stack, which has a handler, never hears of it. -/
theorem pass_lost_with_card :
    ∃ s : Stack,
      (StackSnapshot.greeting [.mk {} (.deleteCard none), .mk {} .pass]).toStack = .ok s ∧
      let m : Machine := { world := { allStacks := [s] }, context := { stack := some 0 } }
      let first : Consultation := ⟨.ofCard 0 101, m.withTarget (some (.ofCard 0 101))⟩
      (m.world.scriptOf first.part).isOk ∧ first.Passes (invoke 8) "greet" [] ∧
      (s.script.handler? "greet" false).isSome ∧
      ∃ m', Trail (invoke 8) "greet" [] false first [] (.ok .normal m') ∧
        (m'.world.globals.get? ⟨"mark"⟩).isNone := by
  obtain ⟨s, hs, hthere, hstack, handler, hsearch, htest⟩ :
      ∃ s : Stack,
        (StackSnapshot.greeting [.mk {} (.deleteCard none), .mk {} .pass]).toStack = .ok s ∧
        let m : Machine := { world := { allStacks := [s] }, context := { stack := some 0 } }
        let first : Consultation := ⟨.ofCard 0 101, m.withTarget (some (.ofCard 0 101))⟩
        (m.world.scriptOf first.part).isOk ∧ (s.script.handler? "greet" false).isSome ∧
        ∃ handler, first.search "greet" = .ok (some handler) ∧
          passedOn (fun m' => (m'.world.parent? first.part).isNone &&
              (m'.world.globals.get? ⟨"mark"⟩).isNone)
            (invoke 8 first.part handler [] first.machine) :=
    ⟨_, rfl, rfl, rfl, _, rfl, by decide +kernel⟩
  obtain ⟨m', hrun, htest⟩ := exists_of_passedOn htest
  obtain ⟨hparent, hmark⟩ := Bool.and_eq_true_iff.1 htest
  refine ⟨s, hs, hthere, fun handler' hsearch' => ?_, hstack, m',
    .last (.handedOn hsearch hrun (Option.isNone_iff_eq_none.1 hparent)), hmark⟩
  cases hsearch.symm.trans hsearch'
  exact ⟨m', hrun⟩

end CardScript
