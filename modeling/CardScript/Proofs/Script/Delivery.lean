import CardScript.Proofs.Part.Resolution
import CardScript.Proofs.Script.ErrorPlaces
import CardScript.Proofs.Script.Termination

/-!
# The way of a message

On its way a message comes to one script after another (`Trail`). Each next one is looked up as
things stand then, so a handler may change what lies ahead; but it lies nearer to the stack than the
last one (`Consultation.LeadsOn.rank_lt`), so whatever handlers do there are at most four. Where a
stack holds the target, all components above it are there, and a message that none of their scripts
handles comes to the end of the way with nothing changed (`Unheard.of_holds`).
-/

namespace CardScript

/-! ## Ranks -/

/-- The order in which components come on the way of a message. -/
def PartRef.rank : PartRef → Nat
  | .part .. => 0
  | .card _ => 1
  | .background _ => 2
  | .stack => 3

def Handle.rank (h : Handle) : Nat :=
  h.found.part.rank

theorem Handle.rank_add_height (h : Handle) : h.rank + h.height = 3 := by
  unfold rank height
  cases h.found.part <;> rfl

/-! ## Scripts that are consulted -/

/-- A value that a handler gives back becomes the result. -/
def Flow.settle : Flow → Machine → Machine
  | .returned value, m => { m with context := { m.context with result := value } }
  | _, m => m

/-- A part whose script is searched for a handler, and the machine at that time. -/
structure Consultation where
  part : Handle
  machine : Machine

namespace Consultation

/-- What the search comes to: the part may be gone, or have no handler. -/
def search (message : String) (c : Consultation) : Except Failure (Option Handler) :=
  (c.machine.world.scriptOf c.part).map (·.handler? message false)

section

variable (invoke : Invoke) (message : String) (args : List Value)

/-- After a part without a handler, or one whose handler passes the message on, comes its parent as
things stand then. -/
inductive LeadsOn : Bool → Consultation → Bool → Consultation → Prop
  | unhandled {c : Consultation} : c.search message = .ok none →
    c.machine.world.parent? c.part = some next → LeadsOn passed c passed ⟨next, c.machine⟩
  | handedOn {c : Consultation} : c.search message = .ok (some handler) →
    invoke c.part handler args c.machine = .ok .pass m → m.world.parent? c.part = some next →
    LeadsOn passed c true ⟨next, m⟩

/-- The way ends at a part that is gone, at one without a parent, and at one whose handler takes
the message or fails. -/
inductive Ends : Bool → Consultation → EStateM.Result Halt Machine Flow → Prop
  | gone {c : Consultation} : c.search message = .error f →
    Ends passed c (.error (.failed { failure := f }) c.machine)
  | unhandled {c : Consultation} : c.search message = .ok none →
    c.machine.world.parent? c.part = none → Ends passed c (endOfWay message passed c.machine)
  | handedOn {c : Consultation} : c.search message = .ok (some handler) →
    invoke c.part handler args c.machine = .ok .pass m → m.world.parent? c.part = none →
    Ends passed c (endOfWay message true m)
  | taken {c : Consultation} : c.search message = .ok (some handler) →
    invoke c.part handler args c.machine = .ok flow m → flow ≠ .pass →
    Ends passed c (.ok flow.afterMessage (flow.settle m))
  | failed {c : Consultation} : c.search message = .ok (some handler) →
    invoke c.part handler args c.machine = .error halt m → Ends passed c (.error halt m)

end

variable {invoke : Invoke} {message : String} {args : List Value} {passed passed' : Bool}
  {c c' : Consultation}

/-- Every consultation ends the way or leads on. -/
theorem ends_or_leadsOn (invoke : Invoke) (message : String) (args : List Value) (passed : Bool)
    (c : Consultation) :
    (∃ r, c.Ends invoke message args passed r) ∨
      ∃ passed' c', c.LeadsOn invoke message args passed passed' c' := by
  cases hsearch : c.search message with
  | error f => exact .inl ⟨_, .gone hsearch⟩
  | ok handler? =>
    cases handler? with
    | none =>
      cases hparent : c.machine.world.parent? c.part with
      | none => exact .inl ⟨_, .unhandled hsearch hparent⟩
      | some next => exact .inr ⟨_, _, .unhandled hsearch hparent⟩
    | some handler =>
      cases hrun : invoke c.part handler args c.machine with
      | error halt m => exact .inl ⟨_, .failed hsearch hrun⟩
      | ok flow m =>
        by_cases hpass : flow = .pass
        · rw [hpass] at hrun
          cases hparent : m.world.parent? c.part with
          | none => exact .inl ⟨_, .handedOn hsearch hrun hparent⟩
          | some next => exact .inr ⟨_, _, .handedOn hsearch hrun hparent⟩
        · exact .inl ⟨_, .taken hsearch hrun hpass⟩

/-- Whatever handlers have done, fewer parts stand above the next one. -/
theorem LeadsOn.height_lt (h : c.LeadsOn invoke message args passed passed' c') :
    c'.part.height < c.part.height := by
  cases h with
  | unhandled _ hparent => exact World.height_parent? hparent
  | handedOn _ _ hparent => exact World.height_parent? hparent

theorem LeadsOn.rank_lt (h : c.LeadsOn invoke message args passed passed' c') :
    c.part.rank < c'.part.rank := by
  have hlt := h.height_lt
  have hrank := c.part.rank_add_height
  have hrank' := c'.part.rank_add_height
  omega

end Consultation

/-! ## Trails -/

/-- The consultations after the first one, and what the last one comes to. -/
inductive Trail (invoke : Invoke) (message : String) (args : List Value) :
    Bool → Consultation → List Consultation → EStateM.Result Halt Machine Flow → Prop
  | last {c : Consultation} : c.Ends invoke message args passed r →
    Trail invoke message args passed c [] r
  | next {c : Consultation} : c.LeadsOn invoke message args passed passed' c' →
    Trail invoke message args passed' c' rest r → Trail invoke message args passed c (c' :: rest) r

namespace Trail

variable {invoke : Invoke} {message : String} {args : List Value} {passed : Bool}
  {c : Consultation} {rest : List Consultation} {r : EStateM.Result Halt Machine Flow}

theorem rank_lt (h : Trail invoke message args passed c rest r) :
    (c :: rest).Pairwise fun c c' => c.part.rank < c'.part.rank := by
  induction h with
  | last => exact List.pairwise_singleton ..
  | next hleads _ ih =>
    have hlt := hleads.rank_lt
    refine List.pairwise_cons.2 ⟨fun c'' hc'' => ?_, ih⟩
    rcases List.mem_cons.1 hc'' with rfl | hc''
    · exact hlt
    · exact Nat.lt_trans hlt (List.rel_of_pairwise_cons ih hc'')

theorem length_le (h : Trail invoke message args passed c rest r) :
    c.part.rank + rest.length ≤ 3 := by
  induction h with
  | @last passed r c =>
    have hrank := c.part.rank_add_height
    simp only [List.length_nil]
    omega
  | next hleads _ ih =>
    have hlt := hleads.rank_lt
    simp only [List.length_cons]
    omega

end Trail

/-! ## Delivery -/

section

variable {invoke : Invoke} {message : String} {args : List Value} {passed : Bool}
  {c : Consultation} {stations : Nat}

/-- On to the parent of a part, or to the end of the way. -/
def goOn (invoke : Invoke) (message : String) (args : List Value) (stations : Nat)
    (passed : Bool) (h : Handle) : Action Flow := do
  match ← nextStation? h with
  | some next => deliver invoke message args stations passed next
  | none => endOfWay message passed

theorem goOn_of_parent {m : Machine} {h next : Handle} (hparent : m.world.parent? h = some next) :
    goOn invoke message args stations passed h m =
      deliver invoke message args stations passed next m := by
  have hnext : nextStation? h m = .ok (some next) m := congrArg (EStateM.Result.ok · m) hparent
  exact Action.bind_apply_ok hnext

theorem goOn_of_no_parent {m : Machine} {h : Handle} (hparent : m.world.parent? h = none) :
    goOn invoke message args stations passed h m = endOfWay message passed m := by
  have hnext : nextStation? h m = .ok none m := congrArg (EStateM.Result.ok · m) hparent
  exact Action.bind_apply_ok hnext

theorem handlerAt?_apply (message : String) (c : Consultation) :
    handlerAt? c.part message false c.machine =
      match c.search message with
      | .ok handler? => .ok handler? c.machine
      | .error f => .error (.failed { failure := f }) c.machine := by
  unfold Consultation.search
  cases hscript : c.machine.world.scriptOf c.part with
  | ok script =>
    exact Action.bind_apply_ok (Action.demand_of_ok hscript)
  | error f =>
    exact Action.bind_apply_error (Action.demand_of_error hscript)

theorem deliver_of_gone {f : Failure} (h : c.search message = .error f) :
    deliver invoke message args (stations + 1) passed c.part c.machine =
      .error (.failed { failure := f }) c.machine := by
  have hat := handlerAt?_apply message c
  rw [h] at hat
  exact Action.bind_apply_error hat

theorem deliver_of_unhandled (h : c.search message = .ok none) :
    deliver invoke message args (stations + 1) passed c.part c.machine =
      goOn invoke message args stations passed c.part c.machine := by
  have hat := handlerAt?_apply message c
  rw [h] at hat
  exact Action.bind_apply_ok hat

theorem deliver_of_handler {handler : Handler} (h : c.search message = .ok (some handler)) :
    deliver invoke message args (stations + 1) passed c.part c.machine =
      match invoke c.part handler args c.machine with
      | .ok .pass m => goOn invoke message args stations true c.part m
      | .ok flow m => .ok flow.afterMessage (flow.settle m)
      | .error halt m => .error halt m := by
  have hat := handlerAt?_apply message c
  rw [h] at hat
  refine (Action.bind_apply_ok hat).trans ?_
  cases hrun : invoke c.part handler args c.machine with
  | error halt m => exact Action.bind_apply_error hrun
  | ok flow m =>
    refine (Action.bind_apply_ok hrun).trans ?_
    cases flow <;> rfl

theorem Consultation.Ends.deliver_eq {r : EStateM.Result Halt Machine Flow}
    (h : c.Ends invoke message args passed r) :
    deliver invoke message args (stations + 1) passed c.part c.machine = r := by
  cases h with
  | gone hsearch => exact deliver_of_gone hsearch
  | unhandled hsearch hparent => rw [deliver_of_unhandled hsearch, goOn_of_no_parent hparent]
  | handedOn hsearch hrun hparent =>
    rw [deliver_of_handler hsearch, hrun]
    exact goOn_of_no_parent hparent
  | taken hsearch hrun hpass =>
    rw [deliver_of_handler hsearch, hrun]
    split
    next hflow =>
      cases hflow
      exact absurd rfl hpass
    next hflow =>
      cases hflow
      rfl
    next hflow => cases hflow
  | failed hsearch hrun => rw [deliver_of_handler hsearch, hrun]

theorem Consultation.LeadsOn.deliver_eq {c' : Consultation}
    (h : c.LeadsOn invoke message args passed passed' c') :
    deliver invoke message args (stations + 1) passed c.part c.machine =
      deliver invoke message args stations passed' c'.part c'.machine := by
  cases h with
  | unhandled hsearch hparent => rw [deliver_of_unhandled hsearch, goOn_of_parent hparent]
  | handedOn hsearch hrun hparent =>
    rw [deliver_of_handler hsearch, hrun]
    exact goOn_of_parent hparent

/-- Delivery comes to what the trail comes to, if there are stations enough. -/
theorem Trail.deliver_eq {r : EStateM.Result Halt Machine Flow}
    (h : Trail invoke message args passed c rest r) (hstations : c.part.height < stations) :
    deliver invoke message args stations passed c.part c.machine = r := by
  induction h generalizing stations with
  | last hends =>
    obtain ⟨n, rfl⟩ : ∃ n, stations = n + 1 := ⟨stations - 1, by omega⟩
    exact hends.deliver_eq
  | next hleads _ ih =>
    obtain ⟨n, rfl⟩ : ∃ n, stations = n + 1 := ⟨stations - 1, by omega⟩
    have hlt := hleads.height_lt
    rw [hleads.deliver_eq, ih (by omega)]

theorem exists_trail (invoke : Invoke) (message : String) (args : List Value)
    {passed : Bool} {c : Consultation} (hstations : c.part.height < stations) :
    ∃ rest r, Trail invoke message args passed c rest r := by
  induction stations generalizing passed c with
  | zero => omega
  | succ stations ih =>
    rcases c.ends_or_leadsOn invoke message args passed with ⟨r, hends⟩ | ⟨passed', c', hleads⟩
    · exact ⟨[], r, .last hends⟩
    · have hlt := hleads.height_lt
      obtain ⟨rest, r, htrail⟩ := @ih passed' c' (by omega)
      exact ⟨c' :: rest, r, .next hleads htrail⟩

end

/-! ## Handlers on the way -/

/-- Parameters read as the arguments in their places, and as empty if there are none. Of parameters
with the same name the last one counts. -/
def Handler.Binds (handler : Handler) (args : List Value) (m : Machine) : Prop :=
  ∀ before name after, handler.params = before ++ name :: after →
    (∀ later ∈ after, later.key ≠ name.key) →
    m.lookup? name = some (args[before.length]?.getD .empty)

/-- A frame is begun for the handler, in which the part is `me` and the arguments are these, its
parameters are bound to them, and then its body is run; unless there is no fuel or no frame for
it. -/
def Handler.RunsFor (handler : Handler) (fuel : Nat) (part : Handle) (args : List Value)
    (m : Machine) : Prop :=
  fuel = 0 ∨ (∃ f, m.pushFrame handler.name.spelling (some part) args = .error f) ∨
    ∃ n m₁ m₂, fuel = n + 1 ∧
      m.pushFrame handler.name.spelling (some part) args = .ok m₁ ∧
      bindParams handler.params args m₁ = .ok () m₂ ∧
      m₂.me? = some part ∧ m₂.args = args ∧ handler.Binds args m₂ ∧
      invoke fuel part handler args m =
        (((execBlock (invoke n) n handler.body).noting
          (·.inHandler handler.name.spelling)).andThen Machine.popFrame) m₂

theorem Handler.runsFor (handler : Handler) (fuel : Nat) (part : Handle) (args : List Value)
    (m : Machine) : handler.RunsFor fuel part args m := by
  cases fuel with
  | zero => exact .inl rfl
  | succ n =>
    cases hpush : m.pushFrame handler.name.spelling (some part) args with
    | error f => exact .inr (.inl ⟨f, hpush⟩)
    | ok m₁ =>
      have hbind := bindParams_pushFrame hpush
      obtain ⟨-, f, -, hme, hargs, -, hglobals, hcontext, -⟩ := Machine.pushFrame_eq_ok hpush
      have hframe : m₁.frame? = some f := by
        rw [Machine.frame?, hcontext]
        rfl
      -- binding parameters leaves the frame what it was begun for
      obtain ⟨locals, hlocals⟩ := f.exists_binding_eq handler.params args
      have hbound : (m₁.onTop (·.binding handler.params args)).frame? = some { f with locals } := by
        rw [Machine.frame?_onTop, hframe, Option.map_some, hlocals]
      refine .inr (.inr ⟨n, m₁, _, rfl, hpush, hbind, ?_, ?_,
        fun before name after hparams hlater => ?_, runHandler_of_pushFrame hpush hbind⟩)
      · rw [Machine.me?, hbound, Option.bind_some, hme]
      · rw [Machine.args, hbound, Option.map_some, Option.getD_some, hargs]
      · have hdeclares : Frame.declares { f with locals } name = false := by
          rw [Frame.declares, hglobals]
          rfl
        rw [Machine.lookup?, hbound]
        dsimp only
        rw [hdeclares, if_neg Bool.false_ne_true, ← hlocals, hparams]
        exact Frame.local?_binding before after hlater

/-! ## Messages that nobody handles -/

namespace Stack

/-- A card, its background and the stack. -/
def chainOfCard (s : Stack) (id : PartId) : List PartRef :=
  .card id :: ((s.card? id).map fun c => .background c.background).toList ++ [.stack]

/-- The components on the way of a message. That of a part leads over the card through which the
part is seen. -/
def chain (s : Stack) (f : Found) : List PartRef :=
  match f.part, f.card with
  | .stack, _ => [.stack]
  | .background id, _ => [.background id, .stack]
  | .card id, _ => s.chainOfCard id
  | part, some card => part :: s.chainOfCard card
  | part, none => [part]

/-- The script of the component has no handler for the message. -/
def Ignores (s : Stack) (message : String) (r : PartRef) : Prop :=
  ∀ script, s.scriptOf r = .ok script → script.handler? message false = none

end Stack

section Unhandled

variable {invoke : Invoke} {message : String} {args : List Value} {passed : Bool} {m : Machine}
  {k : Nat}

theorem search_eq_none {h : Handle} {script : Script} (hscript : m.world.scriptOf h = .ok script)
    (hignores : (m.world.stack h.stack).Ignores message h.found.part) :
    Consultation.search message ⟨h, m⟩ = .ok none := by
  rw [Consultation.search, hscript, Except.map, hignores script hscript]

/-- From here the message comes to the end of its way, and nothing changes. -/
def Unheard (invoke : Invoke) (message : String) (args : List Value) (passed : Bool) (m : Machine)
    (h : Handle) : Prop :=
  ∃ rest, Trail invoke message args passed ⟨h, m⟩ rest (endOfWay message passed m)

namespace Unheard

/-- Past a component that ignores the message. -/
theorem cons {h next : Handle} {script : Script} (hscript : m.world.scriptOf h = .ok script)
    (hignores : (m.world.stack h.stack).Ignores message h.found.part)
    (hparent : m.world.parent? h = some next)
    (hnext : Unheard invoke message args passed m next) :
    Unheard invoke message args passed m h := by
  obtain ⟨rest, htrail⟩ := hnext
  exact ⟨_, .next (.unhandled (search_eq_none hscript hignores) hparent) htrail⟩

theorem stack (hignores : (m.world.stack k).Ignores message .stack) :
    Unheard invoke message args passed m ⟨k, ⟨.stack, none⟩⟩ :=
  ⟨[], .last (.unhandled (search_eq_none rfl hignores) rfl)⟩

theorem background {b : Background} {context : Option PartId}
    (hb : b ∈ (m.world.stack k).backgrounds)
    (hignores : (m.world.stack k).Ignores message (.background b.id))
    (hstack : (m.world.stack k).Ignores message .stack) :
    Unheard invoke message args passed m ⟨k, ⟨.background b.id, context⟩⟩ := by
  have hsome : ((m.world.stack k).background? b.id).isSome :=
    List.find?_isSome.2 ⟨b, hb, beq_self_eq_true _⟩
  obtain ⟨b', hb'⟩ := Option.isSome_iff_exists.1 hsome
  have hscript : m.world.scriptOf ⟨k, ⟨.background b.id, context⟩⟩ = .ok b'.script := by
    simp only [World.scriptOf, Stack.scriptOf, hb', Option.map_some]
  exact .cons hscript hignores rfl (.stack hstack)

theorem card {c : Card} (hs : (m.world.stack k).Orderly) (hc : c ∈ (m.world.stack k).cards)
    (hchain : ∀ r ∈ (m.world.stack k).chainOfCard c.id, (m.world.stack k).Ignores message r) :
    Unheard invoke message args passed m ⟨k, .ofCard c.id⟩ := by
  have hcard := hs.card?_eq hc
  obtain ⟨b, hb, hon⟩ := hs.background_mem c hc
  simp only [Stack.chainOfCard, hcard, Option.map_some, Option.toList_some, ← hon] at hchain
  have hscript : m.world.scriptOf ⟨k, .ofCard c.id⟩ = .ok c.script := by
    simp only [World.scriptOf, Stack.scriptOf, Found.ofCard, hcard, Option.map_some]
  have hparent : m.world.parent? ⟨k, .ofCard c.id⟩ = some ⟨k, ⟨.background b.id, some c.id⟩⟩ := by
    simp only [World.parent?, Stack.parent?, Found.ofCard, hcard, Option.map_some, hon]
  refine .cons hscript (hchain _ (by simp [Found.ofCard])) hparent ?_
  exact .background hb (hchain _ (by simp)) (hchain _ (by simp))

/-- A part whose parent is the card through which it is seen. -/
theorem part {p : Part} {c : Card} (hs : (m.world.stack k).Orderly)
    (hp : p ∈ (m.world.stack k).allParts) (hc : c ∈ (m.world.stack k).cards)
    (hparent : m.world.parent? ⟨k, ⟨.part p.kind p.layer p.id, some c.id⟩⟩ =
      some ⟨k, .ofCard c.id⟩)
    (hchain : ∀ r ∈ (m.world.stack k).chain ⟨.part p.kind p.layer p.id, some c.id⟩,
      (m.world.stack k).Ignores message r) :
    Unheard invoke message args passed m ⟨k, ⟨.part p.kind p.layer p.id, some c.id⟩⟩ := by
  have hscript : m.world.scriptOf ⟨k, ⟨.part p.kind p.layer p.id, some c.id⟩⟩ = .ok p.script := by
    simp only [World.scriptOf, Stack.scriptOf, hs.part?_eq hp, Option.map_some]
  refine .cons hscript (hchain _ (List.mem_cons_self ..)) hparent ?_
  exact .card hs hc fun r hr => hchain r (List.mem_cons_of_mem _ hr)

/-- All components above one that a stack holds are there. -/
theorem of_holds {f : Found} (hs : (m.world.stack k).Orderly) (hf : (m.world.stack k).Holds f)
    (hchain : ∀ r ∈ (m.world.stack k).chain f, (m.world.stack k).Ignores message r) :
    Unheard invoke message args passed m ⟨k, f⟩ := by
  cases hf with
  | stack => exact .stack (hchain _ (List.mem_cons_self ..))
  | card hc => exact .card hs hc hchain
  | background hb =>
    exact .background hb (hchain _ (by simp [Stack.chain])) (hchain _ (by simp [Stack.chain]))
  | cardPart hc hp hlayer howner =>
    have hmem := Stack.mem_allParts.2 (.inl ⟨_, hc, hp⟩)
    refine .part hs hmem hc ?_ hchain
    simp only [World.parent?, Stack.parent?, hlayer, hs.part?_eq hmem, Option.map_some, howner]
  | backgroundPart hb hp hlayer _ hc =>
    refine .part hs (Stack.mem_allParts.2 (.inr ⟨_, hb, hp⟩)) hc ?_ hchain
    simp only [World.parent?, Stack.parent?, hlayer, Option.map_some, Option.getD_some]

end Unheard

/-- What becomes of a message that nobody handles: system messages need not be handled, in
whichever letters they are written. -/
def unheard (message : String) (m : Machine) : EStateM.Result Halt Machine Flow :=
  if Text.lowerString message ∈ systemMessages then .ok .normal m
  else .error (.failed { failure := .semantic (.neverHeardOf message) }) m

theorem endOfWay_apply (message : String) (m : Machine) :
    endOfWay message false m = unheard message m := by
  unfold endOfWay unheard isSystemMessage
  simp only [Bool.false_or, List.contains_iff_mem]
  split <;> rfl

theorem Unheard.deliver_eq {h : Handle} (hunheard : Unheard invoke message args false m h) :
    deliver invoke message args maxStations false h m = unheard message m := by
  obtain ⟨rest, htrail⟩ := hunheard
  rw [← endOfWay_apply]
  exact htrail.deliver_eq h.height_lt

/-- While a message is delivered it has its target, which is then set back. -/
theorem Unheard.send_eq {target : Handle}
    (h : Unheard invoke message args false (m.withTarget (some target)) target) :
    send invoke target message args m = unheard message m := by
  show ((deliver invoke message args maxStations false target).andThen fun m' =>
    m'.withTarget m.context.target) (m.withTarget (some target)) = unheard message m
  by_cases hsystem : Text.lowerString message ∈ systemMessages
  · simp only [Action.andThen, h.deliver_eq, unheard, hsystem, if_true]
    rfl
  · simp only [Action.andThen, h.deliver_eq, unheard, hsystem, if_false]
    rfl

end Unhandled

/-! ## Targets that were resolved -/

theorem Machine.currentCardIn_mem {m : Machine} {k : Nat} (hs : (m.world.stack k).Coherent) :
    ∃ c ∈ (m.world.stack k).cards, c.id = m.currentCardIn k := by
  simp only [currentCardIn]
  split
  · next id hid => exact Stack.isSome_card?.1 (Option.filter_eq_some_iff.1 hid).2
  · exact hs.current_mem

theorem Machine.resolve_holds {m : Machine} {spec : Specifier} {h : Handle}
    (hresolve : m.resolve spec = .ok h) (hreachable : (m.world.stack h.stack).Reachable)
    (hlive : ∀ g ∈ spec.known, (m.world.stack h.stack).Live g) :
    (m.world.stack h.stack).Holds h.found := by
  obtain ⟨k, -, hresolve⟩ := Failure.bind_eq_ok.1 hresolve
  obtain ⟨found, hfind, hresolve⟩ := Failure.bind_eq_ok.1 hresolve
  cases hresolve
  have hcurrent := currentCardIn_mem hreachable.coherent
  exact (Scope.find_sound hreachable hcurrent hlive hfind).1

/-- The part was resolved, now or earlier, in a reachable stack, and neither it nor the card through
which it is seen has been removed. -/
structure Machine.StillHas (m : Machine) (h : Handle) : Prop where
  resolved : ∃ (m₀ : Machine) (spec : Specifier), m₀.resolve spec = .ok h ∧
    (m₀.world.stack h.stack).Reachable ∧
    (∀ g ∈ spec.known, (m₀.world.stack h.stack).Live g) ∧
    (m₀.world.stack h.stack).Leads (m.world.stack h.stack)
  keeps : (m.world.stack h.stack).Keeps h.found

theorem Machine.StillHas.holds {m : Machine} {h : Handle} (hhas : m.StillHas h) :
    (m.world.stack h.stack).Orderly ∧ (m.world.stack h.stack).Holds h.found := by
  obtain ⟨⟨m₀, spec, hresolve, hreachable, hlive, hleads⟩, hkeeps⟩ := hhas
  obtain ⟨hcoherent, -⟩ := hreachable.coherent.leads hleads
  refine ⟨hcoherent.toOrderly, Stack.Live.holds ⟨_, hreachable, hleads, ?_, hkeeps⟩⟩
  exact resolve_holds hresolve hreachable hlive

/-- **The way of a message.** Whatever its target and whatever handlers do, the scripts that are
consulted belong to parts of ascending rank, so there are at most four and none comes twice; each
handler is run for the part it belongs to, with the arguments of the message. A message to a part
that is still there, which no script from that part to the stack handles, changes nothing: it is
not minded if it is a system message, and refused otherwise. -/
theorem message_delivery (fuel : Nat) (message : String) (args : List Value) :
    (∀ (target : Handle) (m : Machine),
      let first : Consultation := ⟨target, m⟩
      (∃ rest r, Trail (invoke fuel) message args false first rest r) ∧
      ∀ rest r, Trail (invoke fuel) message args false first rest r →
        deliver (invoke fuel) message args maxStations false target m = r ∧
        (first :: rest).Pairwise (fun c c' => c.part.rank < c'.part.rank) ∧
        (first :: rest).length ≤ 4 ∧ ((first :: rest).map (·.part)).Nodup ∧
        ∀ c ∈ first :: rest, ∀ handler, c.search message = .ok (some handler) →
          handler.RunsFor fuel c.part args c.machine) ∧
    ∀ (target : Handle) (m : Machine), m.StillHas target →
      (∀ r ∈ (m.world.stack target.stack).chain target.found,
        (m.world.stack target.stack).Ignores message r) →
      deliver (invoke fuel) message args maxStations false target m = unheard message m ∧
      send (invoke fuel) target message args m = unheard message m ∧
      (Failure.semantic (.neverHeardOf message)).message = s!"Never heard of {message}." := by
  refine ⟨fun target m => ⟨exists_trail _ _ _ target.height_lt, fun rest r htrail => ?_⟩,
    fun target m hhas hchain => ?_⟩
  · have hrank := htrail.rank_lt
    refine ⟨htrail.deliver_eq target.height_lt, hrank, ?_, ?_, fun c _ handler _ =>
      handler.runsFor fuel c.part args c.machine⟩
    · have hlength := htrail.length_le
      simp only [List.length_cons]
      omega
    · refine List.pairwise_map.2 (hrank.imp fun {c c'} hlt hsame => ?_)
      rw [hsame] at hlt
      exact absurd hlt (Nat.lt_irrefl _)
  · obtain ⟨horderly, hholds⟩ := hhas.holds
    exact ⟨(Unheard.of_holds horderly hholds hchain).deliver_eq,
      (Unheard.of_holds (m := m.withTarget (some target)) horderly hholds hchain).send_eq, rfl⟩

/-- A system message and another one, sent to a field of a background, where no script handles
anything. -/
theorem message_delivery_twoCards :
    ∃ (s : Stack) (field : Handle), StackSnapshot.twoCards.toStack = .ok s ∧
      field.found = ⟨.part .field .background 101, some 103⟩ ∧
      let m : Machine := { world := { allStacks := [s] }, context := { stack := some 0 } }
      send (invoke 8) field "MouseUp" [] m = .ok .normal m ∧
      send (invoke 8) field "frobnicate" [] m =
        .error (.failed { failure := .semantic (.neverHeardOf "frobnicate") }) m := by
  obtain ⟨s, hs, hresolve, hscripts, hkeeps⟩ :
      ∃ s : Stack, StackSnapshot.twoCards.toStack = .ok s ∧
        Machine.resolve { world := { allStacks := [s] }, context := { stack := some 0 } }
          (.number none .field 1) = .ok ⟨0, ⟨.part .field .background 101, some 103⟩⟩ ∧
        ((s.chain ⟨.part .field .background 101, some 103⟩).map fun r =>
          (s.scriptOf r).toOption.map (·.handlers)) = [some [], some [], some [], some []] ∧
        (s.tableOf? (.part .field .background 101)).isSome ∧ (s.card? 103).isSome :=
    ⟨_, rfl, rfl, rfl, rfl, rfl⟩
  let m : Machine := { world := { allStacks := [s] }, context := { stack := some 0 } }
  have hhas : m.StillHas ⟨0, ⟨.part .field .background 101, some 103⟩⟩ := by
    refine ⟨⟨m, _, hresolve, ⟨.twoCards, s, hs, .refl⟩, nofun, .refl⟩, hkeeps.1, ?_⟩
    rintro id ⟨⟩
    exact hkeeps.2
  have hignores (message : String) (r : PartRef)
      (hr : r ∈ s.chain ⟨.part .field .background 101, some 103⟩) : s.Ignores message r := by
    intro script hscript
    have hmem := List.mem_map_of_mem (f := fun r => (s.scriptOf r).toOption.map (·.handlers)) hr
    rw [hscripts, hscript] at hmem
    have hnone : script.handlers = [] := by simpa [Except.toOption] using hmem
    rw [Script.handler?, hnone, List.find?_nil]
  have hsystem := (message_delivery 8 "MouseUp" []).2 _ m hhas (hignores "MouseUp")
  have hother := (message_delivery 8 "frobnicate" []).2 _ m hhas (hignores "frobnicate")
  refine ⟨s, _, hs, rfl, hsystem.2.1.trans ?_, hother.2.1.trans ?_⟩
  · exact if_pos (by decide +kernel)
  · exact if_neg (by decide +kernel)

end CardScript
