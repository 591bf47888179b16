import CardScript.Proofs.Script.Accord

/-!
# Runs without open-ended loops end

Handlers may call each other without end, and so may the messages that tell of moves. What bounds
them is the limit on the depth of frames: with fuel beyond it no run stops for want of fuel, and
any two such runs are the same (`invokes_bounded`). A message, for its part, comes to at most
`maxStations` parts on its way, for each of them stands above the one before (`Handle.height`).
-/

namespace CardScript

variable {α β : Type} {depth limit : Nat}

/-! ## Machines -/

/-- A command that is no open-ended loop. -/
def Command.isBounded : Command → Bool
  | .loop kind _ => !kind.isOpenEnded
  | _ => true

/-- A machine at a depth and under a limit, with no open-ended loop in any script. -/
structure Machine.Bounded (depth limit : Nat) (m : Machine) : Prop where
  depth_eq : m.depth = depth
  limit_eq : m.world.settings.maxCallDepth = limit
  scripts : ∀ n, (m.world.stack n).Scripted fun script => script.every Command.isBounded

namespace Machine.Bounded

variable {m m' : Machine}

theorem moves (hm : m.Bounded depth limit) (h : m.Moves m') : m'.Bounded depth limit where
  depth_eq := h.depth.trans hm.depth_eq
  limit_eq := h.settings ▸ hm.limit_eq
  scripts n := (hm.scripts n).leads rfl (h.leads n)

/-- A frame is begun only below the limit. -/
theorem push (hm : m.Bounded depth limit) (hpush : m.pushFrame name me values = .ok m') :
    depth < limit ∧ m'.Bounded (depth + 1) limit := by
  obtain ⟨hdepth, f, -, -, -, -, -, hcontext, hworld⟩ := Machine.pushFrame_eq_ok hpush
  rw [hm.depth_eq, hm.limit_eq] at hdepth
  refine ⟨hdepth, ?_, ?_, ?_⟩
  · rw [Machine.depth, hcontext]
    exact congrArg (· + 1) hm.depth_eq
  · rw [hworld]
    exact hm.limit_eq
  · rw [hworld]
    exact hm.scripts

theorem pop (hm : m.Bounded (depth + 1) limit) : m.popFrame.Bounded depth limit where
  depth_eq := congrArg (· - 1) hm.depth_eq
  limit_eq := hm.limit_eq
  scripts := hm.scripts

end Machine.Bounded

/-! ## Actions -/

/-- On a machine, two actions do the same, do not stop for want of fuel and end in `P`. -/
structure Action.AlikeAt (P : Machine → Prop) (x y : Action α) (m : Machine) : Prop where
  eq : y m = x m
  ends : ∀ m', x m ≠ .error .outOfFuel m'
  after : P (x.after m)

/-- Two actions do the same on bounded machines, and leave them bounded. -/
def Action.Alike (depth limit : Nat) (x y : Action α) : Prop :=
  ∀ m : Machine, m.Bounded depth limit → AlikeAt (Machine.Bounded depth limit) x y m

namespace Action

variable {P Q : Machine → Prop} {m m₁ : Machine}

namespace AlikeAt

theorem congr {x y x₁ y₁ : Action α} (h : AlikeAt P x₁ y₁ m₁) (hx : x m = x₁ m₁)
    (hy : y m = y₁ m₁) : AlikeAt P x y m := by
  refine ⟨?_, fun m' => ?_, ?_⟩
  · rw [hx, hy, h.eq]
  · rw [hx]
    exact h.ends m'
  · rw [Action.after, hx]
    exact h.after

theorem failed {x y : Action α} {error : ScriptError} (hP : P m₁)
    (hx : x m = .error (.failed error) m₁) (hy : y m = .error (.failed error) m₁) :
    AlikeAt P x y m := by
  refine ⟨by rw [hx, hy], fun m' hm' => ?_, ?_⟩
  · rw [hx] at hm'
    cases hm'
  · rw [Action.after, hx]
    exact hP

theorem noting {x y : Action α} (h : AlikeAt P x y m) (note : ScriptError → ScriptError) :
    AlikeAt P (x.noting note) (y.noting note) m := by
  refine ⟨by simp only [Action.noting, h.eq], fun m' hm' => ?_, ?_⟩
  · unfold Action.noting at hm'
    split at hm'
    next => cases hm'
    next => cases hm'
    next hxm => exact h.ends _ hxm
  · rw [after_noting]
    exact h.after

theorem andThen {x y : Action α} (h : AlikeAt P x y m) (hf : ∀ m, P m → Q (f m)) :
    AlikeAt Q (x.andThen f) (y.andThen f) m := by
  refine ⟨by simp only [Action.andThen, h.eq], fun m' hm' => ?_, ?_⟩
  · unfold Action.andThen at hm'
    split at hm'
    next => cases hm'
    next hxm =>
      cases hm'
      exact h.ends _ hxm
  · rw [after_andThen]
    exact hf _ h.after

end AlikeAt

namespace Alike

theorem moves {x : Action α} (h : x.Moves) : x.Alike depth limit x :=
  fun m hm => ⟨rfl, h.ends m, hm.moves (h.keeps m)⟩

theorem bind {x y : Action α} {f g : α → Action β} (hx : x.Alike depth limit y)
    (hf : ∀ a, (f a).Alike depth limit (g a)) : (x >>= f).Alike depth limit (y >>= g) := by
  intro m hm
  obtain ⟨heq, hends, hafter⟩ := hx m hm
  cases hxm : x m with
  | ok a m₁ =>
    rw [hxm] at heq
    rw [Action.after, hxm] at hafter
    exact (hf a m₁ hafter).congr (bind_apply_ok hxm) (bind_apply_ok heq)
  | error halt m₁ =>
    rw [hxm] at heq
    rw [Action.after, hxm] at hafter
    cases halt with
    | failed error => exact .failed hafter (bind_apply_error hxm) (bind_apply_error heq)
    | outOfFuel => exact absurd hxm (hends m₁)

theorem handlerAt {h : Handle} {f g : Option Handler → Action α}
    (hnone : (f none).Alike depth limit (g none))
    (hsome : ∀ handler, handler.isFunction = isFunction →
      everyIn Command.isBounded handler.body →
      (f (some handler)).Alike depth limit (g (some handler))) :
    (handlerAt? h name isFunction >>= f).Alike depth limit
      (handlerAt? h name isFunction >>= g) := by
  intro m hm
  obtain ⟨failure, hgone⟩ | ⟨script, hscript, hsearch⟩ := handlerAt?_bind h name isFunction m
  · exact .failed hm (hgone f) (hgone g)
  · have hevery := (hm.scripts h.stack).scriptOf hscript
    cases hfind : script.handler? name isFunction with
    | none =>
      rw [hfind] at hsearch
      exact (hnone m hm).congr (hsearch f) (hsearch g)
    | some handler =>
      rw [hfind] at hsearch
      have hbody := Script.every_of_handler? hevery hfind
      exact (hsome handler (Script.isFunction_of_handler? hfind) hbody m hm).congr (hsearch f)
        (hsearch g)

/-- In a frame of its own, where the limit allows for one. -/
theorem inFrame {x y : Action α} (h : depth < limit → x.Alike (depth + 1) limit y) :
    (x.inFrame note name me values).Alike depth limit (y.inFrame note name me values) := by
  intro m hm
  have hx := inFrame_apply note name me values x m
  have hy := inFrame_apply note name me values y m
  cases hpush : m.pushFrame name me values with
  | ok m₁ =>
    rw [hpush] at hx hy
    obtain ⟨hdepth, hm₁⟩ := hm.push hpush
    exact ((h hdepth m₁ hm₁).andThen fun _ hm => hm.pop).congr hx hy
  | error f =>
    rw [hpush] at hx hy
    exact .failed hm hx hy

end Alike

end Action

/-! ## Handlers -/

/-- Runs without open-ended loops are alike, however often such loops could go round. -/
def bounded (depth limit loops loops' : Nat) : Concord loops loops' where
  allows := Command.isBounded
  Rel _ x y := x.Alike depth limit y
  stays h := .moves h.moves
  bind := .bind
  follow hx hf _ _ := .bind hx hf
  handlerAt := .handlerAt
  noting _ h m hm := (h m hm).noting _
  andThen hf _ h m hm := (h m hm).andThen fun m hm => hm.moves (hf m).moves
  loopWhile {kind} _ _ _ _ _ hopen hallows := by
    simp only [Command.isBounded, hopen] at hallows
    cases hallows
  land := .moves land_moves
  goBack _ := ⟨.moves stepBack_moves, fun _ => .moves land_moves⟩
  addCard := .moves (addCard_moves fun _ => insertCard_moves)
  addBackground := .moves (addCard_moves fun _ => insertBackground_moves)
  dropCard := .moves dropCard_moves

/-- Where fuel goes beyond the frames that are left, it does not matter how far. By induction on
the fuel: every handler takes one off the fuel and one off the frames. -/
theorem invokes_bounded (hdepth : depth ≤ limit) (hfuel : limit < depth + fuel)
    (hfuel' : limit < depth + fuel') :
    (bounded depth limit loops loops').Invokes (invoke fuel) (invoke fuel') := by
  induction fuel generalizing depth fuel' loops loops' with
  | zero => omega
  | succ fuel ih =>
    obtain ⟨fuel', rfl⟩ : ∃ n, fuel' = n + 1 := ⟨fuel' - 1, by omega⟩
    have halike (owner : Handle) (handler : Handler) (args : List Value)
        (hbody : everyIn Command.isBounded handler.body) :
        (invoke (fuel + 1) owner handler args).Alike depth limit
          (invoke (fuel' + 1) owner handler args) := by
      simp only [invoke, runHandler_eq]
      refine .inFrame fun hless => ?_
      exact Concord.handlerBody (ih hless (by omega) (by omega)) hbody
    exact ⟨fun owner handler args _ => halike owner handler args,
      fun owner handler args _ => halike owner handler args⟩

theorem alike_messageRun (hfuel : limit < fuel) (hfuel' : limit < fuel') :
    (messageRun fuel target message args).Alike 0 limit
      (messageRun fuel' target message args) := by
  have hinvokes : (bounded 0 limit fuel fuel').Invokes (invoke fuel) (invoke fuel') :=
    invokes_bounded (Nat.zero_le _) (by omega) (by omega)
  have hdispatch (receiver : Handle) : Action.Alike 0 limit
      (do
        dispatch fuel receiver message args
        Action.ask (·.context.result))
      (do
        dispatch fuel' receiver message args
        Action.ask (·.context.result)) :=
    .bind (.bind (Concord.send hinvokes) fun _ => .moves (Action.Stays.pure _).moves) fun _ =>
      .moves (Action.Stays.ask _).moves
  cases target with
  | some spec => exact .bind (.moves (Action.Stays.resolve spec).moves) hdispatch
  | none => exact .bind (.moves (Action.Stays.demand _).moves) hdispatch

theorem alike_runStatements (hfuel : limit < fuel) (hfuel' : limit < fuel')
    (hstatements : everyIn Command.isBounded statements) :
    (runStatements fuel statements).Alike 0 limit (runStatements fuel' statements) := by
  rw [runStatements_eq, runStatements_eq]
  refine .inFrame fun hless => ?_
  have hinvokes : (bounded 1 limit fuel fuel').Invokes (invoke fuel) (invoke fuel') :=
    invokes_bounded hless (by omega) (by omega)
  have hblock : (execBlock (invoke fuel) fuel statements).Alike 1 limit
      (execBlock (invoke fuel') fuel' statements) :=
    Concord.execBlock hinvokes statements hstatements
  exact .bind (.bind hblock fun _ => .moves (Action.Stays.pure _).moves) fun _ =>
    .moves (Action.Stays.ask _).moves

/-! ## The way of a message -/

/-- How many parts can stand above one on the way of a message. -/
def PartRef.height : PartRef → Nat
  | .part .. => 3
  | .card _ => 2
  | .background _ => 1
  | .stack => 0

def Handle.height (h : Handle) : Nat :=
  h.found.part.height

theorem Handle.height_lt (h : Handle) : h.height < maxStations := by
  unfold height PartRef.height
  split <;> decide

theorem World.height_parent? {w : World} {h next : Handle} (hnext : w.parent? h = some next) :
    next.height < h.height := by
  obtain ⟨found, hfound, rfl⟩ := Option.map_eq_some_iff.1 hnext
  unfold Stack.parent? at hfound
  unfold Handle.height
  split at hfound
  next hpart =>
    obtain ⟨p, -, rfl⟩ := Option.map_eq_some_iff.1 hfound
    rw [hpart]
    exact Nat.lt_succ_self 2
  next hpart =>
    cases hfound
    rw [hpart]
    exact Nat.lt_succ_self 2
  next hpart =>
    obtain ⟨c, -, rfl⟩ := Option.map_eq_some_iff.1 hfound
    rw [hpart]
    exact Nat.lt_succ_self 1
  next hpart =>
    cases hfound
    rw [hpart]
    exact Nat.lt_succ_self 0
  next => cases hfound

/-- The next station, which is nearer to the end of the way. -/
theorem nextStation?_congr {h : Handle} {f g : Option Handle → Action α}
    (hsome : ∀ next : Handle, next.height < h.height → f (some next) = g (some next))
    (hnone : f none = g none) : nextStation? h >>= f = nextStation? h >>= g := by
  funext m
  show f (m.world.parent? h) m = g (m.world.parent? h) m
  cases hparent : m.world.parent? h with
  | some next => rw [hsome next (World.height_parent? hparent)]
  | none => rw [hnone]

theorem deliver_congr {invoke : Invoke} {h : Handle} (hn : h.height < n) (hk : h.height < k) :
    deliver invoke message args n passed h = deliver invoke message args k passed h := by
  induction n generalizing k passed h with
  | zero => omega
  | succ n ih =>
    obtain ⟨k, rfl⟩ : ∃ j, k = j + 1 := ⟨k - 1, by omega⟩
    refine bind_congr fun handler? => ?_
    cases handler? with
    | none => exact nextStation?_congr (fun next hnext => ih (by omega) (by omega)) rfl
    | some handler =>
      refine bind_congr fun flow => ?_
      cases flow with
      | pass => exact nextStation?_congr (fun next hnext => ih (by omega) (by omega)) rfl
      | _ => rfl

theorem callFrom_congr {invoke : Invoke} {h : Handle} (hn : h.height < n) (hk : h.height < k) :
    callFrom invoke name args n h = callFrom invoke name args k h := by
  induction n generalizing k h with
  | zero => omega
  | succ n ih =>
    obtain ⟨k, rfl⟩ : ∃ j, k = j + 1 := ⟨k - 1, by omega⟩
    refine bind_congr fun handler? => ?_
    cases handler? with
    | none => exact nextStation?_congr (fun next hnext => ih (by omega) (by omega)) rfl
    | some handler =>
      refine bind_congr fun flow => ?_
      cases flow with
      | pass => exact nextStation?_congr (fun next hnext => ih (by omega) (by omega)) rfl
      | _ => rfl

/-! ## Requests -/

namespace World

/-- A run that is the same with any fuel beyond the limit, and does not stop for want of it, has an
outcome that no more fuel will change. -/
theorem run_ends {w : World} {stack : Option Nat} {run : Nat → Action Value}
    (hscripts : ∀ n, (w.stack n).Scripted fun script => script.every Command.isBounded)
    (hrun : ∀ fuel fuel', w.settings.maxCallDepth < fuel → w.settings.maxCallDepth < fuel' →
      (run fuel).Alike 0 w.settings.maxCallDepth (run fuel')) :
    ∃ (answer : Except ScriptError Value) (w' : World), ∀ fuel, w.settings.maxCallDepth < fuel →
      w.run stack (run fuel) = (answer.mapError .failed, w') := by
  have hm : Machine.Bounded 0 w.settings.maxCallDepth { world := w, context := { stack } } :=
    ⟨rfl, rfl, hscripts⟩
  have hleast := Nat.lt_succ_self w.settings.maxCallDepth
  have hends := (hrun _ _ hleast hleast _ hm).ends
  have heq (fuel : Nat) (hfuel : w.settings.maxCallDepth < fuel) :=
    (hrun _ fuel hleast hfuel _ hm).eq
  unfold World.run
  cases hresult : run (w.settings.maxCallDepth + 1) { world := w, context := { stack } } with
  | ok value m =>
    exact ⟨.ok value, m.world, fun fuel hfuel => by rw [heq fuel hfuel, hresult]; rfl⟩
  | error halt m =>
    cases halt with
    | failed error =>
      exact ⟨.error error, m.world, fun fuel hfuel => by rw [heq fuel hfuel, hresult]; rfl⟩
    | outOfFuel => exact absurd hresult (hends m)

/-- **Without open-ended loops every request is answered.** If neither the scripts of a world nor
the statements of a request go round open-ended loops, the request has an answer, a value or an
error, and any fuel beyond the limit on the depth of frames brings it about. Nor does it matter
where messages and calls are cut off that would come to more than `maxStations` parts: none do. -/
theorem answer_terminates (w : World) (request : Request) (draws : Draws) (clock : Clock)
    (hscripts : ∀ s ∈ w.allStacks, s.Scripted fun script => script.every Command.isBounded)
    (hrequest : request.every Command.isBounded) :
    (∃ (answer : Except ScriptError Value) (w' : World), ∀ fuel, w.settings.maxCallDepth < fuel →
      w.answer { request, fuel, draws, clock } = (answer.mapError .failed, w')) ∧
    ∀ (invoke : Invoke) (name : String) (args : List Value) (h : Handle) (stations : Nat),
      maxStations ≤ stations →
      (∀ passed, deliver invoke name args stations passed h =
        deliver invoke name args maxStations passed h) ∧
      callFrom invoke name args stations h = callFrom invoke name args maxStations h := by
  refine ⟨?_, fun invoke name args h stations hstations => ?_⟩
  · have hall (n : Nat) : (w.stack n).Scripted fun script => script.every Command.isBounded := by
      unfold stack
      cases hget : w.allStacks[n]? with
      | some s => exact hscripts s (List.mem_of_getElem? hget)
      | none => exact ⟨rfl, nofun, nofun⟩
    cases request with
    | send stack target message args =>
      exact run_ends (w := { w with draws, clock }) hall fun _ _ hfuel hfuel' =>
        alike_messageRun hfuel hfuel'
    | eval stack statements =>
      exact run_ends (w := { w with draws, clock }) hall fun _ _ hfuel hfuel' =>
        alike_runStatements hfuel hfuel' hrequest
  · have hleast := h.height_lt
    exact ⟨fun _ => deliver_congr (by omega) hleast, callFrom_congr (by omega) hleast⟩

/-- A stack of one card, with a handler that calls itself without end. -/
def echo : Stack where
  script := { handlers := [
    { name := ⟨"ping"⟩
      body := [.mk {} (.loop (.count (.literal "2" false)) [.mk {} (.message ⟨"ping"⟩ [])])] }] }
  cards := [.blank 101 100 "" {}]
  backgrounds := [.blank 100 "" {}]
  currentCard := 101

/-- The handler that calls itself without end is stopped at a depth of three. -/
theorem answer_terminates_echo :
    let w : World := { settings := { maxCallDepth := 3 }, allStacks := [echo] }
    let request : Request := .send 0 none "ping" []
    ∃ error : ScriptError, error.failure = .semantic .tooMuchRecursion ∧
      ∀ fuel, 3 < fuel → (w.answer { request, fuel }).1 = .error (.failed error) := by
  intro w request
  have hscripts : ∀ s ∈ w.allStacks, s.Scripted fun script => script.every Command.isBounded := by
    intro s hs
    rw [List.mem_singleton.1 hs]
    refine ⟨rfl, fun c hc => ?_, fun b hb => ?_⟩
    · rw [List.mem_singleton.1 hc]
      exact ⟨rfl, nofun⟩
    · rw [List.mem_singleton.1 hb]
      exact ⟨rfl, nofun⟩
  have hfails : (match (w.answer { request, fuel := 4 }).1 with
      | .error (.failed error) => error.failure == .semantic .tooMuchRecursion
      | _ => false) = true := by
    decide +kernel
  obtain ⟨⟨answer, w', hanswer⟩, -⟩ := answer_terminates w request {} {} hscripts rfl
  have hleast := hanswer 4 (by decide)
  rw [hleast] at hfails
  cases answer with
  | ok value => cases hfails
  | error error =>
    refine ⟨error, beq_iff_eq.1 hfails, fun fuel hfuel => ?_⟩
    have hsame := hanswer fuel hfuel
    rw [hsame]
    rfl

end World

end CardScript
