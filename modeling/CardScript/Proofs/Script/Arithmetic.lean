import CardScript.Proofs.Script.WritingBack

/-!
# Arithmetic in place

`add`, `subtract`, `multiply` and `divide` read a container, combine it with a value and write it
back, all through one address. Putting the result of the operator into the container reads it as an
expression instead, which is evaluated by other rules and in another order, and resolves the
container a second time. Where nothing calls a function and nothing is left to chance, evaluation
leaves the machine as it is (`evalExpr_still`), so that order and repetition do not matter, and a
container reads the same both ways (`evalExpr_container`): the command and the assignment succeed
together and with the same result (`arithmetic_iff_put`).
-/

namespace CardScript

/-! ## Plain expressions -/

mutual

/-- Nothing in an expression calls a function or is left to chance. -/
def Expr.isPlain : Expr → Bool
  | .literal .. | .var _ => true
  | .binary _ lhs rhs => lhs.isPlain && rhs.isPlain
  | .unary _ operand => operand.isPlain
  | .chunk c source => c.isPlain && source.isPlain
  | .property _ none => true
  | .property _ (some p) => p.isPlain
  | .part p => p.isPlain
  | .call .. => false
  | .countChunks _ source => source.isPlain
  | .countParts _ _ none => true
  | .countParts _ _ (some owner) => owner.isPlain

def IndexExpr.isPlain : IndexExpr → Bool
  | .at number => number.isPlain
  | .ordinal word => word != .any

def isPlainStop : Option IndexExpr → Bool
  | none => true
  | some i => i.isPlain

def ChunkExpr.isPlain : ChunkExpr → Bool
  | .mk _ start stop none => start.isPlain && isPlainStop stop
  | .mk _ start stop (some outer) => outer.isPlain && start.isPlain && isPlainStop stop

def PartExpr.isPlain : PartExpr → Bool
  | .id _ _ number => number.isPlain
  | .named _ _ name => name.isPlain
  | .ordinal _ _ word => word != .any
  | .stack (some name) => name.isPlain
  | .of part owner => owner.isPlain && part.isPlain
  | _ => true

end

/-- Nothing in a container calls a function or is left to chance. -/
def Container.isPlain : Container → Bool
  | .var _ chunk => chunk.all (·.isPlain)
  | .part p chunk => p.isPlain && chunk.all (·.isPlain)
  | .property _ p chunk => p.all (·.isPlain) && chunk.all (·.isPlain)
  | .messageBox => true

/-! ## Actions that leave the machine as it is -/

namespace Action

variable {α β : Type} {m m' : Machine}

/-- An action that leaves the machine as it is, whether it fails or answers, and answers only what
has a property. -/
def Still (P : α → Prop) (x : Action α) : Prop :=
  ∀ m, (∃ a, P a ∧ x m = .ok a m) ∨ ∃ error, x m = .error (.failed error) m

/-- An action that leaves the machine as it is if it fails. -/
def Atomic (x : Action α) : Prop :=
  ∀ m halt m', x m = .error halt m' → (∃ error, halt = .failed error) ∧ m' = m

theorem demand_eq_ok_iff {read : Machine → Except Failure α} {a : α} :
    Action.demand read m = .ok a m ↔ read m = .ok a :=
  ⟨fun h => (demand_eq_ok h).1, demand_of_ok⟩

theorem ofExcept_eq_ok_iff {e : Except Failure α} {a : α} :
    Action.ofExcept e m = .ok a m' ↔ e = .ok a ∧ m' = m := by
  cases e with
  | ok b =>
    show EStateM.Result.ok b m = .ok a m' ↔ _
    simp [eq_comm]
  | error failure => exact ⟨nofun, nofun⟩

/-- What is answered after an action that answers nothing. -/
theorem then_return_eq_ok_iff {x : Action Unit} {a b : α} :
    (do x; return a) m = .ok b m' ↔ x m = .ok () m' ∧ b = a := by
  constructor
  · intro h
    obtain ⟨_, m₁, hx, h⟩ := bind_eq_ok h
    cases h
    exact ⟨hx, rfl⟩
  · rintro ⟨hx, rfl⟩
    exact bind_apply_ok hx

theorem edit_return_atomic {x : Editing Machine Unit} (hx : x.Atomic) (a : α) :
    Atomic (do Action.edit x; return a) := by
  intro m halt m' h
  cases hedit : Action.edit x m with
  | ok _ m₁ =>
    rw [bind_apply_ok hedit] at h
    cases h
  | error halt₁ m₁ =>
    rw [bind_apply_error hedit] at h
    cases h
    obtain ⟨f, rfl, hfails⟩ := edit_eq_error hedit
    exact ⟨⟨_, rfl⟩, hx hfails⟩

namespace Still

variable {P : α → Prop} {Q : β → Prop} {x : Action α} {f : α → Action β} {a : α} {b : β}

theorem pure (h : P a) : Still P (Pure.pure a : Action α) :=
  fun _ => .inl ⟨a, h, rfl⟩

theorem fail (failure : Failure) : Still P (Action.fail failure : Action α) :=
  fun _ => .inr ⟨_, rfl⟩

theorem demand {read : Machine → Except Failure α} (h : ∀ m a, read m = .ok a → P a) :
    Still P (Action.demand read) := by
  intro m
  cases hread : read m with
  | ok a => exact .inl ⟨a, h m a hread, demand_of_ok hread⟩
  | error failure => exact .inr ⟨_, demand_of_error hread⟩

theorem ofExcept {e : Except Failure α} (h : ∀ a, e = .ok a → P a) :
    Still P (Action.ofExcept e) := by
  cases e with
  | ok a => exact pure (h a rfl)
  | error failure => exact fail failure

theorem ask (read : Machine → α) : Still (fun _ => True) (Action.ask read) :=
  fun m => .inl ⟨read m, trivial, rfl⟩

theorem bind (hx : Still P x) (hf : ∀ a, P a → Still Q (f a)) : Still Q (x >>= f) := by
  intro m
  rcases hx m with ⟨a, ha, hok⟩ | ⟨error, herror⟩
  · rw [bind_apply_ok hok]
    exact hf a ha m
  · exact .inr ⟨error, bind_apply_error herror⟩

theorem of_ok (hx : Still P x) (h : x m = .ok a m') : P a ∧ m' = m := by
  rcases hx m with ⟨a', ha, hok⟩ | ⟨error, herror⟩
  · cases h.symm.trans hok
    exact ⟨ha, rfl⟩
  · cases h.symm.trans herror

/-- What follows begins on the same machine. -/
theorem bind_eq_ok_iff (hx : Still P x) :
    (x >>= f) m = .ok b m' ↔ ∃ a, x m = .ok a m ∧ f a m = .ok b m' := by
  constructor
  · intro h
    obtain ⟨a, m₁, hok, hf⟩ := bind_eq_ok h
    obtain ⟨-, rfl⟩ := hx.of_ok hok
    exact ⟨a, hok, hf⟩
  · rintro ⟨a, hok, h⟩
    rw [bind_apply_ok hok, h]

/-- If what follows fails, it fails on the machine that this began on. -/
theorem bind_atomic (hx : Still P x) (hf : ∀ a, Atomic (f a)) : Atomic (x >>= f) := by
  intro m halt m' h
  rcases hx m with ⟨a, -, hok⟩ | ⟨error, herror⟩
  · rw [bind_apply_ok hok] at h
    exact hf a m halt m' h
  · rw [bind_apply_error herror] at h
    cases h
    exact ⟨⟨error, rfl⟩, rfl⟩

end Still

end Action

open CardScript.Action (Still)

theorem resolve_still {spec : Specifier} (h : spec.draws = 0) :
    Still (fun _ => True) (Action.resolve spec) := by
  intro m
  have hresolve : Action.resolve spec m = Action.ofExcept (m.resolve spec) m := by
    show Action.ofExcept _ { m with
      world := { m.world with draws := m.world.draws.skip spec.draws } } = _
    rw [h]
    rfl
  rw [hresolve]
  exact Still.ofExcept (fun _ _ => trivial) m

theorem pinChunk_apply {chunk : Chunk Chunk.Index} (h : chunk.draws = 0) (text : List Char)
    (m : Machine) :
    pinChunk chunk text m = .ok (chunk.pin m.world.draws m.world.itemDelimiter text) m := by
  show EStateM.Result.ok _ { m with
    world := { m.world with draws := m.world.draws.skip chunk.draws } } = _
  rw [h]
  rfl

theorem pinChunk_still {chunk : Chunk Chunk.Index} (h : chunk.draws = 0) (text : List Char) :
    Still (fun _ => True) (pinChunk chunk text) :=
  fun m => .inl ⟨_, trivial, pinChunk_apply h text m⟩

theorem usualOwner_still (type : PartType) : Still (fun _ => True) (usualOwner type) := by
  unfold usualOwner
  split
  · exact .bind (.demand fun _ _ _ => trivial) fun _ _ => .pure trivial
  · exact .bind (.demand fun _ _ _ => trivial) fun _ _ => .pure trivial
  · exact .demand fun _ _ _ => trivial

theorem countParts_still (type : PartType) (layer : Option Layer) (owner : Handle) :
    Still (fun _ => True) (countParts type layer owner) := by
  refine .bind (.ask _) fun w _ => ?_
  split
  · exact .pure trivial
  · exact .fail _

mutual

/-- Evaluating what is plain leaves the machine as it is. Of indices, chunks and addresses it has to
be known also that they need no draws, which are used up when they are pinned or resolved. -/
theorem evalExpr_still (invoke : Invoke) :
    ∀ x : Expr, x.isPlain → Still (fun _ => True) (evalExpr invoke x)
  | .literal _ _, _ => .pure trivial
  | .var _, _ => .ask _
  | .binary op lhs rhs, h => by
    obtain ⟨hlhs, hrhs⟩ := Bool.and_eq_true_iff.1 h
    refine .bind (evalExpr_still invoke lhs hlhs) fun left _ =>
      .bind (.ofExcept fun _ _ => trivial) fun settled _ => ?_
    cases settled with
    | some v => exact .pure trivial
    | none =>
      exact .bind (evalExpr_still invoke rhs hrhs) fun _ _ => .ofExcept fun _ _ => trivial
  | .unary _ operand, h =>
    .bind (evalExpr_still invoke operand h) fun _ _ => .ofExcept fun _ _ => trivial
  | .chunk c source, h => by
    obtain ⟨hc, hsource⟩ := Bool.and_eq_true_iff.1 h
    exact .bind (evalExpr_still invoke source hsource) fun _ _ =>
      .bind (evalChunk_still invoke c hc) fun _ hdraws =>
        .bind (pinChunk_still hdraws _) fun _ _ =>
          .bind (.ask _) fun _ _ => .pure trivial
  | .property _ none, _ => .demand fun _ _ _ => trivial
  | .property _ (some p), h =>
    .bind (evalPart_still invoke p h) fun _ hdraws =>
      .bind (resolve_still hdraws) fun _ _ => .demand fun _ _ _ => trivial
  | .part p, h =>
    .bind (evalPart_still invoke p h) fun _ hdraws =>
      .bind (resolve_still hdraws) fun _ _ => .demand fun _ _ _ => trivial
  | .call .., h => nomatch h
  | .countChunks _ source, h =>
    .bind (evalExpr_still invoke source h) fun _ _ =>
      .bind (.ask _) fun _ _ => .pure trivial
  | .countParts type layer none, _ =>
    .bind (usualOwner_still type) fun _ _ => countParts_still type layer _
  | .countParts type layer (some owner), h =>
    .bind (evalPart_still invoke owner h) fun _ hdraws =>
      .bind (resolve_still hdraws) fun _ _ => countParts_still type layer _

theorem evalIndex_still (invoke : Invoke) :
    ∀ i : IndexExpr, i.isPlain → Still (fun i => i.draws = 0) (evalIndex invoke i)
  | .at number, h => by
    refine .bind (evalExpr_still invoke number h) fun v _ => .ofExcept fun i hi => ?_
    unfold chunkNumber at hi
    split at hi <;> cases hi
    rfl
  | .ordinal word, h => by
    refine .pure ?_
    cases word with
    | last | middle => rfl
    | any => cases h

theorem evalStop_still (invoke : Invoke) :
    ∀ i, isPlainStop i → Still (fun i => (i.map Chunk.Index.draws).getD 0 = 0) (evalStop invoke i)
  | none, _ => .pure rfl
  | some i, h => .bind (evalIndex_still invoke i h) fun _ hdraws => .pure hdraws

theorem evalChunk_still (invoke : Invoke) :
    ∀ c : ChunkExpr, c.isPlain → Still (fun c => c.draws = 0) (evalChunk invoke c)
  | .mk _ start stop none, h => by
    obtain ⟨hstart, hstop⟩ := Bool.and_eq_true_iff.1 h
    refine .bind (evalIndex_still invoke start hstart) fun _ hfirst =>
      .bind (evalStop_still invoke stop hstop) fun _ hlast => .pure ?_
    simp only [Chunk.draws, Chunk.Level.draws, hfirst, hlast]
  | .mk _ start stop (some outer), h => by
    obtain ⟨h, hstop⟩ := Bool.and_eq_true_iff.1 h
    obtain ⟨houter, hstart⟩ := Bool.and_eq_true_iff.1 h
    refine .bind (evalChunk_still invoke outer houter) fun _ haround =>
      .bind (evalIndex_still invoke start hstart) fun _ hfirst =>
        .bind (evalStop_still invoke stop hstop) fun _ hlast => .pure ?_
    simp only [Chunk.draws, Chunk.Level.draws, haround, hfirst, hlast]

theorem evalPart_still (invoke : Invoke) :
    ∀ p : PartExpr, p.isPlain → Still (fun spec => spec.draws = 0) (evalPart invoke p)
  | .id _ _ number, h => by
    refine .bind (evalExpr_still invoke number h) fun v _ => .ofExcept fun spec hspec => ?_
    unfold idSpecifier at hspec
    split at hspec
    · split at hspec <;> cases hspec
      rfl
    · cases hspec
  | .named _ _ name, h => by
    refine .bind (evalExpr_still invoke name h) fun v _ => .pure ?_
    unfold namedSpecifier
    split <;> rfl
  | .ordinal _ _ word, h => by
    refine .pure ?_
    cases word with
    | last | middle => rfl
    | any => cases h
  | .position .., _ => .pure rfl
  | .stack none, _ => .pure rfl
  | .stack (some name), h => .bind (evalExpr_still invoke name h) fun _ _ => .pure rfl
  | .of part owner, h => by
    obtain ⟨howner, hpart⟩ := Bool.and_eq_true_iff.1 h
    refine .bind (evalPart_still invoke owner howner) fun _ hdraws =>
      .bind (evalPart_still invoke part hpart) fun _ hdraws' => .pure ?_
    simp only [Specifier.draws, hdraws, hdraws']
  | .me, _ => by
    refine .demand fun m spec hspec => ?_
    split at hspec <;> cases hspec
    rfl
  | .target, _ => by
    refine .demand fun m spec hspec => ?_
    split at hspec <;> cases hspec
    rfl

end

theorem resolvePart_still (invoke : Invoke) {p : PartExpr} (hp : p.isPlain) :
    Still (fun _ => True) (resolvePart invoke p) :=
  .bind (evalPart_still invoke p hp) fun _ hdraws => resolve_still hdraws

/-! ## Containers as expressions -/

namespace Chunk

theorem Level.settled?_of_draws {l : Level Index} (h : l.draws = 0) :
    ∃ settled, l.settled? = some settled ∧ ∀ source count, l.pin source count = settled := by
  obtain ⟨kind, start, stop⟩ := l
  cases start with
  | any => simp [draws, Index.draws] at h
  | place start =>
    cases stop with
    | none => exact ⟨_, rfl, fun _ _ => rfl⟩
    | some stop =>
      cases stop with
      | any => simp [draws, Index.draws] at h
      | place stop => exact ⟨_, rfl, fun _ _ => rfl⟩

/-- A chunk in which nothing is left to chance is settled, and to the same as if it were pinned. -/
theorem settled?_of_draws {c : Chunk Index} (h : c.draws = 0) :
    ∃ settled, c.settled? = some settled ∧
      ∀ source delimiter cs, c.pin source delimiter cs = settled := by
  induction c with
  | ofText l =>
    obtain ⟨settled, hsettled, hpin⟩ := l.settled?_of_draws h
    exact ⟨ofText settled, by simp [settled?, hsettled], fun _ _ _ => by rw [pin, hpin]⟩
  | within l outer ih =>
    obtain ⟨houter, hl⟩ := Nat.add_eq_zero_iff.1 h
    obtain ⟨settled, hsettled, hpin⟩ := l.settled?_of_draws hl
    obtain ⟨around, haround, hpins⟩ := ih houter
    exact ⟨within settled around, by simp [settled?, hsettled, haround],
      fun _ _ _ => by simp only [pin, hpin, hpins]⟩

end Chunk

namespace Container

/-- The whole of a container as an expression. The message box cannot be read in one. -/
def source? : Container → Option Expr
  | var name _ => some (.var name)
  | part p _ => some (.part p)
  | property name p _ => some (.property name p)
  | messageBox => none

/-- A container as an expression. -/
def toExpr? (c : Container) : Option Expr :=
  c.source?.map fun source => c.chunk?.elim source (.chunk · source)

variable {invoke : Invoke} {c : Container} {x source : Expr} {m : Machine} {v : Value}

theorem isPlain_chunk? (hc : c.isPlain) : c.chunk?.all (·.isPlain) := by
  cases c with
  | var name chunk => exact hc
  | part p chunk | property name p chunk => exact (Bool.and_eq_true_iff.1 hc).2
  | messageBox => rfl

theorem isPlain_source? (hc : c.isPlain) (h : c.source? = some source) : source.isPlain := by
  cases c with
  | var name chunk =>
    cases h
    rfl
  | part p chunk =>
    cases h
    exact (Bool.and_eq_true_iff.1 hc).1
  | property name p chunk =>
    cases h
    cases p with
    | none => rfl
    | some p => exact (Bool.and_eq_true_iff.1 hc).1
  | messageBox => cases h

theorem isPlain_toExpr? (hc : c.isPlain) (hx : c.toExpr? = some x) : x.isPlain := by
  obtain ⟨source, hsource, rfl⟩ := Option.map_eq_some_iff.1 hx
  have hplain := isPlain_source? hc hsource
  cases hchunk : c.chunk? with
  | none => exact hplain
  | some chunk =>
    have hplain' := isPlain_chunk? hc
    rw [hchunk] at hplain'
    exact Bool.and_eq_true_iff.2 ⟨hplain', hplain⟩

/-- As an expression, the whole of a container is resolved to its slot and read there. -/
theorem evalExpr_source? (invoke : Invoke) (h : c.source? = some source) :
    evalExpr invoke source =
      c.evalSlot invoke >>= fun slot => Action.demand fun m => slot.read m := by
  cases c with
  | var name chunk =>
    cases h
    rfl
  | part p chunk =>
    cases h
    simp only [evalExpr, evalSlot, resolvePart, bind_assoc, pure_bind]
    rfl
  | property name p chunk =>
    cases h
    cases p with
    | none => rfl
    | some p =>
      simp only [evalExpr, evalSlot, resolvePart, bind_assoc, pure_bind]
      rfl
  | messageBox => cases h

theorem evalSlot_still (hc : c.isPlain) : Still (fun _ => True) (c.evalSlot invoke) := by
  cases c with
  | var name chunk | messageBox => exact .pure trivial
  | part p chunk =>
    exact .bind (resolvePart_still invoke (Bool.and_eq_true_iff.1 hc).1) fun _ _ => .pure trivial
  | property name p chunk =>
    cases p with
    | none => exact .pure trivial
    | some p =>
      exact .bind (resolvePart_still invoke (Bool.and_eq_true_iff.1 hc).1) fun _ _ => .pure trivial

end Container

/-- The chunk that an expression denotes on a machine, nothing in it being left to chance. -/
def ChunkExpr.Denotes (invoke : Invoke) (m : Machine) (c : ChunkExpr)
    (settled : Chunk Chunk.Place) : Prop :=
  ∃ chunk, evalChunk invoke c m = .ok chunk m ∧ chunk.settled? = some settled

section Reading

variable {invoke : Invoke} {m m' : Machine} {v : Value}

theorem addressOf_chunk_iff {c : ChunkExpr} (hc : c.isPlain) {slot : Slot} {a : Address} :
    addressOf invoke slot (some c) m = .ok a m' ↔
      ∃ settled, c.Denotes invoke m settled ∧ a = ⟨slot, some settled⟩ ∧ m' = m := by
  rw [addressOf, (evalChunk_still invoke c hc).bind_eq_ok_iff]
  constructor
  · rintro ⟨chunk, hchunk, h⟩
    obtain ⟨hdraws, -⟩ := (evalChunk_still invoke c hc).of_ok hchunk
    obtain ⟨settled, hsettled, -⟩ := chunk.settled?_of_draws hdraws
    rw [settleChunk, hsettled] at h
    cases h
    exact ⟨settled, ⟨chunk, hchunk, hsettled⟩, rfl, rfl⟩
  · rintro ⟨settled, ⟨chunk, hchunk, hsettled⟩, rfl, rfl⟩
    refine ⟨chunk, hchunk, ?_⟩
    rw [settleChunk, hsettled]
    rfl

theorem evalExpr_chunk_iff {c : ChunkExpr} {source : Expr} (hc : c.isPlain)
    (hsource : source.isPlain) :
    evalExpr invoke (.chunk c source) m = .ok v m' ↔
      ∃ whole settled, evalExpr invoke source m = .ok whole m ∧ c.Denotes invoke m settled ∧
        v = .ofText (String.ofList (settled.get m.world.itemDelimiter whole.text.toList)) ∧
        m' = m := by
  have hstill := evalChunk_still invoke c hc
  rw [evalExpr, (evalExpr_still invoke source hsource).bind_eq_ok_iff]
  refine exists_congr fun whole => ?_
  rw [hstill.bind_eq_ok_iff]
  constructor
  · rintro ⟨hwhole, chunk, hchunk, h⟩
    obtain ⟨hdraws, -⟩ := hstill.of_ok hchunk
    obtain ⟨settled, hsettled, hpin⟩ := chunk.settled?_of_draws hdraws
    rw [Action.bind_apply_ok (pinChunk_apply hdraws _ m), hpin] at h
    cases h
    exact ⟨settled, hwhole, ⟨chunk, hchunk, hsettled⟩, rfl, rfl⟩
  · rintro ⟨settled, hwhole, ⟨chunk, hchunk, hsettled⟩, rfl, rfl⟩
    obtain ⟨hdraws, -⟩ := hstill.of_ok hchunk
    obtain ⟨settled', hsettled', hpin⟩ := chunk.settled?_of_draws hdraws
    cases hsettled.symm.trans hsettled'
    refine ⟨hwhole, chunk, hchunk, ?_⟩
    rw [Action.bind_apply_ok (pinChunk_apply hdraws _ m'), hpin]
    rfl

theorem evalExpr_source_iff {c : Container} {source : Expr} (hc : c.isPlain)
    (h : c.source? = some source) :
    evalExpr invoke source m = .ok v m ↔
      ∃ slot, c.evalSlot invoke m = .ok slot m ∧ slot.read m = .ok v := by
  rw [Container.evalExpr_source? invoke h, (Container.evalSlot_still hc).bind_eq_ok_iff]
  exact exists_congr fun slot => and_congr_right fun _ => Action.demand_eq_ok_iff

/-- A container reads the same as an expression and through its address. -/
theorem evalExpr_container {c : Container} {x : Expr} (hc : c.isPlain) (hx : c.toExpr? = some x) :
    evalExpr invoke x m = .ok v m ↔
      ∃ a, evalContainer invoke c m = .ok a m ∧ a.read m = .ok v := by
  obtain ⟨source, hsource, rfl⟩ := Option.map_eq_some_iff.1 hx
  rw [evalContainer_eq]
  simp only [(Container.evalSlot_still hc).bind_eq_ok_iff, Address.read_eq_ok_iff]
  cases hchunk : c.chunk? with
  | none =>
    rw [Option.elim_none, evalExpr_source_iff hc hsource]
    constructor
    · rintro ⟨slot, hslot, hread⟩
      exact ⟨⟨slot, none⟩, ⟨slot, hslot, rfl⟩, v, hread, rfl⟩
    · rintro ⟨a, ⟨slot, hslot, h⟩, whole, hread, rfl⟩
      cases h
      exact ⟨slot, hslot, hread⟩
  | some chunk =>
    have hplain := Container.isPlain_chunk? hc
    rw [hchunk] at hplain
    rw [Option.elim_some, evalExpr_chunk_iff hplain (Container.isPlain_source? hc hsource)]
    simp only [evalExpr_source_iff hc hsource, addressOf_chunk_iff hplain]
    -- An expression evaluates the source before the chunk, an address the chunk before it is read.
    constructor
    · rintro ⟨whole, settled, ⟨slot, hslot, hread⟩, hsettled, rfl, -⟩
      exact ⟨_, ⟨slot, hslot, settled, hsettled, rfl, trivial⟩, whole, hread, rfl⟩
    · rintro ⟨a, ⟨slot, hslot, settled, hsettled, rfl, -⟩, whole, hread, rfl⟩
      exact ⟨whole, settled, ⟨slot, hslot, hread⟩, hsettled, rfl, trivial⟩

theorem evalContainer_still {c : Container} (hc : c.isPlain) :
    Still (fun _ => True) (evalContainer invoke c) := by
  rw [evalContainer_eq]
  refine .bind (Container.evalSlot_still hc) fun slot _ => ?_
  have hplain := Container.isPlain_chunk? hc
  cases hchunk : c.chunk? with
  | none => exact .pure trivial
  | some chunk =>
    rw [hchunk] at hplain
    refine .bind (evalChunk_still invoke chunk hplain) fun chunk hdraws => ?_
    obtain ⟨settled, hsettled, -⟩ := chunk.settled?_of_draws hdraws
    rw [settleChunk, hsettled]
    exact .pure trivial

end Reading

/-! ## Arithmetic commands -/

/-- What is calculated in a container. -/
inductive Arithmetic where
  | add
  | subtract
  | multiply
  | divide

namespace Arithmetic

def op : Arithmetic → BinaryOp
  | add => .add
  | subtract => .subtract
  | multiply => .multiply
  | divide => .divide

/-- The command that combines a container with a value. -/
def command (value : Expr) (target : Container) : Arithmetic → Command
  | add => .add value target
  | subtract => .subtract value target
  | multiply => .multiply target value
  | divide => .divide target value

theorem execCommand_command (invoke : Invoke) (fuel : Nat) (e : Expr) (c : Container)
    (operation : Arithmetic) :
    execCommand invoke fuel (operation.command e c) =
      updateContainer invoke operation.op.apply e c := by
  cases operation with
  | add | subtract | multiply | divide => rfl

variable {invoke : Invoke} {fuel : Nat} {operation : Arithmetic} {e x : Expr} {c : Container}
  {m m' : Machine} {flow : Flow} {v : Value}

theorem evalExpr_binary_iff (hx : x.isPlain) (he : e.isPlain) :
    evalExpr invoke (.binary operation.op x e) m = .ok v m' ↔
      ∃ left right, evalExpr invoke x m = .ok left m ∧ evalExpr invoke e m = .ok right m ∧
        operation.op.apply left right = .ok v ∧ m' = m := by
  have hsettled (left : Value) : operation.op.settledBy left = .ok none := by
    cases operation <;> rfl
  rw [evalExpr, (evalExpr_still invoke x hx).bind_eq_ok_iff]
  refine exists_congr fun left => ?_
  simp only [hsettled]
  show _ ∧ (evalExpr invoke e >>= _) m = _ ↔ _
  rw [(evalExpr_still invoke e he).bind_eq_ok_iff]
  simp only [Action.ofExcept_eq_ok_iff]
  exact ⟨fun ⟨hleft, right, hright⟩ => ⟨right, hleft, hright⟩,
    fun ⟨right, hleft, hright⟩ => ⟨hleft, right, hright⟩⟩

/-- When an assignment succeeds. -/
theorem put_iff (hx : x.isPlain) (hc : c.isPlain) :
    execCommand invoke fuel (.put x .into c) m = .ok flow m' ↔
      ∃ v a, evalExpr invoke x m = .ok v m ∧ evalContainer invoke c m = .ok a m ∧
        Action.edit (a.writing .into v) m = .ok () m' ∧ flow = .normal := by
  rw [execCommand, (evalExpr_still invoke x hx).bind_eq_ok_iff]
  simp only [(evalContainer_still hc).bind_eq_ok_iff, Action.then_return_eq_ok_iff,
    exists_and_left]

/-- When arithmetic in place succeeds. -/
theorem updateContainer_iff {op : Value → Value → Except Failure Value} (he : e.isPlain)
    (hc : c.isPlain) :
    updateContainer invoke op e c m = .ok flow m' ↔
      ∃ right a left v, evalExpr invoke e m = .ok right m ∧ evalContainer invoke c m = .ok a m ∧
        a.read m = .ok left ∧ op left right = .ok v ∧
        Action.edit (a.writing .into v) m = .ok () m' ∧ flow = .normal := by
  have hdemand (a : Address) : Still (fun _ => True) (Action.demand a.read) :=
    .demand fun _ _ _ => trivial
  have hop (left right : Value) : Still (fun _ => True) (Action.ofExcept (op left right)) :=
    .ofExcept fun _ _ => trivial
  rw [updateContainer, (evalExpr_still invoke e he).bind_eq_ok_iff]
  simp only [(evalContainer_still hc).bind_eq_ok_iff, (hdemand _).bind_eq_ok_iff,
    (hop _ _).bind_eq_ok_iff, Action.demand_eq_ok_iff, Action.ofExcept_eq_ok_iff,
    Action.then_return_eq_ok_iff, and_true, exists_and_left]

theorem put_atomic (hx : x.isPlain) (hc : c.isPlain) :
    (execCommand invoke fuel (.put x .into c)).Atomic := by
  rw [execCommand]
  exact (evalExpr_still invoke x hx).bind_atomic fun _ =>
    (evalContainer_still hc).bind_atomic fun a =>
      Action.edit_return_atomic (a.writing_atomic ..) _

theorem updateContainer_atomic {op : Value → Value → Except Failure Value} (he : e.isPlain)
    (hc : c.isPlain) : (updateContainer invoke op e c).Atomic :=
  (evalExpr_still invoke e he).bind_atomic fun _ => (evalContainer_still hc).bind_atomic fun a =>
    (Still.demand fun _ _ _ => trivial).bind_atomic fun _ =>
      (Still.ofExcept fun _ _ => trivial).bind_atomic fun _ =>
        Action.edit_return_atomic (a.writing_atomic ..) _

end Arithmetic

/-- **Arithmetic in place is the operator and an assignment.** Take a container that can be read as
an expression, and a value, in neither of which a function is called or anything is left to chance.
Adding to the container, subtracting from it, multiplying or dividing it succeeds exactly if putting
the sum, difference, product or quotient into it succeeds, and both end with the same machine. If
either fails, it is with a script error, and the machine is as it was. -/
theorem arithmetic_iff_put (invoke : Invoke) (fuel : Nat) (operation : Arithmetic) (e x : Expr)
    (c : Container) (hx : c.toExpr? = some x) (he : e.isPlain) (hc : c.isPlain) (m : Machine) :
    let arithmetic := execCommand invoke fuel (operation.command e c)
    let assignment := execCommand invoke fuel (.put (.binary operation.op x e) .into c)
    (∀ flow m', arithmetic m = .ok flow m' ↔ assignment m = .ok flow m') ∧
    (∀ halt m', arithmetic m = .error halt m' → (∃ error, halt = .failed error) ∧ m' = m) ∧
    ∀ halt m', assignment m = .error halt m' → (∃ error, halt = .failed error) ∧ m' = m := by
  intro arithmetic assignment
  have hplain := Container.isPlain_toExpr? hc hx
  have hbinary : (Expr.binary operation.op x e).isPlain := Bool.and_eq_true_iff.2 ⟨hplain, he⟩
  have harithmetic : arithmetic = updateContainer invoke operation.op.apply e c :=
    operation.execCommand_command invoke fuel e c
  refine ⟨fun flow m' => ?_, ?_, Arithmetic.put_atomic hbinary hc m⟩
  · rw [harithmetic, Arithmetic.updateContainer_iff he hc, Arithmetic.put_iff hbinary hc]
    simp only [Arithmetic.evalExpr_binary_iff hplain he, evalExpr_container hc hx]
    constructor
    · rintro ⟨right, a, left, v, hright, ha, hleft, hv, hwrite, hflow⟩
      exact ⟨v, a, ⟨left, right, ⟨a, ha, hleft⟩, hright, hv, trivial⟩, ha, hwrite, hflow⟩
    · rintro ⟨v, a, ⟨left, right, ⟨a', ha', hleft⟩, hright, hv, -⟩, ha, hwrite, hflow⟩
      cases ha.symm.trans ha'
      exact ⟨right, a, left, v, hright, ha, hleft, hv, hwrite, hflow⟩
  · rw [harithmetic]
    exact Arithmetic.updateContainer_atomic he hc m

/-- The item of a field that the number of cards says is doubled. -/
theorem arithmetic_iff_put_doubled :
    ∃ (s t : Stack) (m' : Machine), StackSnapshot.twoCards.toStack = .ok s ∧
      s.setContents ⟨.part .field .background 101, some 103⟩ (.ofText "1,4") = .ok t ∧
      let m : Machine := { world := { allStacks := [t] }, context := { stack := some 0 } }
      let field : PartExpr := .named none .field (.literal "notes" true)
      let item : ChunkExpr := .mk .item (.at (.countParts .card none none)) none none
      let two : Expr := .literal "2" false
      execCommand (CardScript.invoke 0) 0 (.multiply (.part field (some item)) two) m =
        .ok .normal m' ∧
      execCommand (CardScript.invoke 0) 0
        (.put (.binary .multiply (.chunk item (.part field)) two) .into (.part field (some item)))
        m = .ok .normal m' ∧
      (m'.world.contents ⟨0, .part .field .background 101, some 103⟩).toOption.map (·.text) =
        some "1,8" := by
  refine ⟨_, _, _, rfl, rfl, rfl, ?_, rfl⟩
  exact ((arithmetic_iff_put _ 0 .multiply _ _ _ rfl rfl rfl _).1 .normal _).1 rfl

end CardScript
