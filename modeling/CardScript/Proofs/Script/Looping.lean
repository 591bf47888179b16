import CardScript.Proofs.Number.Numerals
import CardScript.Proofs.Script.WritingBack
import CardScript.Syntax.Building

/-!
# Counted loops

Once its bounds are known, a counted loop is a number of passes, each of which begins with its
counter set, if it has one (`Rounds`). A pass goes on to the next one (`GoesOn`) or breaks the loop
off (`Breaks`), and there is no third way (`goesOn_or_breaks`). A run of the loop is therefore made
of passes that go on, up to the last one or up to the one that breaks it off (`LoopRuns`), and the
loop ends as its run does (`counted_loop_runs_range`). Stepping the counter never leaves the words:
a loop that compares the counter with its final value and steps it within a word is the same loop
(`loopStepping_eq_loopFrom`).
-/

namespace CardScript

/-- The flows with which the body of a loop has the loop go on. -/
def Flow.goesOn : Flow → Bool
  | normal | nextRepeat => true
  | _ => false

/-- The flows that leave a loop and whatever is around it. -/
def Flow.leavesLoop : Flow → Bool
  | exitHandler | exitToHyperCard | pass | returned _ => true
  | _ => false

/-! ## Passes -/

section Passes

variable (start : Editing Machine Unit) (body : Action Flow)

/-- The body of a pass is carried out: what is due before it succeeds, and the frame is not
aborted. -/
structure Begins (m m₁ : Machine) : Prop where
  started : start m = .ok () m₁
  not_aborted : m₁.isAborted = false

/-- A pass after which the loop goes on. -/
inductive GoesOn (m m₂ : Machine) : Prop
  | intro {m₁ : Machine} {flow : Flow} (begins : Begins start m m₁)
    (ends : body m₁ = .ok flow m₂) (goesOn : flow.goesOn = true)

/-- A pass with which the loop ends, and how it ends. -/
inductive Breaks (m : Machine) : EStateM.Result Halt Machine Flow → Prop
  | refused {failure : Failure} : start m = .error failure m →
    Breaks m (.error (.failed { failure }) m)
  | aborted {m₁ : Machine} : start m = .ok () m₁ → m₁.isAborted = true →
    Breaks m (.error (.failed { failure := .semantic .aborted }) m₁)
  | halted {m₁ m₂ : Machine} {halt : Halt} : Begins start m m₁ → body m₁ = .error halt m₂ →
    Breaks m (.error halt m₂)
  | exited {m₁ m₂ : Machine} : Begins start m m₁ → body m₁ = .ok .exitRepeat m₂ →
    Breaks m (.ok .normal m₂)
  | left {m₁ m₂ : Machine} {flow : Flow} : Begins start m m₁ → body m₁ = .ok flow m₂ →
    flow.leavesLoop = true → Breaks m (.ok flow m₂)

/-- A pass, and what follows it if the loop goes on. -/
def passThen (next : Action Flow) : Action Flow := do
  Action.edit start
  match ← passThrough body with
  | some flow => return flow
  | none => next

variable {start body} {m m₁ m₂ : Machine}

theorem passThrough_apply (body : Action Flow) (m : Machine) (h : m.isAborted = false) :
    passThrough body m = (do return (← body).afterPass : Action (Option Flow)) m := by
  have hcheck : m.checkAbort = .ok () := by
    rw [Machine.checkAbort, h]
    rfl
  rw [passThrough, Action.bind_apply_ok (Action.demand_of_ok hcheck)]

theorem passThen_of_begins (h : Begins start m m₁) (next : Action Flow) :
    passThen start body next m =
      (do
        match (← body).afterPass with
        | some flow => return flow
        | none => next : Action Flow) m₁ := by
  have hpass := passThrough_apply body m₁ h.not_aborted
  rw [passThen, Action.bind_apply_ok (Action.edit_of_ok h.started)]
  cases hbody : body m₁ with
  | ok flow m₂ =>
    rw [Action.bind_apply_ok hbody] at hpass
    rw [Action.bind_apply_ok hpass, Action.bind_apply_ok hbody]
  | error halt m₂ =>
    rw [Action.bind_apply_error hbody] at hpass
    rw [Action.bind_apply_error hpass, Action.bind_apply_error hbody]

/-- After a pass that goes on comes the rest of the loop. -/
theorem GoesOn.passThen_eq (h : GoesOn start body m m₂) (next : Action Flow) :
    passThen start body next m = next m₂ := by
  obtain ⟨hbegins, hends, hgoesOn⟩ := h
  rw [passThen_of_begins hbegins, Action.bind_apply_ok hends]
  cases ‹Flow› with
  | normal | nextRepeat => rfl
  | _ => cases hgoesOn

/-- Nothing comes after a pass that breaks the loop off. -/
theorem Breaks.passThen_eq {r : EStateM.Result Halt Machine Flow} (h : Breaks start body m r)
    (next : Action Flow) : passThen start body next m = r := by
  cases h with
  | refused hstart => exact Action.bind_apply_error (Action.edit_of_error hstart)
  | @aborted m₁ hstart haborted =>
    have hcheck : m₁.checkAbort = .error (.semantic .aborted) := by
      rw [Machine.checkAbort, haborted]
      rfl
    rw [passThen, Action.bind_apply_ok (Action.edit_of_ok hstart)]
    apply Action.bind_apply_error
    exact Action.bind_apply_error (Action.demand_of_error hcheck)
  | halted hbegins hends =>
    rw [passThen_of_begins hbegins]
    exact Action.bind_apply_error hends
  | exited hbegins hends =>
    rw [passThen_of_begins hbegins, Action.bind_apply_ok hends]
    rfl
  | @left _ _ flow hbegins hends hleaves =>
    rw [passThen_of_begins hbegins, Action.bind_apply_ok hends]
    cases flow with
    | exitHandler | exitToHyperCard | pass => rfl
    | returned value => rfl
    | _ => cases hleaves

variable (start body m)

/-- Every pass goes on or breaks the loop off, if what is due before it changes nothing when it
fails. -/
theorem goesOn_or_breaks (hatomic : start.Atomic) :
    (∃ m₂, GoesOn start body m m₂) ∨ ∃ r, Breaks start body m r := by
  cases hstart : start m with
  | error failure m₁ =>
    obtain rfl := hatomic hstart
    exact .inr ⟨_, .refused hstart⟩
  | ok _ m₁ =>
    cases haborted : m₁.isAborted with
    | true => exact .inr ⟨_, .aborted hstart haborted⟩
    | false =>
      have hbegins : Begins start m m₁ := ⟨hstart, haborted⟩
      cases hbody : body m₁ with
      | error halt m₂ => exact .inr ⟨_, .halted hbegins hbody⟩
      | ok flow m₂ =>
        cases flow with
        | normal | nextRepeat => exact .inl ⟨m₂, .intro hbegins hbody rfl⟩
        | exitRepeat => exact .inr ⟨_, .exited hbegins hbody⟩
        | _ => exact .inr ⟨_, .left hbegins hbody rfl⟩

end Passes

/-! ## Runs of passes -/

section Runs

variable (start : Nat → Editing Machine Unit) (body : Action Flow)

/-- As many passes, one after another, that all go on. -/
inductive Passes (m : Machine) : Nat → Machine → Prop
  | none : Passes m 0 m
  | next {k : Nat} {m₁ m₂ : Machine} : Passes m k m₁ → GoesOn (start k) body m₁ m₂ →
    Passes m (k + 1) m₂

/-- A run of so many passes: all of them go on, or all before the one that breaks it off. -/
inductive LoopRuns (times : Nat) (m : Machine) : EStateM.Result Halt Machine Flow → Prop
  | completed {m' : Machine} : Passes start body m times m' → LoopRuns times m (.ok .normal m')
  | broken {k : Nat} {m' : Machine} {r : EStateM.Result Halt Machine Flow} : k < times →
    Passes start body m k m' → Breaks (start k) body m' r → LoopRuns times m r

/-- The passes of a loop from one on. -/
def loopFrom : (times k : Nat) → Action Flow
  | 0, _ => pure .normal
  | times + 1, k => passThen (start k) body (loopFrom times (k + 1))

variable {start body} {times k : Nat} {m m' : Machine} {r : EStateM.Result Halt Machine Flow}

/-- What is left to be done after some passes. -/
theorem Passes.loopFrom_eq (h : Passes start body m k m') (times : Nat) :
    loopFrom start body (k + times) 0 m = loopFrom start body times k m' := by
  induction h generalizing times with
  | none => rw [Nat.zero_add]
  | @next k m₁ m₂ _ hpass ih =>
    rw [Nat.add_right_comm, Nat.add_assoc, ih (times + 1)]
    exact hpass.passThen_eq _

theorem LoopRuns.loopFrom_eq (h : LoopRuns start body times m r) :
    loopFrom start body times 0 m = r := by
  cases h with
  | completed hpasses => exact hpasses.loopFrom_eq 0
  | @broken k m' _ hk hpasses hbreaks =>
    obtain ⟨left, rfl⟩ := Nat.exists_eq_add_of_lt hk
    rw [Nat.add_assoc, hpasses.loopFrom_eq (left + 1)]
    exact hbreaks.passThen_eq _

variable (start body times m)

/-- Whatever the passes do, there is a run of them. -/
theorem exists_loopRuns (hatomic : ∀ k, (start k).Atomic) :
    ∃ r, LoopRuns start body times m r := by
  induction times with
  | zero => exact ⟨_, .completed .none⟩
  | succ times ih =>
    obtain ⟨r, hruns⟩ := ih
    cases hruns with
    | @completed m' hpasses =>
      obtain ⟨m₂, hgoesOn⟩ | ⟨r, hbreaks⟩ :=
        goesOn_or_breaks (start times) body m' (hatomic times)
      · exact ⟨_, .completed (hpasses.next hgoesOn)⟩
      · exact ⟨r, .broken (Nat.lt_succ_self times) hpasses hbreaks⟩
    | broken hk hpasses hbreaks => exact ⟨r, .broken (Nat.lt_succ_of_lt hk) hpasses hbreaks⟩

variable {start body times m}

theorem loopFrom_eq_iff (hatomic : ∀ k, (start k).Atomic) :
    loopFrom start body times 0 m = r ↔ LoopRuns start body times m r := by
  constructor
  · intro h
    obtain ⟨r', hruns⟩ := exists_loopRuns start body times m hatomic
    rw [← h, hruns.loopFrom_eq]
    exact hruns
  · exact LoopRuns.loopFrom_eq

/-- Passes that all go on are followed by all the others. -/
theorem exists_passes_of_goesOn
    (h : ∀ k < times, ∀ m₁, Passes start body m k m₁ → ∃ m₂, GoesOn (start k) body m₁ m₂) :
    ∃ m', Passes start body m times m' := by
  induction times with
  | zero => exact ⟨m, .none⟩
  | succ times ih =>
    obtain ⟨m₁, hpasses⟩ := ih fun k hk => h k (Nat.lt_succ_of_lt hk)
    obtain ⟨m₂, hgoesOn⟩ := h times (Nat.lt_succ_self times) m₁ hpasses
    exact ⟨m₂, hpasses.next hgoesOn⟩

end Runs

/-! ## Rounds -/

/-- A counted loop with its bounds. -/
inductive Rounds where
  | times (number : Int)
  | counting (counter : Symbol) (first final : Int) (down : Bool)

namespace Rounds

/-- How many passes there are; none, if the bounds are the wrong way round. -/
def number : Rounds → Nat
  | times number => number.toNat
  | counting _ first final down => (if down then first - final + 1 else final - first + 1).toNat

/-- What the counter is in a pass. -/
def value (first : Int) (down : Bool) (k : Nat) : Int :=
  if down then first - k else first + k

theorem value_zero (first : Int) (down : Bool) : value first down 0 = first := by
  cases down <;> simp [value]

theorem value_step (first : Int) (down : Bool) (k : Nat) :
    value first down k + (if down then -1 else 1) = value first down (k + 1) := by
  cases down with
  | false => simp only [value, Bool.false_eq_true, if_false]; omega
  | true => simp only [value, if_true]; omega

/-- What is due before a pass: the counter is set. -/
def start : Rounds → Nat → Editing Machine Unit
  | times _, _ => pure ()
  | counting counter first _ down, k =>
    Machine.settingVariable counter (.ofInt (value first down k))

theorem start_atomic (rounds : Rounds) (k : Nat) : (rounds.start k).Atomic := by
  cases rounds with
  | times number => exact (Editing.pure_total ()).atomic
  | counting counter first final down => exact Machine.settingVariable_atomic ..

/-- The bounds of a loop, and the machine that evaluating them leaves. -/
inductive BoundsOf (invoke : Invoke) : LoopKind → Machine → Rounds → Machine → Prop
  | times {e : Expr} {n : Int} {m m' : Machine} : evalInteger invoke e m = .ok n m' →
    BoundsOf invoke (.count e) m (.times n) m'
  | counting {counter : Symbol} {first final : Expr} {a b : Int} {down : Bool}
    {m m₁ m₂ : Machine} : evalInteger invoke first m = .ok a m₁ →
    evalInteger invoke final m₁ = .ok b m₂ →
    BoundsOf invoke (.counting counter first final down) m (.counting counter a b down) m₂

/-- The bounds are words. -/
def areWords : Rounds → Bool
  | times number => Number.fitsWord number
  | counting _ first final _ => Number.fitsWord first && Number.fitsWord final

end Rounds

theorem loopTimes_eq_loopFrom (body : Action Flow) (n : Int) (times k : Nat) :
    loopTimes body times = loopFrom (Rounds.times n).start body times k := by
  induction times generalizing k with
  | zero => rfl
  | succ times ih =>
    rw [loopTimes, ih (k + 1)]
    rfl

theorem loopCounting_eq_loopFrom (counter : Symbol) (first final : Int) (down : Bool)
    (body : Action Flow) (times k : Nat) :
    loopCounting counter (if down then -1 else 1) body times (Rounds.value first down k) =
      loopFrom (Rounds.counting counter first final down).start body times k := by
  induction times generalizing k with
  | zero => rfl
  | succ times ih =>
    rw [loopCounting, Rounds.value_step, ih (k + 1)]
    rfl

/-- A counted loop evaluates its bounds and makes its passes. -/
theorem runLoop_eq_loopFrom {invoke : Invoke} {kind : LoopKind} {rounds : Rounds}
    {m m' : Machine} (h : rounds.BoundsOf invoke kind m m') (fuel : Nat) (body : Action Flow) :
    runLoop invoke fuel kind body m = loopFrom rounds.start body rounds.number 0 m' := by
  cases h with
  | @times e n _ _ hn =>
    rw [runLoop, Action.bind_apply_ok hn, loopTimes_eq_loopFrom body n _ 0]
    rfl
  | @counting counter first final a b down _ _ _ hfirst hfinal =>
    have hloop := loopCounting_eq_loopFrom counter a b down body
      (Rounds.counting counter a b down).number 0
    rw [Rounds.value_zero] at hloop
    rw [← hloop, runLoop, Action.bind_apply_ok hfirst, Action.bind_apply_ok hfinal]
    cases down with
    | false => rfl
    | true => rfl

/-! ## Stepping the counter -/

/-- The loop as long as the counter has not gone past its final value. The counter is stepped
within a word, and the loop ends where that is not possible. -/
def loopStepping (counter : Symbol) (final : Int) (down : Bool) (body : Action Flow)
    (value : Int) : Action Flow :=
  if (if down then final ≤ value else value ≤ final) then
    passThen (Machine.settingVariable counter (.ofInt value)) body
      (if Number.fitsWord (value + if down then -1 else 1) then
        loopStepping counter final down body (value + if down then -1 else 1)
      else pure .normal)
  else pure .normal
termination_by (if down then value - final + 1 else final - value + 1).toNat
decreasing_by cases down <;> grind

namespace Rounds

/-- How many passes are left when the counter has a value. -/
def left (final : Int) (down : Bool) (value : Int) : Nat :=
  (if down then value - final + 1 else final - value + 1).toNat

theorem left_eq_zero {final value : Int} {down : Bool} (h : left final down value = 0) :
    ¬ (if down then final ≤ value else value ≤ final) := by
  unfold left at h
  cases down with
  | false => simp only [Bool.false_eq_true, if_false] at h ⊢; omega
  | true => simp only [if_true] at h ⊢; omega

theorem left_eq_succ {final first : Int} {down : Bool} {k times : Nat}
    (h : left final down (value first down k) = times + 1) :
    (if down then final ≤ value first down k else value first down k ≤ final) ∧
      left final down (value first down (k + 1)) = times := by
  unfold left value at *
  cases down with
  | false => simp only [Bool.false_eq_true, if_false] at h ⊢; omega
  | true => simp only [if_true] at h ⊢; omega

/-- All values of the counter lie between its bounds. -/
theorem fitsWord_value {first final : Int} {down : Bool} {k : Nat}
    (hfirst : Number.fitsWord first = true) (hfinal : Number.fitsWord final = true)
    (hk : k < left final down first) : Number.fitsWord (value first down k) = true := by
  rw [Number.fitsWord_iff] at *
  unfold left at hk
  unfold value
  cases down with
  | false => simp only [Bool.false_eq_true, if_false] at hk ⊢; omega
  | true => simp only [if_true] at hk ⊢; omega

/-- Where the counter cannot be stepped within a word, no pass is left to be made. -/
theorem left_of_not_fitsWord {first final : Int} {down : Bool} {k times : Nat}
    (hfinal : Number.fitsWord final = true)
    (hvalue : Number.fitsWord (value first down k) = true)
    (h : left final down (value first down k) = times + 1)
    (hnext : Number.fitsWord (value first down (k + 1)) = false) : times = 0 := by
  rw [Bool.eq_false_iff, ne_eq] at hnext
  rw [Number.fitsWord_iff] at *
  unfold left value at *
  cases down with
  | false => simp only [Bool.false_eq_true, if_false] at *; omega
  | true => simp only [if_true] at *; omega

end Rounds

/-- A loop that steps its counter makes the passes that are left. -/
theorem loopStepping_eq_loopFrom {counter : Symbol} {first final : Int} {down : Bool}
    {body : Action Flow} (hfinal : Number.fitsWord final = true) {times k : Nat}
    (hvalue : Number.fitsWord (Rounds.value first down k) = true)
    (hleft : Rounds.left final down (Rounds.value first down k) = times) :
    loopStepping counter final down body (Rounds.value first down k) =
      loopFrom (Rounds.counting counter first final down).start body times k := by
  induction times generalizing k with
  | zero =>
    rw [loopStepping, if_neg (Rounds.left_eq_zero hleft)]
    rfl
  | succ times ih =>
    obtain ⟨hgoesOn, hleft'⟩ := Rounds.left_eq_succ hleft
    rw [loopStepping, if_pos hgoesOn, loopFrom, Rounds.value_step]
    congr 1
    cases hnext : Number.fitsWord (Rounds.value first down (k + 1)) with
    | true => exact ih hnext hleft'
    | false =>
      rw [Rounds.left_of_not_fitsWord hfinal hvalue hleft hnext]
      rfl

/-! ## Counted loops -/

/-- **A counted loop makes the passes of its range.** Take a loop with bounds that are words, and
let `m'` be the machine that evaluating them leaves. The loop ends in the one way in which a run of
`rounds.number` passes from `m'` ends: normally after all of them, or as the first pass that does
not go on has it, with no pass after that one. If all passes go on, then as many have been made as
there are, and the loop ends normally. A counter is set to the value that is due before each pass,
whatever it was then, this value is a word, and stepping the counter within a word as long as it has
not gone past its final value is the same loop. The command for the loop carries out its body so. -/
theorem counted_loop_runs_range (invoke : Invoke) (fuel : Nat) (kind : LoopKind)
    (body : Action Flow) (rounds : Rounds) (m m' : Machine)
    (hbounds : rounds.BoundsOf invoke kind m m') (hwords : rounds.areWords = true) :
    (∀ r, runLoop invoke fuel kind body m = r ↔
      LoopRuns rounds.start body rounds.number m' r) ∧
    ((∀ k < rounds.number, ∀ m₁, Passes rounds.start body m' k m₁ →
        ∃ m₂, GoesOn (rounds.start k) body m₁ m₂) →
      ∃ m₁, Passes rounds.start body m' rounds.number m₁ ∧
        runLoop invoke fuel kind body m = .ok .normal m₁) ∧
    (∀ counter first final down, rounds = .counting counter first final down →
      (∀ k < rounds.number, Number.fitsWord (Rounds.value first down k) = true ∧
        ∀ m₁ m₂, Begins (rounds.start k) m₁ m₂ →
          m₂.lookup? counter = some (.ofInt (Rounds.value first down k))) ∧
      runLoop invoke fuel kind body m = loopStepping counter final down body first m') ∧
    ∀ statements, execCommand invoke fuel (.loop kind statements) m =
      runLoop invoke fuel kind (execBlock invoke fuel statements) m := by
  have hloop := runLoop_eq_loopFrom hbounds fuel body
  refine ⟨fun r => ?_, fun hgoesOn => ?_, ?_, fun statements => ?_⟩
  · rw [hloop, loopFrom_eq_iff rounds.start_atomic]
  · obtain ⟨m₁, hpasses⟩ := exists_passes_of_goesOn hgoesOn
    refine ⟨m₁, hpasses, ?_⟩
    rw [hloop, loopFrom_eq_iff rounds.start_atomic]
    exact .completed hpasses
  · rintro counter first final down rfl
    obtain ⟨hfirst, hfinal⟩ := Bool.and_eq_true_iff.1 hwords
    constructor
    · intro k hk
      refine ⟨Rounds.fitsWord_value hfirst hfinal hk, fun m₁ m₂ hbegins => ?_⟩
      exact Machine.lookup?_setVariable (Editing.result_eq_ok.2 hbegins.started)
    · have hstepping : loopStepping counter final down body (Rounds.value first down 0) =
          loopFrom (Rounds.counting counter first final down).start body
            (Rounds.left final down (Rounds.value first down 0)) 0 := by
        apply loopStepping_eq_loopFrom hfinal _ rfl
        rwa [Rounds.value_zero]
      rw [Rounds.value_zero] at hstepping
      rw [hloop, hstepping]
      rfl
  · rw [execCommand]

theorem evalInteger_ofInt (invoke : Invoke) {n : Int} (h : Number.fitsWord n = true)
    (m : Machine) : evalInteger invoke (.ofInt n) m = .ok n m := by
  have hread : (Value.ofText (toString n)).numeric? = some (.whole n) := Numeric.read?_toString h
  have hinteger : (Value.ofText (toString n)).toInteger = .ok n := by
    rw [Value.toInteger, Value.whole?, hread]
    rfl
  rw [evalInteger, Expr.ofInt, evalExpr, pure_bind]
  show Action.ofExcept (Value.ofText (toString n)).toInteger m = _
  rw [hinteger]
  rfl

/-- Up to the largest word, with a body that sets the counter back each time: two passes. -/
theorem counted_loop_runs_range_largestWord :
    let body : Action Flow := do
      Action.edit (Machine.settingVariable ⟨"i"⟩ (.ofInt 0))
      return .nextRepeat
    let rounds := Rounds.counting ⟨"i"⟩ 9223372036854775806 9223372036854775807 false
    let kind := LoopKind.counting ⟨"i"⟩ (.ofInt 9223372036854775806) (.ofInt 9223372036854775807)
      false
    ∃ m m' : Machine, rounds.BoundsOf (invoke 0) kind m m ∧ rounds.areWords = true ∧
      rounds.number = 2 ∧ Passes rounds.start body m 2 m' ∧
      runLoop (invoke 0) 0 kind body m = .ok .normal m' := by
  intro body rounds kind
  let m : Machine := { context := { frames := CallStack.empty.push {} } }
  have hbounds : rounds.BoundsOf (invoke 0) kind m m :=
    .counting (evalInteger_ofInt _ (by decide) m) (evalInteger_ofInt _ (by decide) m)
  have hwords : rounds.areWords = true := by decide
  obtain ⟨m', hpasses⟩ : ∃ m', Passes rounds.start body m 2 m' := by
    refine ⟨_, .next (.next .none (.intro ⟨rfl, rfl⟩ rfl rfl)) (.intro ⟨rfl, rfl⟩ rfl rfl)⟩
  have hruns := (counted_loop_runs_range (invoke 0) 0 kind body rounds m m hbounds hwords).1
  exact ⟨m, m', hbounds, hwords, rfl, hpasses, (hruns _).2 (.completed hpasses)⟩

end CardScript
