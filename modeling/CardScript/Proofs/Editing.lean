import CardScript.Editing

/-!
# Edits that fail

An edit is atomic (`Editing.Atomic`) if it changes nothing when it fails. What only reads may come
before an atomic edit (`Editing.Reads.bind_atomic`), and what cannot fail is atomic
(`Editing.Total.atomic`), so checks and then a change are. A component may be edited for the whole
if putting it back unchanged changes nothing (`Editing.Atomic.within`). All that an atomic edit does
is told by its result.
-/

namespace CardScript.Editing

variable {σ τ α β : Type} {x : Editing σ α} {f : α → Editing σ β}

/-- Where the edit fails it has changed nothing. -/
def Atomic (x : Editing σ α) : Prop :=
  ∀ ⦃s failure t⦄, x s = .error failure t → t = s

/-- The edit changes nothing. -/
def Reads (x : Editing σ α) : Prop :=
  ∀ s, (∃ a, x s = .ok a s) ∨ ∃ failure, x s = .error failure s

/-- The edit does not fail. -/
def Total (x : Editing σ α) : Prop :=
  ∀ s, ∃ a t, x s = .ok a t

/-! ## Steps -/

theorem bind_ok {s t : σ} {a : α} (h : x s = .ok a t) : (x >>= f) s = f a t := by
  show EStateM.bind x f s = _
  rw [EStateM.bind, h]

theorem bind_error {s t : σ} {failure : Failure} (h : x s = .error failure t) :
    (x >>= f) s = .error failure t := by
  show EStateM.bind x f s = _
  rw [EStateM.bind, h]

theorem demand_of_ok {read : σ → Except Failure α} {s : σ} {a : α} (h : read s = .ok a) :
    demand read s = .ok a s := by
  show ofExcept (read s) s = _
  rw [h]
  rfl

theorem demand_of_error {read : σ → Except Failure α} {s : σ} {failure : Failure}
    (h : read s = .error failure) : demand read s = .error failure s := by
  show ofExcept (read s) s = _
  rw [h]
  rfl

theorem ofExcept_reads (r : Except Failure α) : Reads (ofExcept r : Editing σ α) := by
  intro s
  cases r with
  | ok a => exact .inl ⟨a, rfl⟩
  | error failure => exact .inr ⟨failure, rfl⟩

theorem demand_reads (read : σ → Except Failure α) : Reads (demand read) :=
  fun s => ofExcept_reads (read s) s

theorem throw_reads (failure : Failure) : Reads (throw failure : Editing σ α) :=
  fun _ => .inr ⟨failure, rfl⟩

theorem pure_total (a : α) : Total (pure a : Editing σ α) :=
  fun s => ⟨a, s, rfl⟩

theorem modify_total (change : σ → σ) : Total (modify change : Editing σ Unit) :=
  fun s => ⟨(), change s, rfl⟩

theorem modifyGet_total (change : σ → α × σ) : Total (modifyGet change : Editing σ α) :=
  fun s => ⟨(change s).1, (change s).2, rfl⟩

theorem Total.bind (hx : Total x) (hf : ∀ a, Total (f a)) : Total (x >>= f) := by
  intro s
  obtain ⟨a, t, hx⟩ := hx s
  obtain ⟨b, u, hf⟩ := hf a t
  exact ⟨b, u, (bind_ok hx).trans hf⟩

/-! ## Atomic edits -/

theorem Total.atomic (hx : Total x) : Atomic x := by
  intro s failure t h
  obtain ⟨a, u, hx⟩ := hx s
  cases hx.symm.trans h

theorem Reads.atomic (hx : Reads x) : Atomic x := by
  intro s failure t h
  obtain ⟨a, hx⟩ | ⟨failure', hx⟩ := hx s
  · cases hx.symm.trans h
  · cases hx.symm.trans h
    rfl

/-- Checks come before an atomic edit. -/
theorem Reads.bind_atomic (hx : Reads x) (hf : ∀ a, Atomic (f a)) : Atomic (x >>= f) := by
  intro s failure t h
  obtain ⟨a, hx⟩ | ⟨failure', hx⟩ := hx s
  · exact hf a ((bind_ok hx).symm.trans h)
  · cases (bind_error hx).symm.trans h
    rfl

theorem Atomic.within {component : σ → τ} {put : τ → σ → σ} {x : Editing τ α} (hx : Atomic x)
    (hput : ∀ s, put (component s) s = s) : Atomic (within component put x) := by
  intro s failure t h
  unfold Editing.within at h
  split at h
  · cases h
  next hfails =>
    cases h
    rw [hx hfails, hput]

/-- What cannot fail comes after an atomic edit. -/
theorem Atomic.bind_total (hx : Atomic x) (hf : ∀ a, Total (f a)) : Atomic (x >>= f) := by
  intro s failure t h
  cases hs : x s with
  | ok a u =>
    obtain ⟨b, v, hf⟩ := hf a u
    cases ((bind_ok hs).trans hf).symm.trans h
  | error failure' u =>
    cases (bind_error hs).symm.trans h
    exact hx hs

/-! ## Results -/

theorem result_eq_ok {x : Editing σ Unit} {s t : σ} : x.result s = .ok t ↔ x s = .ok () t := by
  rw [result]
  cases x s with
  | ok _ u =>
    constructor <;>
    · rintro ⟨⟩
      rfl
  | error failure u => constructor <;> nofun

theorem outcome_eq (x : Editing σ Unit) (s : σ) :
    x.outcome s = do return ((), ← x.result s) := by
  unfold outcome result
  cases x s with
  | ok | error => rfl

theorem result_eq_of_outcome {x : Editing σ Unit} {s t : σ} (h : x.outcome s = .ok ((), t)) :
    x.result s = .ok t := by
  rw [outcome_eq] at h
  obtain ⟨_, hresult, h⟩ := Failure.bind_eq_ok.1 h
  cases h
  exact hresult

theorem result_discard (x : Editing σ α) (s : σ) :
    (discard x).result s = do return (← x.outcome s).2 := by
  unfold result outcome
  cases hs : x s with
  | ok a t =>
    rw [show discard x s = .ok () t from bind_ok hs]
    rfl
  | error failure t =>
    rw [show discard x s = .error failure t from bind_error hs]
    rfl

theorem result_demand_bind (read : σ → Except Failure α) (f : α → Editing σ Unit) (s : σ) :
    (demand read >>= f).result s = read s >>= fun a => (f a).result s := by
  unfold result
  cases hread : read s with
  | ok a =>
    rw [bind_ok (demand_of_ok hread)]
    rfl
  | error failure =>
    rw [bind_error (demand_of_error hread)]
    rfl

theorem result_ofExcept_bind (r : Except Failure α) (f : α → Editing σ Unit) (s : σ) :
    (ofExcept r >>= f).result s = r >>= fun a => (f a).result s :=
  result_demand_bind (fun _ => r) f s

theorem result_within (component : σ → τ) (put : τ → σ → σ) (x : Editing τ Unit) (s : σ) :
    (within component put x).result s = do return put (← x.result (component s)) s := by
  unfold result Editing.within
  cases x (component s) with
  | ok | error => rfl

end CardScript.Editing
