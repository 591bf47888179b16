import CardScript.Part.Access
import CardScript.Proofs.Stack.Editing

/-!
# Reachable stacks

The stacks a program can come by: snapshots are opened, cards are made, shown and removed, and
texts and properties are written. Writing keeps the outline of a stack, so everything that holds of
outlines carries over from edits. Scripts do nothing else to the stacks of a world
(`World.Change.leads`), so stacks stay reachable in every run (`Machine.Course.reachable`).
-/

namespace CardScript

namespace Stack

/-- One change of a stack. -/
inductive Step : Stack → Stack → Prop
  | edit (e : Edit) : e.apply s = .ok t → Step s t
  | contents : s.setContents f value = .ok t → Step s t
  | property : s.setProperty f key value = .ok t → Step s t

/-- Any number of changes of a stack. -/
inductive Leads (s : Stack) : Stack → Prop
  | refl : Leads s s
  | step : Leads s t → Step t u → Leads s u

/-- Opened and then changed. -/
def Reachable (t : Stack) : Prop :=
  ∃ (snapshot : StackSnapshot) (s : Stack), snapshot.toStack = .ok s ∧ s.Leads t

variable {s t : Stack}

/-! ## Writing -/

theorem Orderly.outline_setContents (hs : s.Orderly) (h : s.setContents f value = .ok t) :
    t.outline = s.outline := by
  rw [setContents_eq] at h
  split at h
  · split at h
    next p hp =>
      obtain ⟨q, hq, h⟩ := Failure.bind_eq_ok.1 h
      cases h
      exact hs.outline_withPart (part?_eq_some hp).1 (Part.outline_setText hq)
    next => cases h
  · cases h

theorem Orderly.outline_withTable (hs : s.Orderly) (table : PropertyTable) (r : PartRef) :
    (s.withTable table r).outline = s.outline := by
  cases r with
  | stack => rfl
  | card id =>
    simp only [withTable]
    split
    next c hc => exact hs.outline_withCard (card?_eq_some hc).1 rfl
    next => rfl
  | background id =>
    simp only [withTable]
    split
    next b hb => exact hs.outline_withBackground (background?_eq_some hb).1 rfl
    next => rfl
  | part kind layer id =>
    simp only [withTable]
    split
    next p hp => exact hs.outline_withPart (part?_eq_some hp).1 rfl
    next => rfl

theorem Orderly.outline_setProperty (hs : s.Orderly) (h : s.setProperty f key value = .ok t) :
    t.outline = s.outline := by
  simp only [setProperty_eq] at h
  split at h
  · cases h
  split at h
  · exact hs.outline_setContents h
  obtain ⟨before, _, h⟩ := Failure.bind_eq_ok.1 h
  obtain ⟨table, _, h⟩ := Failure.bind_eq_ok.1 h
  cases h
  exact hs.outline_withTable table f.part

theorem Precedes.of_outline_eq (h : t.outline = s.outline) : s.Precedes t := by
  have hnext : t.outline.nextId = s.outline.nextId := by rw [h]
  refine ⟨Nat.le_of_eq hnext.symm, fun c hc => .inl ?_, fun b hb => .inl ?_⟩
  · have hmem : c.outline ∈ s.outline.cards := h ▸ List.mem_map_of_mem hc
    exact List.mem_map.1 hmem
  · have hmem : b.outline ∈ s.outline.backgrounds := h ▸ List.mem_map_of_mem hb
    exact List.mem_map.1 hmem

/-! ## Runs -/

theorem Coherent.step (hs : s.Coherent) (h : s.Step t) : t.Coherent ∧ s.Precedes t := by
  cases h with
  | edit e h => exact ⟨(hs.apply h).coherent, (hs.apply h).precedes⟩
  | contents h =>
    have houtline := hs.toOrderly.outline_setContents h
    exact ⟨hs.of_outline_eq houtline, .of_outline_eq houtline⟩
  | property h =>
    have houtline := hs.toOrderly.outline_setProperty h
    exact ⟨hs.of_outline_eq houtline, .of_outline_eq houtline⟩

theorem Coherent.leads (hs : s.Coherent) (h : s.Leads t) : t.Coherent ∧ s.Precedes t := by
  induction h with
  | refl => exact ⟨hs, .refl⟩
  | step _ hstep ih =>
    obtain ⟨ht, hst⟩ := ih
    obtain ⟨hu, htu⟩ := ht.step hstep
    exact ⟨hu, hst.trans htu⟩

theorem Leads.trans {u : Stack} (hst : s.Leads t) (htu : t.Leads u) : s.Leads u := by
  induction htu with
  | refl => exact hst
  | step _ hstep ih => exact ih.step hstep

theorem Reachable.leads (hs : s.Reachable) (h : s.Leads t) : t.Reachable := by
  obtain ⟨snapshot, s₀, hopen, hleads⟩ := hs
  exact ⟨snapshot, s₀, hopen, hleads.trans h⟩

theorem Reachable.coherent (hs : s.Reachable) : s.Coherent := by
  obtain ⟨snapshot, s₀, hopen, hleads⟩ := hs
  exact ((StackSnapshot.toStack_coherent hopen).leads hleads).1

/-! ## How far the counter of identifiers goes -/

/-- So many changes of a stack, one after another. -/
inductive Changes (s : Stack) : Nat → Stack → Prop
  | none : Changes s 0 s
  | next {n : Nat} {t u : Stack} : Changes s n t → Step t u → Changes s (n + 1) u

theorem leads_iff_changes : s.Leads t ↔ ∃ n, s.Changes n t := by
  constructor
  · intro h
    induction h with
    | refl => exact ⟨0, .none⟩
    | step _ hstep ih =>
      obtain ⟨n, hchanges⟩ := ih
      exact ⟨n + 1, hchanges.next hstep⟩
  · rintro ⟨n, h⟩
    induction h with
    | none => exact .refl
    | next _ hstep ih => exact ih.step hstep

theorem Orderly.nextId_step_le (hs : s.Orderly) (h : s.Step t) : t.nextId ≤ s.nextId + 2 := by
  cases h with
  | edit e h => exact nextId_apply_le h
  | contents h =>
    have hnext := congrArg (·.nextId) (hs.outline_setContents h)
    exact Nat.le_trans (Nat.le_of_eq hnext) (Nat.le_add_right ..)
  | property h =>
    have hnext := congrArg (·.nextId) (hs.outline_setProperty h)
    exact Nat.le_trans (Nat.le_of_eq hnext) (Nat.le_add_right ..)

theorem Coherent.nextId_changes_le (hs : s.Coherent) {n : Nat} (h : s.Changes n t) :
    t.nextId ≤ s.nextId + 2 * n := by
  induction h with
  | none => exact Nat.le_refl _
  | @next n t u hchanges hstep ih =>
    have ht := (hs.leads (leads_iff_changes.2 ⟨n, hchanges⟩)).1
    calc u.nextId
      _ ≤ t.nextId + 2 := ht.toOrderly.nextId_step_le hstep
      _ ≤ s.nextId + 2 * n + 2 := Nat.add_le_add_right ih 2
      _ = s.nextId + 2 * (n + 1) := by rw [Nat.mul_succ, Nat.add_assoc]

/-- The counter of identifiers does not run ahead of what was made: one identifier for each
component of the snapshot, and two at most for each change since. -/
theorem nextId_le_of_changes {snapshot : StackSnapshot} (hopen : snapshot.toStack = .ok s) {n : Nat}
    (h : s.Changes n t) :
    t.nextId ≤ 100 + snapshot.size + 2 * n ∧ ∀ id ∈ t.ids, id < 100 + snapshot.size + 2 * n := by
  have hs := StackSnapshot.toStack_coherent hopen
  have hle := hs.nextId_changes_le h
  rw [StackSnapshot.nextId_toStack hopen] at hle
  have ht := (hs.leads (leads_iff_changes.2 ⟨n, h⟩)).1
  exact ⟨hle, fun id hid => Nat.lt_of_lt_of_le (ht.ids_lt id hid) hle⟩

/-! ## What identifiers stand for -/

/-- A card of the earlier stack keeps its background and its parts. -/
theorem Precedes.card_outline_eq (hs : s.Orderly) (h : s.Precedes t) {c c' : Card}
    (hc : c ∈ s.cards) (hc' : c' ∈ t.cards) (hid : c'.id = c.id) : c'.outline = c.outline := by
  rcases h.cards c' hc' with ⟨c₀, hc₀, heq⟩ | hfresh
  · obtain ⟨hid₀, _⟩ := Card.of_outline_eq heq
    rw [← heq, hs.card_eq_of_id_eq hc₀ hc (hid₀.trans hid)]
  · have hlt := hs.ids_lt c.id (mem_ids_of_card hc List.mem_cons_self)
    exact absurd (hid ▸ hfresh c'.id List.mem_cons_self) (Nat.not_le_of_lt hlt)

theorem Precedes.parts (h : s.Precedes t) {p' : Part} (hp' : p' ∈ t.allParts) :
    (∃ p ∈ s.allParts, p.outline = p'.outline) ∨ s.nextId ≤ p'.id := by
  rcases mem_allParts.1 hp' with ⟨c, hc, hp'⟩ | ⟨b, hb, hp'⟩
  · rcases h.cards c hc with ⟨c₀, hc₀, heq⟩ | hfresh
    · have hmem : p'.outline ∈ c₀.outline.parts := heq ▸ List.mem_map_of_mem hp'
      obtain ⟨p, hp, hpp'⟩ := List.mem_map.1 hmem
      exact .inl ⟨p, mem_allParts.2 (.inl ⟨c₀, hc₀, hp⟩), hpp'⟩
    · exact .inr (hfresh p'.id (List.mem_cons_of_mem _ (List.mem_map_of_mem hp')))
  · rcases h.backgrounds b hb with ⟨b₀, hb₀, heq⟩ | hfresh
    · have hmem : p'.outline ∈ b₀.outline.parts := heq ▸ List.mem_map_of_mem hp'
      obtain ⟨p, hp, hpp'⟩ := List.mem_map.1 hmem
      exact .inl ⟨p, mem_allParts.2 (.inr ⟨b₀, hb₀, hp⟩), hpp'⟩
    · exact .inr (hfresh p'.id (List.mem_cons_of_mem _ (List.mem_map_of_mem hp')))

/-- A part of the earlier stack stays where it is. -/
theorem Precedes.part_outline_eq (hs : s.Orderly) (h : s.Precedes t) {p p' : Part}
    (hp : p ∈ s.allParts) (hp' : p' ∈ t.allParts) (hid : p'.id = p.id) :
    p'.outline = p.outline := by
  rcases h.parts hp' with ⟨p₀, hp₀, heq⟩ | hfresh
  · obtain ⟨hid₀, _⟩ := Part.of_outline_eq heq
    rw [← heq, hs.part_eq_of_id_eq hp₀ hp (hid₀.trans hid)]
  · exact absurd (hid ▸ hfresh) (Nat.not_le_of_lt (hs.ids_lt _ (mem_ids_of_part hp)))

end Stack

/-! ## Stacks in a run of scripts -/

theorem World.stack_withStack (w : World) (number other : Nat) (s : Stack) :
    (w.withStack number s).stack other = w.stack other ∨
      other = number ∧ (w.withStack number s).stack other = s := by
  simp only [World.stack, World.withStack, List.getElem?_set]
  split
  next heq =>
    split
    · exact .inr ⟨heq.symm, rfl⟩
    next hlength => exact .inl (by rw [List.getElem?_eq_none (by omega)])
  next => exact .inl rfl

theorem World.stack_withStack_self {w : World} (hnumber : number < w.allStacks.length)
    (s : Stack) : (w.withStack number s).stack number = s := by
  simp [stack, withStack, hnumber]

theorem World.leads_withStack {w : World} (h : (w.stack number).Step s) (other : Nat) :
    (w.stack other).Leads ((w.withStack number s).stack other) := by
  rcases w.stack_withStack number other s with heq | ⟨rfl, heq⟩
  · rw [heq]
    exact .refl
  · rw [heq]
    exact .step .refl h

/-- Whatever scripts do to the world, they change its stacks step by step. -/
theorem World.Change.leads {w w' : World} (h : World.Change w w') (number : Nat) :
    (w.stack number).Leads (w'.stack number) := by
  cases h with
  | property h =>
    obtain ⟨table, -, rfl, -⟩ := World.setProperty_eq_ok h
    exact .refl
  | contents h =>
    obtain ⟨s, hs, h⟩ := Failure.bind_eq_ok.1 h
    cases h
    exact leads_withStack (.contents hs) number
  | partProperty h =>
    obtain ⟨s, hs, h⟩ := Failure.bind_eq_ok.1 h
    cases h
    exact leads_withStack (.property hs) number
  | showCard h => exact leads_withStack (.edit (.showCard _) h) number
  | newCard h => exact leads_withStack (.edit .newCard (Edit.apply_newCard.2 ⟨_, h⟩)) number
  | newBackground => exact leads_withStack (.edit .newBackground rfl) number
  | deleteCard h => exact leads_withStack (.edit (.deleteCard _) h) number
  | _ => exact .refl

/-- In the course of every run stacks change step by step. -/
theorem Machine.Course.leads {m m' : Machine} (h : Course e m m') (number : Nat) :
    (m.world.stack number).Leads (m'.world.stack number) := by
  induction h with
  | trans _ _ ih₁ ih₂ => exact ih₁.trans ih₂
  | world h => exact h.leads number
  | call hpush _ ih =>
    obtain ⟨_, _, _, _, _, _, _, _, hworld⟩ := pushFrame_eq_ok hpush
    rw [hworld] at ih
    exact ih
  | send _ ih => exact ih
  | _ => exact .refl

/-- The stacks of a machine stay reachable in the course of every run. -/
theorem Machine.Course.reachable {m m' : Machine} (h : Course e m m') (number : Nat)
    (hs : (m.world.stack number).Reachable) : (m'.world.stack number).Reachable :=
  hs.leads (h.leads number)

end CardScript
