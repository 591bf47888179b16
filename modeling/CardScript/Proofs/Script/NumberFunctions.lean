import CardScript.Proofs.Number.WholeDoubles
import CardScript.Proofs.Script.Aggregates
import CardScript.Proofs.Value.Identity
import CardScript.Proofs.Value.Integers

/-!
# Functions of whole numbers

The greatest and the least of several numbers are found by comparing doubles, and numbers are
rounded and truncated as doubles. Up to `2 ^ 53` this makes no difference to whole numbers. Beyond,
several of them share a double: the first one of those is taken for the greatest
(`extreme_foremost`), and rounding gives another one of those (`Number.text_ofInt`). The absolute
value alone is exact for all words.
-/

namespace CardScript

namespace Value

/-- A value that is read as a whole number. -/
structure ReadsWhole (v : Value) (n : ℤ) : Prop where
  built : v.Built
  numeric_eq : v.numeric? = some (.whole n)

namespace ReadsWhole

variable {v w : Value} {n k : ℤ}

theorem read?_eq (h : v.ReadsWhole n) : Numeric.read? v.text = some (.whole n) := by
  rcases h.built.cases_double with hread | ⟨x, -, hreal, -⟩
  · exact hread.symm.trans h.numeric_eq
  · cases hreal.symm.trans h.numeric_eq

theorem fitsWord (h : v.ReadsWhole n) : Number.fitsWord n = true :=
  (Numeric.read?_eq_whole_iff.1 h.read?_eq).2

theorem isNumeral (h : v.ReadsWhole n) : v.IsNumeral where
  numeric_eq := h.numeric_eq.trans h.read?_eq.symm
  isNumber := by rw [isNumber, h.numeric_eq, Option.isSome_some]

theorem reading_eq (h : v.ReadsWhole n) : Builtin.reading v = Float.ofInt n := by
  rw [Builtin.reading, h.numeric_eq]
  rfl

theorem order_eq (hv : v.ReadsWhole n) (hw : w.ReadsWhole k) : v.order w = compare n k := by
  simp only [order, hv.numeric_eq, hw.numeric_eq]

theorem unique (h : v.ReadsWhole n) (h' : v.ReadsWhole k) : n = k := by
  cases h.numeric_eq.symm.trans h'.numeric_eq
  rfl

end ReadsWhole

end Value

namespace Builtin

open Value Number

/-! ## The greatest and the least -/

/-- The first of the finite numbers that rank highest becomes the champion. -/
theorem champion_first {α : Type} [LinearOrder α] {rank : Float → α}
    {beats : Float → Float → Bool}
    (hbeats : ∀ x y, Number.isFinite x = true → Number.isFinite y = true →
      (beats x y = true ↔ rank y < rank x))
    {v : Value} {rest : List Value}
    (hfinite : ∀ u ∈ v :: rest, Number.isFinite (reading u) = true) :
    ∃ before after, v :: rest = before ++ champion beats v rest :: after ∧
      (∀ u ∈ before, rank (reading u) < rank (reading (champion beats v rest))) ∧
      ∀ u ∈ after, rank (reading u) ≤ rank (reading (champion beats v rest)) := by
  induction rest generalizing v with
  | nil => exact ⟨[], [], rfl, nofun, nofun⟩
  | cons w rest ih =>
    simp only [List.forall_mem_cons] at hfinite ih
    obtain ⟨hv, hw, hrest⟩ := hfinite
    have hiff := hbeats _ _ hw hv
    rw [champion]
    split
    next hwins =>
      obtain ⟨before, after, hsplit, hbefore, hafter⟩ := ih ⟨hw, hrest⟩
      generalize champion beats w rest = c at hsplit hbefore hafter ⊢
      have hlt := hiff.1 hwins
      refine ⟨v :: before, after, congrArg (v :: ·) hsplit, ?_, hafter⟩
      refine List.forall_mem_cons.2 ⟨?_, hbefore⟩
      -- the second value is the champion, or loses to it in turn
      cases before with
      | nil =>
        obtain ⟨rfl, -⟩ := List.cons.inj hsplit
        exact hlt
      | cons b before =>
        obtain ⟨rfl, -⟩ := List.cons.inj hsplit
        exact hlt.trans (hbefore w List.mem_cons_self)
    next hloses =>
      obtain ⟨before, after, hsplit, hbefore, hafter⟩ := ih ⟨hv, hrest⟩
      generalize champion beats v rest = c at hsplit hbefore hafter ⊢
      have hle := not_lt.1 (mt hiff.2 hloses)
      cases before with
      | nil =>
        obtain ⟨rfl, rfl⟩ := List.cons.inj hsplit
        exact ⟨[], w :: rest, rfl, nofun, List.forall_mem_cons.2 ⟨hle, hafter⟩⟩
      | cons b before =>
        obtain ⟨rfl, rfl⟩ := List.cons.inj hsplit
        obtain ⟨hfirst, hbefore⟩ := List.forall_mem_cons.1 hbefore
        refine ⟨v :: w :: before, after, rfl, ?_, hafter⟩
        exact List.forall_mem_cons.2 ⟨hfirst, List.forall_mem_cons.2 ⟨hle.trans_lt hfirst, hbefore⟩⟩

/-- How an extreme is picked: by the order of doubles, which ranks words by their own order unless
they share a double. -/
structure Picks (beats : Float → Float → Bool) (rank : Float → ℚ) (o : Ordering) : Prop where
  beats_iff : ∀ x y, Number.isFinite x = true → Number.isFinite y = true →
    (beats x y = true ↔ rank y < rank x)
  rank_lt_iff : ∀ n k, fitsWord n = true → fitsWord k = true →
    (rank (Float.ofInt n) < rank (Float.ofInt k) ↔
      compare n k = o ∧ Float.ofInt n ≠ Float.ofInt k)

theorem picks_max : Picks (fun x y => y < x) denoted .lt where
  beats_iff x y hx hy := by
    rw [decide_eq_true_iff, lt_iff_denoted hy hx]
  rank_lt_iff n k hn hk := by
    rw [← lt_iff_denoted (isFinite_ofInt hn) (isFinite_ofInt hk), ofInt_lt_iff hn hk,
      compare_lt_iff_lt]

theorem picks_min : Picks (fun x y => x < y) (fun x => -denoted x) .gt where
  beats_iff x y hx hy := by
    rw [decide_eq_true_iff, lt_iff_denoted hx hy, neg_lt_neg_iff]
  rank_lt_iff n k hn hk := by
    rw [neg_lt_neg_iff, ← lt_iff_denoted (isFinite_ofInt hk) (isFinite_ofInt hn),
      ofInt_lt_iff hk hn, compare_gt_iff_gt, ne_comm]

/-- The first of those values whose double is the extreme one. Values before it stand to it in the
order `o`, and none after it stands to it in the opposite order unless it shares the double. -/
def Foremost (o : Ordering) (args : List Value) (v : Value) : Prop :=
  ∃ before after, args = before ++ v :: after ∧
    (∀ u ∈ before, u.order v = o ∧ reading u ≠ reading v) ∧
    ∀ u ∈ after, u.order v ≠ o.swap ∨ reading u = reading v

section

variable {beats : Float → Float → Bool} {rank : Float → ℚ} {o : Ordering}

theorem Picks.lt_iff (h : Picks beats rank o) {u v : Value} {n k : ℤ} (hu : u.ReadsWhole n)
    (hv : v.ReadsWhole k) :
    rank (reading u) < rank (reading v) ↔ u.order v = o ∧ reading u ≠ reading v := by
  rw [hu.reading_eq, hv.reading_eq, hu.order_eq hv]
  exact h.rank_lt_iff n k hu.fitsWord hv.fitsWord

theorem Picks.le_iff (h : Picks beats rank o) {u v : Value} {n k : ℤ} (hu : u.ReadsWhole n)
    (hv : v.ReadsWhole k) :
    rank (reading u) ≤ rank (reading v) ↔ u.order v ≠ o.swap ∨ reading u = reading v := by
  have hswap : v.order u = o ↔ u.order v = o.swap := by
    have horiented : compare k n = (compare n k).swap := Std.OrientedCmp.eq_swap
    rw [hv.order_eq hu, hu.order_eq hv, horiented, Ordering.swap_eq_iff_eq_swap]
  rw [← not_lt, h.lt_iff hv hu, hswap, Classical.not_and_iff_not_or_not, not_not,
    eq_comm (a := reading v)]

theorem extreme_eq {function : String} {args : List Value} {v : Value} {rest : List Value}
    (hlisted : listed args = v :: rest) (hnumbers : ∀ u ∈ v :: rest, u.isNumber = true) :
    extreme function beats args = .ok (champion beats v rest) := by
  rw [extreme, numbers_of_isNumber function (hlisted ▸ hnumbers), hlisted]
  exact best_eq function beats hnumbers

/-- Of several whole numbers, the first of those with the extreme double is picked. A single one is
given back without the blanks around it. -/
theorem extreme_foremost (h : Picks beats rank o) (function : String) {args : List Value}
    (hne : args ≠ []) (hargs : ∀ u ∈ args, ∃ n, u.ReadsWhole n) :
    ∃ v answer, extreme function beats args = .ok answer ∧
      (answer = v ∨ args = [v] ∧ answer = v.stripped) ∧ Foremost o args v := by
  have hnumerals (u : Value) (hu : u ∈ args) : u.IsNumeral := by
    obtain ⟨n, hn⟩ := hargs u hu
    exact hn.isNumeral
  match args with
  | [v] =>
    have hv := hnumerals v List.mem_cons_self
    refine ⟨v, v.stripped, extreme_eq (listed_singleton hv) ?_, .inr ⟨rfl, rfl⟩, ?_⟩
    · exact fun u hu => List.mem_singleton.1 hu ▸ hv.stripped.isNumber
    · exact ⟨[], [], rfl, nofun, nofun⟩
  | v :: w :: rest =>
    have hfinite (u : Value) (hu : u ∈ v :: w :: rest) : Number.isFinite (reading u) = true := by
      obtain ⟨n, hn⟩ := hargs u hu
      rw [hn.reading_eq]
      exact isFinite_ofInt hn.fitsWord
    have hanswer : extreme function beats (v :: w :: rest) = .ok (champion beats v (w :: rest)) :=
      extreme_eq rfl fun u hu => (hnumerals u hu).isNumber
    refine ⟨_, _, hanswer, .inl rfl, ?_⟩
    obtain ⟨before, after, hsplit, hbefore, hafter⟩ := champion_first h.beats_iff hfinite
    generalize champion beats v (w :: rest) = c at hsplit hbefore hafter ⊢
    rw [hsplit] at hargs ⊢
    obtain ⟨hbefore', hargs⟩ := List.forall_mem_append.1 hargs
    obtain ⟨⟨k, hk⟩, hafter'⟩ := List.forall_mem_cons.1 hargs
    refine ⟨before, after, rfl, fun u hu => ?_, fun u hu => ?_⟩
    · obtain ⟨n, hn⟩ := hbefore' u hu
      exact (h.lt_iff hn hk).1 (hbefore u hu)
    · obtain ⟨n, hn⟩ := hafter' u hu
      exact (h.le_iff hn hk).1 (hafter u hu)

/-- Up to `2 ^ 53` no value is beyond the one that is picked. -/
theorem Foremost.exact {args : List Value} {v : Value} (h : Foremost o args v) (ho : o ≠ .eq)
    (hargs : ∀ u ∈ args, ∃ n, u.ReadsWhole n ∧ n.natAbs ≤ 2 ^ 53) :
    ∀ u ∈ args, u.order v ≠ o.swap := by
  obtain ⟨before, after, rfl, hbefore, hafter⟩ := h
  have hswap : o ≠ o.swap ∧ .eq ≠ o.swap := by
    cases o with
    | lt => decide
    | eq => exact absurd rfl ho
    | gt => decide
  have hsame (u : Value) (hu : u ∈ before ++ v :: after) (heq : reading u = reading v) :
      u.order v ≠ o.swap := by
    obtain ⟨n, hn, hsmall⟩ := hargs u hu
    obtain ⟨k, hk, hsmall'⟩ := hargs v (List.mem_append_right _ List.mem_cons_self)
    rw [hn.reading_eq, hk.reading_eq] at heq
    have hcast : (n : ℚ) = k := by
      rw [← denoted_ofInt_of_le hsmall, heq, denoted_ofInt_of_le hsmall']
    obtain rfl : n = k := by exact_mod_cast hcast
    rw [hn.order_eq hk, compare_eq_iff_eq.2 rfl]
    exact hswap.2
  intro u hu
  rcases List.mem_append.1 hu with hu' | hu'
  · rw [(hbefore u hu').1]
    exact hswap.1
  · rcases List.mem_cons.1 hu' with rfl | hu'
    · exact hsame u hu rfl
    · exact (hafter u hu').elim id (hsame u hu)

end

/-- The functions that pick an extreme, with the order in which all others stand to it. -/
def extremes : List (Builtin × Ordering) :=
  [(max, .lt), (min, .gt)]

theorem exists_picks {b : Builtin} {o : Ordering} (h : (b, o) ∈ extremes) :
    b ∈ aggregates ∧ o ≠ .eq ∧ ∃ beats rank, Picks beats rank o ∧
      ∀ m args, b.run m args = extreme b.key beats args := by
  simp only [extremes, List.mem_cons, List.not_mem_nil, or_false] at h
  rcases h with h | h
  · obtain ⟨rfl, rfl⟩ := Prod.mk.inj h
    exact ⟨by decide, by decide, _, _, picks_max, fun _ _ => rfl⟩
  · obtain ⟨rfl, rfl⟩ := Prod.mk.inj h
    exact ⟨by decide, by decide, _, _, picks_min, fun _ _ => rfl⟩

/-! ## Absolute values and rounding -/

section

variable {v : Value} {n : ℤ}

theorem absolute_whole (h : v.ReadsWhole n) (hfits : fitsWord n.natAbs = true) :
    absolute v = .ok (.ofInt n.natAbs) := by
  simp only [absolute, h.numeric_eq, word?_of_fitsWord hfits]

theorem applied_whole (h : v.ReadsWhole n) {f : Float → Float}
    (hf : f (Float.ofInt n) = Float.ofInt n) (function : String) :
    (do return Value.ofFloat (f (← number function v))) =
      (.ok (.ofFloat (Float.ofInt n)) : Except Failure Value) := by
  rw [number_eq h.numeric_eq]
  show Except.ok (Value.ofFloat (f (Float.ofInt n))) = _
  rw [hf]

/-- A whole number is rounded and truncated to its double. -/
theorem rounded_whole (h : v.ReadsWhole n) {b : Builtin} (hb : b ∈ [round, trunc]) (name : String)
    (m : Machine) : b.call name m [v] = .ok (.ofFloat (Float.ofInt n)) := by
  obtain ⟨k, hk, -⟩ := exists_denoted_ofInt h.fitsWord
  have hfinite := isFinite_ofInt h.fitsWord
  simp only [List.mem_cons, List.not_mem_nil, or_false] at hb
  rcases hb with rfl | rfl
  · exact applied_whole h (roundHalfAway_eq_self hfinite hk) "round"
  · exact applied_whole h (truncate_eq_self hfinite hk) "trunc"

end

/-- **Functions of whole numbers.** The greatest and the least of whole numbers are the first of
those that share the extreme double; up to `2 ^ 53` this is the extreme number. The absolute value
is exact if it fits a word. Rounding and truncation give a whole number of the same double: the
number itself up to `2 ^ 53`, and an even one after that. -/
theorem number_functions_whole (name : String) (m : Machine) :
    (∀ b o, (b, o) ∈ extremes → ∀ args ≠ [], (∀ u ∈ args, ∃ n, u.ReadsWhole n) →
      ∃ v answer, b.call name m args = .ok answer ∧
        (answer = v ∨ args = [v] ∧ answer = v.stripped) ∧ Foremost o args v ∧
        ((∀ u ∈ args, ∀ n, u.ReadsWhole n → n.natAbs ≤ 2 ^ 53) →
          ∀ u ∈ args, u.order v ≠ o.swap)) ∧
    ∀ v n, v.ReadsWhole n →
      (fitsWord n.natAbs = true → GivesInteger (abs.call name m [v]) n.natAbs) ∧
      ∀ b ∈ [round, trunc], ∃ answer k, b.call name m [v] = .ok answer ∧
        answer.text = toString k ∧ Float.ofInt k = Float.ofInt n ∧
        (n.natAbs ≤ 2 ^ 53 → k = n) ∧ (2 ^ 53 < n.natAbs → 2 ∣ k) := by
  refine ⟨fun b o hb args hne hargs => ?_, fun v n hv => ⟨fun hfits => ?_, fun b hb => ?_⟩⟩
  · obtain ⟨haggregate, ho, beats, rank, hpicks, hrun⟩ := exists_picks hb
    obtain ⟨v, answer, hextreme, hanswer, hforemost⟩ := extreme_foremost hpicks b.key hne hargs
    refine ⟨v, answer, ?_, hanswer, hforemost, fun hsmall => hforemost.exact ho fun u hu => ?_⟩
    · rw [call_eq_run haggregate hne, hrun, hextreme]
    · obtain ⟨n, hn⟩ := hargs u hu
      exact ⟨n, hn, hsmall u hu n hn⟩
  · have habs : abs.call name m [v] = .ok (.ofInt n.natAbs) := absolute_whole hv hfits
    rw [habs]
    exact givesInteger_ofInt _
  · obtain ⟨k, htext, hdouble, hsmall, hlarge⟩ := text_ofInt hv.fitsWord
    exact ⟨_, k, rounded_whole hv hb name m, htext, hdouble, hsmall, hlarge⟩

/-- The greatest of a negative number and `2 ^ 53`, the absolute value of the word after the least
one, and the even number that the one after `2 ^ 53` is rounded to. -/
theorem number_functions_whole_large :
    let args := [ofText "-3", ofText " 9007199254740992 "]
    (∃ v answer, max.call "max" default args = .ok answer ∧
      (answer = v ∨ args = [v] ∧ answer = v.stripped) ∧ Foremost .lt args v ∧
      ∀ u ∈ args, u.order v ≠ .gt) ∧
    GivesInteger (abs.call "abs" default [ofText "-9223372036854775807"]) 9223372036854775807 ∧
    ∃ answer k, round.call "round" default [ofText "9007199254740993"] = .ok answer ∧
      answer.text = toString k ∧ Float.ofInt k = Float.ofInt 9007199254740993 ∧ 2 ∣ k := by
  intro args
  have hthree : (ofText "-3").ReadsWhole (-3) := ⟨.text _, rfl⟩
  have hpower : (ofText " 9007199254740992 ").ReadsWhole 9007199254740992 := ⟨.text _, rfl⟩
  have hnext : (ofText "9007199254740993").ReadsWhole 9007199254740993 := ⟨.text _, rfl⟩
  have hword : (ofText "-9223372036854775807").ReadsWhole (-9223372036854775807) :=
    ⟨.text _, rfl⟩
  have hargs : ∀ u ∈ args, ∃ n, u.ReadsWhole n ∧ n.natAbs ≤ 2 ^ 53 := by
    simp only [args, List.forall_mem_cons]
    exact ⟨⟨_, hthree, by decide⟩, ⟨_, hpower, by decide⟩, List.forall_mem_nil _⟩
  have hsmall (u : Value) (hu : u ∈ args) (n : ℤ) (hn : u.ReadsWhole n) : n.natAbs ≤ 2 ^ 53 := by
    obtain ⟨k, hk, hle⟩ := hargs u hu
    exact hn.unique hk ▸ hle
  obtain ⟨v, answer, hcall, hanswer, hforemost, hexact⟩ :=
    (number_functions_whole "max" default).1 max .lt (by decide) args (by simp [args])
      fun u hu => (hargs u hu).imp fun _ h => h.1
  obtain ⟨answer', k, hcall', htext, hdouble, -, heven⟩ :=
    ((number_functions_whole "round" default).2 _ _ hnext).2 round (by simp)
  refine ⟨⟨v, answer, hcall, hanswer, hforemost, hexact hsmall⟩, ?_, answer', k, hcall', htext,
    hdouble, heven (by decide)⟩
  exact ((number_functions_whole "abs" default).2 _ _ hword).1 (by decide)

/-- The number after `2 ^ 53` has no double of its own: it is neither found to be the greatest nor
given back by rounding. -/
theorem number_functions_inexact :
    let first := ofText "9007199254740992"
    let second := ofText "9007199254740993"
    let answered (b : Builtin) (args : List Value) :=
      (b.call b.key default args).toOption.map Value.text
    first.ReadsWhole 9007199254740992 ∧ second.ReadsWhole 9007199254740993 ∧
      second.order first = .gt ∧ answered max [first, second] = some first.text ∧
      first.order second = .lt ∧ answered min [second, first] = some second.text ∧
      answered round [second] = some first.text ∧ answered trunc [second] = some first.text := by
  intro first second answered
  have hfirst : (ofText "9007199254740992").ReadsWhole 9007199254740992 := ⟨.text _, rfl⟩
  have hsecond : (ofText "9007199254740993").ReadsWhole 9007199254740993 := ⟨.text _, rfl⟩
  refine ⟨hfirst, hsecond, ?_, by decide +kernel, ?_, by decide +kernel, by decide +kernel,
    by decide +kernel⟩
  · rw [hsecond.order_eq hfirst]
    decide
  · rw [hfirst.order_eq hsecond]
    decide

end Builtin

end CardScript
