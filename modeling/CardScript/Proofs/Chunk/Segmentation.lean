import CardScript.Chunk.Reading

/-!
# Segments lie in order

Whatever the kind, the segments of a text follow one another inside it (`segments_inOrder`), and a
segment that does not count is the last one and empty (`isEmpty_of_counted_lt`). For items and
lines the first fact rests on splitting losing nothing: the pieces of a text, joined again, are the
text (`Text.joinWith_splitOn`).
-/

namespace CardScript

namespace Text

/-! ## Splitting and joining -/

theorem splitFrom_ne_nil (d : Char) (ds : List Char) (skip : Nat) (piece cs : List Char) :
    splitFrom d ds skip piece cs ≠ [] := by
  fun_induction splitFrom d ds skip piece cs <;> simp_all

theorem joinWith_cons {delimiter piece : List Char} {rest : List (List Char)} (h : rest ≠ []) :
    joinWith delimiter (piece :: rest) = piece ++ delimiter ++ joinWith delimiter rest := by
  cases rest with
  | nil => exact absurd rfl h
  | cons next rest => rfl

/-- The pieces of a split that is under way join to the piece begun and the text still to be
read. -/
theorem joinWith_splitFrom (d : Char) (ds : List Char) (skip : Nat) (piece cs : List Char) :
    joinWith (d :: ds) (splitFrom d ds skip piece cs) = piece.reverse ++ cs.drop skip := by
  fun_induction splitFrom d ds skip piece cs with
  | case1 skip piece => simp [joinWith]
  | case2 piece skip c cs ih => simpa using ih
  | case3 piece c cs hmatch ih =>
    -- the delimiter that was matched is what joining puts back
    obtain ⟨rest, hrest⟩ := List.isPrefixOf_iff_prefix.1 hmatch
    obtain ⟨rfl, rfl⟩ : d = c ∧ ds ++ rest = cs := by simpa using hrest
    rw [joinWith_cons (splitFrom_ne_nil _ _ _ _ _), ih]
    simp
  | case4 piece c cs hmatch ih => simpa using ih

theorem splitOn_ne_nil (delimiter cs : List Char) : splitOn delimiter cs ≠ [] := by
  cases delimiter with
  | nil => simp [splitOn]
  | cons d ds => exact splitFrom_ne_nil _ _ _ _ _

/-- Splitting loses nothing but the delimiters. -/
theorem joinWith_splitOn (delimiter cs : List Char) :
    joinWith delimiter (splitOn delimiter cs) = cs := by
  cases delimiter with
  | nil => rfl
  | cons d ds => exact joinWith_splitFrom d ds 0 [] cs

end Text

namespace Chunk

/-! ## Stretches that follow one another -/

/-- Stretches that lie one after the other, none of them reversed, from `lo` on and up to `hi`. -/
def InOrder (lo hi : Nat) : List Stretch → Prop
  | [] => lo ≤ hi
  | s :: rest => lo ≤ s.start ∧ s.start ≤ s.stop ∧ InOrder s.stop hi rest

namespace InOrder

variable {lo hi : Nat} {all : List Stretch}

theorem mono {lo' : Nat} (h : InOrder lo hi all) (hle : lo' ≤ lo) : InOrder lo' hi all := by
  cases all with
  | nil => exact Nat.le_trans hle h
  | cons s rest => exact ⟨Nat.le_trans hle h.1, h.2⟩

theorem le (h : InOrder lo hi all) : lo ≤ hi := by
  induction all generalizing lo with
  | nil => exact h
  | cons s rest ih =>
    obtain ⟨h₁, h₂, h₃⟩ := h
    have := ih h₃
    omega

theorem bounds {i : Nat} {s : Stretch} (h : InOrder lo hi all) (hs : all[i]? = some s) :
    lo ≤ s.start ∧ s.start ≤ s.stop ∧ s.stop ≤ hi := by
  induction all generalizing lo i with
  | nil => simp at hs
  | cons t rest ih =>
    obtain ⟨h₁, h₂, h₃⟩ := h
    cases i with
    | zero =>
      obtain rfl : t = s := by simpa using hs
      exact ⟨h₁, h₂, h₃.le⟩
    | succ i =>
      obtain ⟨h₄, h₅, h₆⟩ := ih h₃ (by simpa using hs)
      exact ⟨by omega, h₅, h₆⟩

/-- A later segment ends no earlier than an earlier one begins. -/
theorem start_le_stop {i j : Nat} {s t : Stretch} (h : InOrder lo hi all) (hij : i ≤ j)
    (hs : all[i]? = some s) (ht : all[j]? = some t) : s.start ≤ t.stop := by
  induction all generalizing lo i j with
  | nil => simp at hs
  | cons u rest ih =>
    obtain ⟨h₁, h₂, h₃⟩ := h
    cases i with
    | zero =>
      obtain rfl : u = s := by simpa using hs
      cases j with
      | zero =>
        obtain rfl : u = t := by simpa using ht
        exact h₂
      | succ j =>
        obtain ⟨h₄, h₅, _⟩ := h₃.bounds (show rest[j]? = some t by simpa using ht)
        omega
    | succ i =>
      obtain ⟨j, rfl⟩ : ∃ k, j = k + 1 := ⟨j - 1, by omega⟩
      exact ih (i := i) (j := j) h₃ (by omega) (by simpa using hs) (by simpa using ht)

end InOrder

/-! ## Each segmentation -/

theorem layOut_inOrder (delimiter : List Char) (width : List Char → Nat)
    (hwidth : ∀ piece, width piece ≤ piece.length) (pos : Nat) (piece : List Char)
    (rest : List (List Char)) :
    InOrder pos (pos + (Text.joinWith delimiter (piece :: rest)).length)
      (layOut delimiter.length width pos (piece :: rest)) := by
  induction rest generalizing pos piece with
  | nil =>
    have := hwidth piece
    simp only [layOut, InOrder, Text.joinWith]
    omega
  | cons next rest ih =>
    have hpiece := hwidth piece
    rw [layOut, Text.joinWith_cons (by simp)]
    refine ⟨Nat.le_refl _, Nat.le_add_right _ _, ?_⟩
    have htail := ih (pos + piece.length + delimiter.length) next
    simp only [List.length_append]
    rw [show pos + (piece.length + delimiter.length +
      (Text.joinWith delimiter (next :: rest)).length) = pos + piece.length + delimiter.length +
      (Text.joinWith delimiter (next :: rest)).length by omega]
    exact htail.mono (by show pos + width piece ≤ _; omega)

/-- Pieces of a split text fill the text. -/
theorem layOut_splitOn_inOrder (delimiter cs : List Char) (width : List Char → Nat)
    (hwidth : ∀ piece, width piece ≤ piece.length) :
    InOrder 0 cs.length (layOut delimiter.length width 0 (Text.splitOn delimiter cs)) := by
  obtain ⟨piece, rest, hsplit⟩ := List.exists_cons_of_ne_nil (Text.splitOn_ne_nil delimiter cs)
  have h := layOut_inOrder delimiter width hwidth 0 piece rest
  rwa [← hsplit, Text.joinWith_splitOn, Nat.zero_add] at h

theorem lineWidth_le (line : List Char) : lineWidth line ≤ line.length := by
  unfold lineWidth
  split <;> omega

theorem charSegments_inOrder (pos n : Nat) :
    InOrder pos (pos + n) ((List.range' pos n).map fun i => ⟨i, i + 1⟩) := by
  induction n generalizing pos with
  | zero => exact Nat.le_refl _
  | succ n ih =>
    have h := ih (pos + 1)
    rw [Nat.add_right_comm] at h
    exact ⟨Nat.le_refl _, Nat.le_succ _, h⟩

/-- The words still to be read lie after the start of the one being read. -/
theorem wordSegmentsFrom_inOrder (begun : Option Nat) (pos : Nat) (cs : List Char)
    (h : begun.getD pos ≤ pos) :
    InOrder (begun.getD pos) (pos + cs.length) (wordSegmentsFrom begun pos cs) := by
  fun_induction wordSegmentsFrom begun pos cs with
  | case1 pos start => exact ⟨Nat.le_refl _, h, Nat.le_refl _⟩
  | case2 pos => exact Nat.le_refl _
  | case3 pos c rest start hblank ih =>
    have hrest := ih (Nat.le_refl _)
    rw [Nat.add_right_comm] at hrest
    exact ⟨Nat.le_refl _, h, hrest.mono (Nat.le_succ _)⟩
  | case4 pos c rest hblank ih =>
    have hrest := ih (Nat.le_succ _)
    rwa [Nat.add_right_comm] at hrest
  | case5 begun pos c rest hblank hbegun ih =>
    have hle : begun.getD pos ≤ begun.getD (pos + 1) := by cases begun <;> simp
    have hrest := ih (by cases begun <;> simp_all; omega)
    rw [Nat.add_right_comm] at hrest
    exact hrest.mono hle

theorem segments_inOrder (kind : Kind) (delimiter cs : List Char) :
    InOrder 0 cs.length (segments kind delimiter cs) := by
  cases kind with
  | char =>
    have h := charSegments_inOrder 0 cs.length
    rwa [Nat.zero_add, ← List.range_eq_range'] at h
  | word =>
    have h := wordSegmentsFrom_inOrder none 0 cs (Nat.le_refl _)
    rwa [Nat.zero_add] at h
  | item => exact layOut_splitOn_inOrder delimiter cs _ fun _ => Nat.le_refl _
  | line => exact layOut_splitOn_inOrder ['\n'] cs _ lineWidth_le

/-! ## Segments that count -/

theorem counted_le (kind : Kind) (all : List Stretch) : counted kind all ≤ all.length := by
  cases kind with
  | char | word => exact Nat.le_refl _
  | item | line =>
    simp only [counted]
    split
    · split <;> omega
    · exact Nat.zero_le _

/-- All segments count, except the last one of items or lines if it is empty. -/
theorem isEmpty_of_counted_lt {kind : Kind} {all : List Stretch} {i : Nat} {s : Stretch}
    (hs : all[i]? = some s) (h : counted kind all ≤ i) : s.isEmpty = true := by
  have hi : i < all.length := (List.getElem?_eq_some_iff.1 hs).1
  cases kind with
  | char | word => exact absurd h (Nat.not_le.2 hi)
  | item | line =>
    simp only [counted] at h
    split at h
    case h_1 last hlast =>
      split at h
      case isTrue hempty =>
        rw [List.getLast?_eq_getElem?, show all.length - 1 = i by omega, hs] at hlast
        cases hlast
        exact hempty
      case isFalse => omega
    case h_2 hnone => simp_all

end Chunk

end CardScript
