import CardScript.Proofs.Chunk.Rows
import CardScript.Proofs.Number.Numerals
import CardScript.Proofs.Script.Course
import Mathlib.Data.List.Basic

/-!
# Messages written out as text

A message with its arguments can be written as one text: its name, a blank, and the arguments with
commas between them (`messageText`). Such a text is taken apart again into the same name and the
same arguments (`parseMessage_messageText`), as long as nothing in it is lost to trimming: the name
is one word, and no argument has blanks at its ends. A single empty argument is lost, since all that
would be left of it is the blank after the name. To send the text is then the same action as to give
the message in a line of its own (`send_eq_message`).
-/

namespace CardScript

namespace Text

/-- A text that neither begins nor ends with a blank. -/
structure Trimmed (cs : List Char) : Prop where
  head : ∀ c ∈ cs.head?, isBlank c = false
  last : ∀ c ∈ cs.getLast?, isBlank c = false

theorem dropWhile_isBlank {cs : List Char} (h : ∀ c ∈ cs.head?, isBlank c = false) :
    cs.dropWhile isBlank = cs := by
  cases cs with
  | nil => rfl
  | cons c rest =>
    apply List.dropWhile_cons_of_neg
    rw [h c rfl]
    exact Bool.false_ne_true

theorem Trimmed.trim_eq {cs : List Char} (h : Trimmed cs) : trim cs = cs := by
  have hlast : ∀ c ∈ cs.reverse.head?, isBlank c = false := by
    intro c hc
    apply h.last
    rwa [List.head?_reverse] at hc
  rw [trim, dropWhile_isBlank h.head, trimEnd, dropWhile_isBlank hlast, List.reverse_reverse]

/-- A joined text ends with a delimiter, or where its last piece ends. -/
theorem mem_getLast?_joinWith {d : Char} {pieces : List (List Char)} {c : Char}
    (hc : c ∈ (joinWith [d] pieces).getLast?) : c = d ∨ ∃ piece ∈ pieces, c ∈ piece.getLast? := by
  induction pieces with
  | nil => cases hc
  | cons piece rest ih =>
    by_cases hrest : rest = []
    · subst hrest
      exact .inr ⟨piece, List.mem_cons_self, hc⟩
    · rw [joinWith_cons hrest, List.append_assoc, List.singleton_append,
        List.getLast?_append_of_ne_nil _ (List.cons_ne_nil _ _)] at hc
      by_cases hjoined : joinWith [d] rest = []
      · rw [hjoined] at hc
        exact .inl (Option.some.inj hc).symm
      · rw [List.getLast?_cons_of_ne_nil hjoined] at hc
        apply (ih hc).imp_right
        rintro ⟨piece', hpiece', hlast⟩
        exact ⟨piece', List.mem_cons_of_mem _ hpiece', hlast⟩

/-- Only a single empty piece joins to nothing. -/
theorem joinWith_ne_nil {d : Char} {pieces : List (List Char)} (hne : pieces ≠ [])
    (hempty : pieces ≠ [[]]) : joinWith [d] pieces ≠ [] := by
  obtain ⟨piece, rest, rfl⟩ := List.exists_cons_of_ne_nil hne
  cases rest with
  | nil =>
    intro hnil
    apply hempty
    rw [← hnil]
    rfl
  | cons next rest =>
    rw [joinWith_cons (List.cons_ne_nil _ _)]
    intro hnil
    simp at hnil

end Text

/-- A message and its arguments in one text. -/
def messageText (name : String) (args : List String) : String :=
  if args.isEmpty then name
  else String.ofList (name.toList ++ ' ' :: Text.joinWith [','] (args.map String.toList))

/-- A name and arguments that can be told apart again once they are written in one text. -/
structure Sendable (name : String) (args : List String) : Prop where
  ne_empty : name ≠ ""
  one_word : ∀ c ∈ name.toList, Text.isBlank c = false
  no_comma : ∀ arg ∈ args, ',' ∉ arg.toList
  trimmed : ∀ arg ∈ args, Text.Trimmed arg.toList
  /-- Nothing would be left of a single empty argument. -/
  not_lost : args ≠ [""]

namespace Sendable

variable {name : String} {args : List String}

theorem toList_ne_nil (h : Sendable name args) : name.toList ≠ [] := by
  intro hnil
  apply h.ne_empty
  rw [← String.ofList_toList (s := name), hnil]

theorem joinWith_ne_nil (h : Sendable name args) (hargs : args ≠ []) :
    Text.joinWith [','] (args.map String.toList) ≠ [] := by
  apply Text.joinWith_ne_nil
  · intro hnil
    exact hargs (List.map_eq_nil_iff.1 hnil)
  · intro hsingle
    apply h.not_lost
    obtain ⟨arg, rfl⟩ := List.length_eq_one_iff.1 (by simpa using congrArg List.length hsingle)
    have harg : arg.toList = [] := by simpa using hsingle
    rw [← String.ofList_toList (s := arg), harg]

/-- A message in one text loses nothing at its ends. -/
theorem trimmed_messageText (h : Sendable name args) :
    Text.Trimmed (messageText name args).toList := by
  have hhead : ∀ c ∈ name.toList.head?, Text.isBlank c = false :=
    fun c hc => h.one_word c (List.mem_of_mem_head? hc)
  by_cases hargs : args = []
  · subst hargs
    exact ⟨hhead, fun c hc => h.one_word c (List.mem_of_mem_getLast? hc)⟩
  · have hjoined := h.joinWith_ne_nil hargs
    rw [messageText, if_neg (by simpa using hargs), String.toList_ofList]
    refine ⟨?_, ?_⟩
    · rw [List.head?_append_of_ne_nil _ h.toList_ne_nil]
      exact hhead
    · intro c hc
      rw [List.getLast?_append_of_ne_nil _ (List.cons_ne_nil _ _),
        List.getLast?_cons_of_ne_nil hjoined] at hc
      rcases Text.mem_getLast?_joinWith hc with rfl | ⟨piece, hpiece, hlast⟩
      · rfl
      · obtain ⟨arg, harg, rfl⟩ := List.mem_map.1 hpiece
        exact (h.trimmed arg harg).last c hlast

/-- The name ends at the first blank. -/
theorem span_name (h : Sendable name args) (rest : List Char) :
    (name.toList ++ ' ' :: rest).takeWhile (!Text.isBlank ·) = name.toList ∧
      (name.toList ++ ' ' :: rest).dropWhile (!Text.isBlank ·) = ' ' :: rest := by
  have hword : ∀ c ∈ name.toList, (!Text.isBlank c) = true := by
    intro c hc
    rw [h.one_word c hc]
    rfl
  have htake : (' ' :: rest).takeWhile (!Text.isBlank ·) = [] := rfl
  have hdrop : (' ' :: rest).dropWhile (!Text.isBlank ·) = ' ' :: rest := rfl
  rw [List.takeWhile_append_of_pos hword, List.dropWhile_append_of_pos hword, htake, hdrop,
    List.append_nil]
  exact ⟨rfl, rfl⟩

/-- The text of a message is taken apart into its name and its arguments. -/
theorem parseMessage_messageText (h : Sendable name args) :
    parseMessage (messageText name args) = (name, args.map Value.ofText) := by
  have htrim := h.trimmed_messageText.trim_eq
  by_cases hargs : args = []
  · subst hargs
    have hword : ∀ c ∈ name.toList, (!Text.isBlank c) = true := by
      intro c hc
      rw [h.one_word c hc]
      rfl
    have htake : name.toList.takeWhile (!Text.isBlank ·) = name.toList :=
      List.takeWhile_eq_self_iff.2 hword
    have hdrop : name.toList.dropWhile (!Text.isBlank ·) = [] :=
      List.dropWhile_eq_nil_iff.2 hword
    have htext : messageText name [] = name := rfl
    rw [htext] at htrim ⊢
    simp only [parseMessage, htrim, htake, hdrop, String.ofList_toList, List.map_nil]
  · obtain ⟨htake, hdrop⟩ := h.span_name (Text.joinWith [','] (args.map String.toList))
    have hsplit : Text.splitOn [','] (Text.joinWith [','] (args.map String.toList)) =
        args.map String.toList := by
      apply Text.splitOn_joinWith
      · intro hnil
        exact hargs (List.map_eq_nil_iff.1 hnil)
      · intro piece hpiece
        obtain ⟨arg, harg, rfl⟩ := List.mem_map.1 hpiece
        exact h.no_comma arg harg
    have hvalues : (args.map String.toList).map
        (fun arg => Value.ofText (String.ofList (Text.trim arg))) = args.map Value.ofText := by
      rw [List.map_map]
      apply List.map_congr_left
      intro arg harg
      rw [Function.comp_apply, (h.trimmed arg harg).trim_eq, String.ofList_toList]
    have htext : (messageText name args).toList =
        name.toList ++ ' ' :: Text.joinWith [','] (args.map String.toList) := by
      rw [messageText, if_neg (by simpa using hargs), String.toList_ofList]
    rw [htext] at htrim
    simp only [parseMessage, htext, htrim, htake, hdrop, hsplit, hvalues, String.ofList_toList]

end Sendable

/-- Literals are their own values, and looking at them changes nothing. -/
theorem evalArgs_literals (invoke : Invoke) (args : List String) :
    evalArgs invoke (args.map (Expr.literal · false)) = pure (args.map Value.ofText) := by
  induction args with
  | nil => rfl
  | cons arg rest ih =>
    simp only [List.map_cons, evalArgs, evalExpr, ih, pure_bind]
    rfl

/-- To send a text without a target is to give the message in it. -/
theorem sendText_messageText {name : String} {args : List String} (h : Sendable name args)
    (invoke : Invoke) (fuel : Nat) :
    sendText invoke (messageText name args) none =
      execCommand invoke fuel (.message ⟨name⟩ (args.map (.literal · false))) := by
  have hne : name.isEmpty = false := by
    rw [Bool.eq_false_iff]
    intro hempty
    exact h.ne_empty (String.isEmpty_iff.1 hempty)
  rw [execCommand, evalArgs_literals, pure_bind, sendText, h.parseMessage_messageText]
  simp only [hne, Bool.false_eq_true, if_false]

/-- **To send a message in a text is to give it in a line of its own.** Whatever the machine, a
`send` without a target of a name and its arguments, written in one text, quoted or not, ends as the
message with these arguments as literals does, and leaves the same machine behind. So does a `send`
of any expression with that text for its value, from the machine that evaluating it has left. -/
theorem send_eq_message (invoke : Invoke) (fuel : Nat) (name : String) (args : List String)
    (h : Sendable name args) :
    (∀ quoted : Bool,
      execCommand invoke fuel (.send (.literal (messageText name args) quoted) none) =
        execCommand invoke fuel (.message ⟨name⟩ (args.map (.literal · false)))) ∧
    ∀ (message : Expr) (v : Value) (m m' : Machine),
      evalExpr invoke message m = .ok v m' → v.text = messageText name args →
        execCommand invoke fuel (.send message none) m =
          execCommand invoke fuel (.message ⟨name⟩ (args.map (.literal · false))) m' := by
  have hsend := sendText_messageText h invoke fuel
  constructor
  · intro quoted
    rw [execCommand, evalExpr, pure_bind, ← hsend]
    cases quoted with
    | false => rfl
    | true => rfl
  · intro message v m m' hmessage htext
    rw [execCommand, Action.bind_apply_ok hmessage, htext, hsend]

/-- A name with three arguments, the first and the last of them empty and the second of two
words. -/
theorem send_eq_message_greeting :
    messageText "greet" ["", "dear world", ""] = "greet ,dear world," ∧
      ∀ (invoke : Invoke) (fuel : Nat),
        execCommand invoke fuel (.send (.literal "greet ,dear world," true) none) =
          execCommand invoke fuel (.message ⟨"greet"⟩
            [.literal "" false, .literal "dear world" false, .literal "" false]) := by
  have htext : messageText "greet" ["", "dear world", ""] = "greet ,dear world," := by
    decide +kernel
  have hsendable : Sendable "greet" ["", "dear world", ""] :=
    ⟨by decide, by simp [Text.isBlank], by simp, by
      simp only [List.forall_mem_cons]
      exact ⟨⟨by simp, by simp⟩, ⟨by simp [Text.isBlank], by simp [Text.isBlank]⟩,
        ⟨by simp, by simp⟩, by simp⟩, by simp⟩
  refine ⟨htext, fun invoke fuel => ?_⟩
  have hsend := (send_eq_message invoke fuel _ _ hsendable).1 true
  rw [htext] at hsend
  exact hsend

end CardScript
