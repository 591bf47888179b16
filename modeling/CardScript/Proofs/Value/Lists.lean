import CardScript.Proofs.Chunk.Listing
import Mathlib.Data.List.Basic

/-!
# Joining and splitting lists

A list is joined with a delimiter between its items, and a delimiter at the very end of a text
starts no new item. So a list comes back from its text unless its last item is empty
(`splitItems_joinWith`), and a text comes back from its items but for one delimiter at its end
(`joinWith_splitItems`).
-/

namespace CardScript

variable {d : Char}

/-- The last piece stands at the end of a joined text, with the others and their delimiters before
it. -/
theorem Text.joinWith_concat (front : List (List Char)) (last : List Char) :
    joinWith [d] (front ++ [last]) = front.flatMap (· ++ [d]) ++ last := by
  have hlast : (front ++ [last])[front.length]? = some last := by simp
  rw [joinWith_around hlast, List.take_left, List.drop_eq_nil_of_le (by simp)]
  simp

/-- Items that do not hold the delimiter come back as they were if the last one is not empty. -/
theorem splitItems_joinWith {pieces : List (List Char)} (h : ∀ piece ∈ pieces, d ∉ piece)
    (hlast : pieces.getLast? ≠ some []) : splitItems [d] (Text.joinWith [d] pieces) = pieces := by
  rcases List.eq_nil_or_concat' pieces with rfl | ⟨front, last, rfl⟩
  · rfl
  rw [List.getLast?_concat, Ne, Option.some_inj] at hlast
  obtain ⟨init, c, rfl⟩ := (List.eq_nil_or_concat' last).resolve_left hlast
  have hc : d ≠ c := by
    rintro rfl
    exact h (init ++ [d]) (by simp) (by simp)
  have hjoined := Text.joinWith_concat (d := d) front (init ++ [c])
  rw [← List.append_assoc] at hjoined
  have hnil : Text.joinWith [d] (front ++ [init ++ [c]]) ≠ [] := by
    rw [hjoined]
    exact List.append_ne_nil_of_right_ne_nil _ (List.cons_ne_nil c [])
  have hends : ¬ [d] <:+ Text.joinWith [d] (front ++ [init ++ [c]]) := by
    rw [hjoined]
    rintro ⟨before, hbefore⟩
    exact hc (List.singleton_injective (List.append_inj' hbefore rfl).2)
  rw [splitItems_eq (List.cons_ne_nil d []) hnil, Text.dropEnding?_eq_none hends, Option.getD_none,
    Text.splitOn_joinWith (by simp) h]

/-- Joining the items of a text gives the text back, without a delimiter at its end. -/
theorem joinWith_splitItems (d : Char) (cs : List Char) :
    Text.joinWith [d] (splitItems [d] cs) = (Text.dropEnding? [d] cs).getD cs := by
  by_cases hcs : cs = []
  · rw [hcs]
    rfl
  · rw [splitItems_eq (List.cons_ne_nil d []) hcs, Text.joinWith_splitOn]

namespace Value

variable {delimiter : String}

theorem items_joined (hdelimiter : delimiter.toList = [d]) {texts : List String}
    (h : ∀ t ∈ texts, d ∉ t.toList) (hlast : texts.getLast? ≠ some "") :
    (joined [d] (texts.map ofText)).items delimiter = texts.map ofText := by
  have hpieces : ∀ piece ∈ texts.map String.toList, d ∉ piece := by
    simpa using h
  have hlast' : (texts.map String.toList).getLast? ≠ some [] := by
    rw [List.getLast?_map]
    simpa using hlast
  have htexts : (texts.map ofText).map (fun v => v.text.toList) = texts.map String.toList := by
    rw [List.map_map]
    rfl
  rw [items, joined, htexts, hdelimiter, String.toList_ofList, splitItems_joinWith hpieces hlast',
    List.map_map]
  refine List.map_congr_left fun t _ => ?_
  simp

theorem text_joined_items (hdelimiter : delimiter.toList = [d]) (v : Value) :
    (joined [d] (v.items delimiter)).text.toList =
      (Text.dropEnding? [d] v.text.toList).getD v.text.toList := by
  have htexts : (v.items delimiter).map (fun v => v.text.toList) =
      splitItems [d] v.text.toList := by
    rw [items, List.map_map, hdelimiter]
    simp [Function.comp_def, ofText]
  rw [joined, htexts, String.toList_ofList, joinWith_splitItems]

/-- A delimiter at the end of a text is all that is lost when its items are joined again. -/
theorem text_joined_items_cases (hdelimiter : delimiter.toList = [d]) (v : Value) :
    (∀ s : String, v.text = s ++ delimiter → (joined [d] (v.items delimiter)).text = s) ∧
      (v.text.toList.getLast? ≠ some d → (joined [d] (v.items delimiter)).text = v.text) := by
  have htext := text_joined_items hdelimiter v
  refine ⟨fun s hs => String.toList_injective ?_, fun hends => String.toList_injective ?_⟩
  · rw [htext, hs, String.toList_append, hdelimiter, Text.dropEnding?_append, Option.getD_some]
  · have hsuffix : ¬ [d] <:+ v.text.toList := by
      rintro ⟨before, hbefore⟩
      rw [← hbefore, List.getLast?_concat] at hends
      exact hends rfl
    rw [htext, Text.dropEnding?_eq_none hsuffix, Option.getD_none]

/-- **Lists are joined and split without loss.** Texts without commas come back as the items of
their list if the last one is not empty, and texts without line breaks as its lines. The items of
any text join to the text again, but for one comma at its end, and its lines but for one line
break. -/
theorem joined_split_lossless :
    (∀ texts : List String, (∀ t ∈ texts, ',' ∉ t.toList) → texts.getLast? ≠ some "" →
      (ofItems (texts.map ofText)).items "," = texts.map ofText) ∧
    (∀ texts : List String, (∀ t ∈ texts, '\n' ∉ t.toList) → texts.getLast? ≠ some "" →
      (ofLines (texts.map ofText)).lines = texts.map ofText) ∧
    ∀ v : Value,
      ((∀ s : String, v.text = s ++ "," → (ofItems (v.items ",")).text = s) ∧
        (v.text.toList.getLast? ≠ some ',' → (ofItems (v.items ",")).text = v.text)) ∧
      (∀ s : String, v.text = s ++ "\n" → (ofLines v.lines).text = s) ∧
        (v.text.toList.getLast? ≠ some '\n' → (ofLines v.lines).text = v.text) := by
  refine ⟨fun texts h hlast => ?_, fun texts h hlast => ?_, fun v => ⟨?_, ?_⟩⟩
  · exact items_joined (by rfl) h hlast
  · exact items_joined (by rfl) h hlast
  · exact text_joined_items_cases (by rfl) v
  · exact text_joined_items_cases (by rfl) v

/-- Empty texts inside a list are kept, and of two commas at the end one is dropped. -/
theorem joined_split_lossless_emptyItems :
    (ofItems (["", "a", "", "b"].map ofText)).items "," = ["", "a", "", "b"].map ofText ∧
      (ofItems ((ofText "a,,").items ",")).text = "a," :=
  ⟨joined_split_lossless.1 _ (by decide) (by decide),
    ((joined_split_lossless.2.2 (ofText "a,,")).1.1 "a," (by decide))⟩

end Value

end CardScript
