import CardScript.Proofs.Script.Sending
import CardScript.Proofs.Value.Lists
import CardScript.Proofs.Value.Reading
import CardScript.Script.Builtin

/-!
# Aggregates of arguments and of lists

The sum, the average, the least and the greatest are taken of several arguments or of the items of
one list. A number holds no comma, so the list of some numbers has just these for its items
(`listed_ofItems`), each without the blanks around it, and blanks around a number make no difference
to its reading (`Numeric.read?_trim`). Either way, the same numbers are combined.
-/

namespace CardScript

/-! ## Trimming -/

namespace Text

/-- What is dropped at the start is blank, and what is left does not begin with a blank. -/
theorem exists_dropWhile_isBlank (cs : List Char) :
    ∃ before, cs = before ++ cs.dropWhile isBlank ∧ (∀ c ∈ before, isBlank c = true) ∧
      ∀ c ∈ (cs.dropWhile isBlank).head?, isBlank c = false := by
  refine ⟨cs.takeWhile isBlank, List.takeWhile_append_dropWhile.symm,
    fun _ hc => List.mem_takeWhile_imp hc, fun c hc => ?_⟩
  have hhead := List.head?_dropWhile_not isBlank cs
  rwa [hc] at hhead

/-- A text is what trimming leaves of it, with blanks around that. -/
theorem exists_trim (cs : List Char) :
    ∃ before after, cs = before ++ trim cs ++ after ∧ (∀ c ∈ before, isBlank c = true) ∧
      (∀ c ∈ after, isBlank c = true) ∧ Trimmed (trim cs) := by
  obtain ⟨before, hbefore, hblank, hhead⟩ := exists_dropWhile_isBlank cs
  obtain ⟨after, hafter, hblank', hlast⟩ := exists_dropWhile_isBlank (cs.dropWhile isBlank).reverse
  have hrest : cs.dropWhile isBlank = trim cs ++ after.reverse := by
    rw [trim, trimEnd, ← List.reverse_append, ← hafter, List.reverse_reverse]
  refine ⟨before, after.reverse, ?_, hblank, fun c hc => hblank' c (List.mem_reverse.1 hc), ?_, ?_⟩
  · rw [List.append_assoc, ← hrest]
    exact hbefore
  · intro c hc
    refine hhead c ?_
    rw [hrest, List.head?_append, hc]
    rfl
  · intro c hc
    refine hlast c ?_
    rwa [trim, trimEnd, List.getLast?_reverse] at hc

theorem trim_trim (cs : List Char) : trim (trim cs) = trim cs := by
  obtain ⟨-, -, -, -, -, htrimmed⟩ := exists_trim cs
  exact htrimmed.trim_eq

end Text

/-! ## Numbers in a list -/

namespace Numeric

theorem read?_trim (s : String) : read? (Text.trimString s) = read? s := by
  simp only [read?, Text.trimString, String.toList_ofList, Text.trim_trim]

/-- A number is not blank and holds no comma. -/
theorem of_isSome_read? {s : String} (h : (read? s).isSome) :
    Text.trim s.toList ≠ [] ∧ ',' ∉ s.toList := by
  unfold read? at h
  simp only at h
  split at h
  next htest =>
    rw [Bool.and_eq_true, List.any_eq_true, List.all_eq_true] at htest
    obtain ⟨⟨c, hc, -⟩, hall⟩ := htest
    refine ⟨List.ne_nil_of_mem hc, fun hcomma => ?_⟩
    obtain ⟨before, after, hs, hbefore, hafter, -⟩ := Text.exists_trim s.toList
    rw [hs, List.mem_append, List.mem_append] at hcomma
    rcases hcomma with (hcomma | hcomma) | hcomma
    · exact absurd (hbefore _ hcomma) (by decide)
    · exact absurd (hall _ hcomma) (by decide)
    · exact absurd (hafter _ hcomma) (by decide)
  next => cases h

end Numeric

namespace Value

/-- A value that counts as a number by its text. -/
structure IsNumeral (v : Value) : Prop where
  numeric_eq : v.numeric? = Numeric.read? v.text
  isNumber : v.isNumber = true

/-- The text of a value without the blanks around it. -/
def stripped (v : Value) : Value :=
  ofText (Text.trimString v.text)

namespace IsNumeral

variable {v : Value}

theorem exists_numeric (h : v.IsNumeral) : ∃ n, v.numeric? = some n :=
  Option.isSome_iff_exists.1 h.isNumber

theorem isSome_read? (h : v.IsNumeral) : (Numeric.read? v.text).isSome :=
  h.numeric_eq ▸ h.isNumber

theorem numeric?_stripped (h : v.IsNumeral) : v.stripped.numeric? = v.numeric? := by
  rw [h.numeric_eq]
  exact Numeric.read?_trim v.text

theorem stripped (h : v.IsNumeral) : v.stripped.IsNumeral :=
  ⟨rfl, (congrArg Option.isSome h.numeric?_stripped).trans h.isNumber⟩

theorem operand_stripped (h : v.IsNumeral) (operator : String) (side : Side) :
    operand operator side v.stripped = operand operator side v := by
  obtain ⟨n, hn⟩ := h.exists_numeric
  have htrim : Text.trim v.stripped.text.toList = Text.trim v.text.toList := by
    rw [Value.stripped, ofText, Text.trimString, String.toList_ofList, Text.trim_trim]
  simp only [operand, htrim, h.numeric?_stripped, hn]

theorem add_stripped (h : v.IsNumeral) (u : Value) : u.add v.stripped = u.add v := by
  simp only [add, arithmetic, operands, h.operand_stripped]

end IsNumeral

end Value

namespace Builtin

open Value

/-- The values an aggregate is taken of: several arguments, or the items of a single one. -/
def listed : List Value → List Value
  | [single] =>
    (splitItems [','] single.text.toList).map fun cs => ofText (String.ofList (Text.trim cs))
  | args => args

theorem numbers_eq (function : String) (args : List Value) :
    numbers function args = do
      (listed args).forM fun v => do discard (number function v)
      return listed args := by
  match args with
  | [] => rfl
  | [single] => rfl
  | v :: w :: rest => rfl

theorem number_eq {v : Value} {n : Numeric} (h : v.numeric? = some n) (function : String) :
    number function v = .ok n.toFloat := by
  simp only [number, h]

theorem numbers_of_isNumber (function : String) {args : List Value}
    (h : ∀ v ∈ listed args, v.isNumber = true) : numbers function args = .ok (listed args) := by
  have hall (values : List Value) (hvalues : ∀ v ∈ values, v.isNumber = true) :
      values.forM (fun v => do discard (number function v)) = Except.ok () := by
    induction values with
    | nil => rfl
    | cons v rest ih =>
      obtain ⟨hv, hrest⟩ := List.forall_mem_cons.1 hvalues
      obtain ⟨n, hn⟩ := Option.isSome_iff_exists.1 hv
      rw [List.forM, number_eq hn]
      exact ih hrest
  rw [numbers_eq, hall _ h]
  rfl

/-- A value that is no number makes an aggregate fail. -/
theorem numbers_of_not_isNumber (function : String) {args : List Value}
    (h : ∃ v ∈ listed args, v.numeric? = none) :
    ∃ text, numbers function args = .error (.semantic (.notNumberFor function text)) := by
  have hfails (values : List Value) (hvalues : ∃ v ∈ values, v.numeric? = none) :
      ∃ text, values.forM (fun v => do discard (number function v)) =
        Except.error (.semantic (.notNumberFor function text)) := by
    induction values with
    | nil => exact absurd hvalues (by simp)
    | cons v rest ih =>
      rw [List.forM]
      cases hv : v.numeric? with
      | none =>
        refine ⟨v.text, ?_⟩
        simp only [number, hv]
        rfl
      | some n =>
        rw [number_eq hv]
        refine ih ?_
        obtain ⟨u, hu, hnone⟩ := hvalues
        rcases List.mem_cons.1 hu with rfl | hu
        · rw [hv] at hnone
          cases hnone
        · exact ⟨u, hu, hnone⟩
  obtain ⟨text, htext⟩ := hfails _ h
  refine ⟨text, ?_⟩
  rw [numbers_eq, htext]
  rfl

/-- The items of a list of texts without commas are these texts, without the blanks around them, if
the last one is not empty. -/
theorem listed_of_joined {args : List Value} {single : Value}
    (hsingle : single.text = (ofItems args).text) (hcommas : ∀ v ∈ args, ',' ∉ v.text.toList)
    (hlast : ∀ last ∈ args.getLast?, last.text ≠ "") : listed [single] = args.map stripped := by
  have hpieces : ∀ piece ∈ args.map (·.text.toList), ',' ∉ piece := by
    simpa using hcommas
  have hlast' : (args.map (·.text.toList)).getLast? ≠ some [] := by
    rw [List.getLast?_map]
    intro hnil
    obtain ⟨last, hmem, htext⟩ := Option.map_eq_some_iff.1 hnil
    exact hlast last hmem (String.toList_eq_nil_iff.1 htext)
  rw [listed, hsingle, ofItems, joined, String.toList_ofList, splitItems_joinWith hpieces hlast',
    List.map_map]
  rfl

theorem stripped_stripped (v : Value) : v.stripped.stripped = v.stripped := by
  simp only [stripped, ofText, Text.trimString, String.toList_ofList, Text.trim_trim]

theorem numeric?_stripped_of_none {v : Value} (h : v.numeric? = none) :
    v.stripped.numeric? = none := by
  unfold numeric? at h
  split at h
  · cases h
  · exact (Numeric.read?_trim v.text).trans h

/-- The items of a list of numerals are these numerals. -/
theorem listed_ofItems {args : List Value} (hargs : ∀ v ∈ args, v.IsNumeral) {single : Value}
    (hsingle : single.text = (ofItems args).text) : listed [single] = args.map stripped := by
  refine listed_of_joined hsingle (fun v hv => ?_) fun last hmem hnil => ?_
  · exact (Numeric.of_isSome_read? (hargs v hv).isSome_read?).2
  · have hne := (Numeric.of_isSome_read? (hargs last (List.mem_of_getLast? hmem)).isSome_read?).1
    rw [hnil] at hne
    exact hne rfl

theorem listed_singleton {v : Value} (h : v.IsNumeral) : listed [v] = [v.stripped] := by
  have hself : v.text = (ofItems [v]).text := by
    simp [ofItems, joined, Text.joinWith]
  have hargs : ∀ u ∈ [v], u.IsNumeral := fun u hu => List.mem_singleton.1 hu ▸ h
  exact listed_ofItems hargs hself

/-- Numerals given one by one and in a list are the same numbers. -/
theorem listed_numerals {args : List Value} (hargs : ∀ v ∈ args, v.IsNumeral) {single : Value}
    (hsingle : single.text = (ofItems args).text) :
    (∀ v ∈ listed args, v.IsNumeral) ∧ listed [single] = (listed args).map stripped := by
  rw [listed_ofItems hargs hsingle]
  match args with
  | [] => exact ⟨hargs, rfl⟩
  | [v] =>
    have hv := hargs v List.mem_cons_self
    rw [listed_singleton hv]
    refine ⟨fun u hu => List.mem_singleton.1 hu ▸ hv.stripped, ?_⟩
    rw [List.map_singleton, List.map_singleton, stripped_stripped]
  | v :: w :: rest => exact ⟨hargs, rfl⟩

/-! ## Combining numbers -/

/-- The double that a number is read as. -/
def reading (v : Value) : Float :=
  (v.numeric?.map Numeric.toFloat).getD 0

/-- The first value that no later one beats. -/
def champion (beats : Float → Float → Bool) : Value → List Value → Value
  | v, [] => v
  | v, w :: rest => champion beats (if beats (reading w) (reading v) then w else v) rest

theorem number_eq_reading {v : Value} (h : v.isNumber = true) (function : String) :
    number function v = .ok (reading v) := by
  obtain ⟨n, hn⟩ := Option.isSome_iff_exists.1 h
  rw [number_eq hn, reading, hn]
  rfl

theorem best_eq (function : String) (beats : Float → Float → Bool) {v : Value}
    {rest : List Value} (h : ∀ u ∈ v :: rest, u.isNumber = true) :
    best function beats v rest = .ok (champion beats v rest) := by
  induction rest generalizing v with
  | nil => rfl
  | cons w rest ih =>
    simp only [List.forall_mem_cons] at h ih
    obtain ⟨hv, hw, hrest⟩ := h
    rw [best, number_eq_reading hv, number_eq_reading hw]
    refine ih ⟨?_, hrest⟩
    split
    · exact hw
    · exact hv

theorem champion_map (beats : Float → Float → Bool) {change : Value → Value} {v : Value}
    {rest : List Value} (h : ∀ u ∈ v :: rest, reading (change u) = reading u) :
    champion beats (change v) (rest.map change) = change (champion beats v rest) := by
  induction rest generalizing v with
  | nil => rfl
  | cons w rest ih =>
    simp only [List.forall_mem_cons] at h ih
    obtain ⟨hv, hw, hrest⟩ := h
    rw [List.map_cons, champion, champion, hv, hw]
    split
    · exact ih ⟨hw, hrest⟩
    · exact ih ⟨hv, hrest⟩

theorem reading_stripped {v : Value} (h : v.IsNumeral) : reading v.stripped = reading v := by
  rw [reading, reading, h.numeric?_stripped]

theorem total_stripped {values : List Value} (h : ∀ v ∈ values, v.IsNumeral) :
    total (values.map stripped) = total values := by
  unfold total
  generalize Value.ofInt 0 = sum
  induction values generalizing sum with
  | nil => rfl
  | cons v rest ih =>
    obtain ⟨hv, hrest⟩ := List.forall_mem_cons.1 h
    rw [List.map_cons, List.foldlM_cons, List.foldlM_cons, hv.add_stripped]
    exact bind_congr fun sum => ih hrest sum

/-- Two answers that are the same but for blanks around them, or the same failure. -/
def SameButBlanks (answer answer' : Except Failure Value) : Prop :=
  (∃ v w, answer = .ok v ∧ answer' = .ok w ∧ Text.trimString v.text = Text.trimString w.text) ∨
    ∃ failure, answer = .error failure ∧ answer' = .error failure

theorem sameButBlanks_refl (answer : Except Failure Value) : SameButBlanks answer answer := by
  cases answer with
  | ok v => exact .inl ⟨v, v, rfl, rfl, rfl⟩
  | error failure => exact .inr ⟨failure, rfl, rfl⟩

/-- A function takes its numbers one way or the other and then combines them, and blanks around them
show at most around what it answers. -/
structure Combines (b : Builtin) (combine : List Value → Except Failure Value) : Prop where
  run_eq : ∀ m args, b.run m args = numbers b.key args >>= combine
  strips : ∀ values, (∀ v ∈ values, v.IsNumeral) →
    SameButBlanks (combine values) (combine (values.map stripped))

/-- The functions that are taken of several numbers. -/
def aggregates : List Builtin :=
  [sum, min, max, average]

theorem extreme_combines {b : Builtin} {beats : Float → Float → Bool}
    (h : ∀ m args, b.run m args = extreme b.key beats args) : ∃ combine, b.Combines combine := by
  let combine (values : List Value) : Except Failure Value :=
    values.head?.elim (throw (.semantic (.notListFor b.key))) fun v =>
      best b.key beats v values.tail
  refine ⟨combine, fun m args => ?_, fun values hvalues => ?_⟩
  · rw [h]
    refine bind_congr fun values => ?_
    cases values with
    | nil => rfl
    | cons v rest => rfl
  · cases values with
    | nil => exact sameButBlanks_refl _
    | cons v rest =>
      have hnumbers : ∀ u ∈ v :: rest, u.isNumber = true := fun u hu => (hvalues u hu).isNumber
      have hstripped : ∀ u ∈ v.stripped :: rest.map stripped, u.isNumber = true := by
        intro u hu
        obtain ⟨w, hw, rfl⟩ := List.mem_map.1 (List.map_cons ▸ hu)
        exact (hvalues w hw).stripped.isNumber
      have hchampion := champion_map beats fun u hu => reading_stripped (hvalues u hu)
      show SameButBlanks (best b.key beats v rest) (best b.key beats v.stripped (rest.map stripped))
      refine .inl ⟨_, _, best_eq _ _ hnumbers, best_eq _ _ hstripped, ?_⟩
      rw [hchampion]
      simp only [stripped, ofText, Text.trimString, String.toList_ofList, Text.trim_trim]

theorem exists_combines {b : Builtin} (h : b ∈ aggregates) : ∃ combine, b.Combines combine := by
  simp only [aggregates, List.mem_cons, List.not_mem_nil, or_false] at h
  rcases h with rfl | rfl | rfl | rfl
  · refine ⟨total, fun _ _ => rfl, fun values hvalues => ?_⟩
    rw [total_stripped hvalues]
    exact sameButBlanks_refl _
  · exact extreme_combines fun _ _ => rfl
  · exact extreme_combines fun _ _ => rfl
  · let combine (values : List Value) : Except Failure Value :=
      if values.isEmpty then throw (.semantic (.notListFor "average"))
      else do (← total values).divide (.ofInt values.length)
    refine ⟨combine, fun _ _ => rfl, fun values hvalues => ?_⟩
    have hsame : combine (values.map stripped) = combine values := by
      simp only [combine, total_stripped hvalues, List.isEmpty_map, List.length_map]
    rw [hsame]
    exact sameButBlanks_refl _

theorem call_eq_run {b : Builtin} (h : b ∈ aggregates) {args : List Value} (hargs : args ≠ [])
    (name : String) (m : Machine) : b.call name m args = b.run m args := by
  have harity : ∀ b ∈ aggregates, b.arity = .atLeast 1 := by decide
  have haccepts : (Arity.atLeast 1).accepts args.length = true :=
    decide_eq_true (List.length_pos_of_ne_nil hargs)
  rw [call, harity b h, haccepts, if_pos rfl]

/-- **Aggregates treat arguments and lists alike.** The sum, the least, the greatest and the average
of numerals and of the list of these are the same but for blanks around them, or fail in the same
way. If one of several values without commas is no number and the last one is not blank, both
fail. -/
theorem aggregates_alike {b : Builtin} (hb : b ∈ aggregates) (name : String) (m : Machine)
    {args : List Value} (hargs : args ≠ []) {single : Value}
    (hsingle : single.text = (ofItems args).text) :
    ((∀ v ∈ args, v.IsNumeral) →
      SameButBlanks (b.call name m args) (b.call name m [single])) ∧
    (2 ≤ args.length → (∀ v ∈ args, ',' ∉ v.text.toList) → (∃ v ∈ args, v.numeric? = none) →
      (∀ last ∈ args.getLast?, Text.trim last.text.toList ≠ []) →
      ∃ text text',
        b.call name m args = .error (.semantic (.notNumberFor b.key text)) ∧
        b.call name m [single] = .error (.semantic (.notNumberFor b.key text'))) := by
  obtain ⟨combine, hrun, hstrips⟩ := exists_combines hb
  rw [call_eq_run hb hargs, call_eq_run hb (List.cons_ne_nil _ _), hrun, hrun]
  refine ⟨fun hnumerals => ?_, fun hlength hcommas hnone hlast => ?_⟩
  · obtain ⟨hlisted, hsame⟩ := listed_numerals hnumerals hsingle
    have hnumbers : ∀ v ∈ listed args, v.isNumber = true := fun v hv => (hlisted v hv).isNumber
    have hstripped : ∀ v ∈ listed [single], v.isNumber = true := by
      rw [hsame]
      intro v hv
      obtain ⟨u, hu, rfl⟩ := List.mem_map.1 hv
      exact (hlisted u hu).stripped.isNumber
    rw [numbers_of_isNumber _ hnumbers, numbers_of_isNumber _ hstripped, hsame]
    exact hstrips _ hlisted
  · obtain ⟨v, hv, hnumeric⟩ := hnone
    have hlisted : listed args = args := by
      match args with
      | _ :: _ :: _ => rfl
    have hitems : listed [single] = args.map stripped := by
      refine listed_of_joined hsingle hcommas fun last hmem hnil => hlast last hmem ?_
      rw [hnil]
      rfl
    have hfails : ∃ u ∈ listed args, u.numeric? = none := by
      rw [hlisted]
      exact ⟨v, hv, hnumeric⟩
    have hfails' : ∃ u ∈ listed [single], u.numeric? = none := by
      rw [hitems]
      exact ⟨v.stripped, List.mem_map_of_mem hv, numeric?_stripped_of_none hnumeric⟩
    obtain ⟨text, htext⟩ := numbers_of_not_isNumber b.key hfails
    obtain ⟨text', htext'⟩ := numbers_of_not_isNumber b.key hfails'
    refine ⟨text, text', ?_, ?_⟩
    · rw [htext]
      rfl
    · rw [htext']
      rfl

/-- Of a blank-padded number and a smaller one the first is the greatest, and the list of the two
gives it without the blanks; with a word among them, neither the numbers nor the list has a sum. -/
theorem aggregates_alike_padded :
    SameButBlanks (max.call "max" default [ofText " 9 ", ofText "4"])
        (max.call "max" default [ofText " 9 ,4"]) ∧
      (max.call "max" default [ofText " 9 ", ofText "4"]).toOption.map text = some " 9 " ∧
      (max.call "max" default [ofText " 9 ,4"]).toOption.map text = some "9" ∧
      ∃ text text',
        sum.call "sum" default [ofText "1", ofText "x"] =
          .error (.semantic (.notNumberFor "sum" text)) ∧
        sum.call "sum" default [ofText "1,x"] =
          .error (.semantic (.notNumberFor "sum" text')) := by
  have hnumerals : ∀ v ∈ [ofText " 9 ", ofText "4"], v.IsNumeral := by
    intro v hv
    rcases List.mem_cons.1 hv with rfl | hv
    · exact ⟨rfl, by decide +kernel⟩
    · rw [List.mem_singleton.1 hv]
      exact ⟨rfl, by decide +kernel⟩
  have hpair : (ofText " 9 ,4").text = (ofItems [ofText " 9 ", ofText "4"]).text := by decide
  have hmixed : (ofText "1,x").text = (ofItems [ofText "1", ofText "x"]).text := by decide
  have hsame := (aggregates_alike (by decide : max ∈ aggregates) "max" default (by simp) hpair).1
  have hfail := (aggregates_alike (by decide : sum ∈ aggregates) "sum" default (by simp) hmixed).2
  refine ⟨hsame hnumerals, by decide +kernel, by decide +kernel, ?_⟩
  exact hfail (by decide) (by decide) ⟨ofText "x", by simp, rfl⟩ (by decide)

end Builtin

end CardScript
