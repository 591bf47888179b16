import CardScript.Proofs.Number.ReadBack
import CardScript.Script.Expression

/-!
# The text of a value as its identity

Coercions and operators see nothing of a value but its text and its numeric reading
(`Value.Alike`), and the reading of a value is what its text reads as (`Value.Built.numeric?_eq`),
with two exceptions. A double that is written like an integer is read as itself where its text is
read as the integer, and a double that is not finite is a number where its text is none
(`Value.sameText_not_alike`). Apart from these doubles, values of the same text cannot be told
apart, and most coercions do not tell even them apart (`Value.sameText_alike`).
-/

namespace CardScript

namespace Value

/-- How values come to be. -/
inductive Built : Value → Prop where
  | text (s : String) : Built (ofText s)
  | quoted (s : String) : Built (ofQuoted s)
  | int {n : Int} (h : Number.fitsWord n = true) : Built (ofInt n)
  | float (x : Float) : Built (ofFloat x)
  | bool (b : Bool) : Built (ofBool b)
  | list (delimiter : List Char) (items : List Value) : Built (joined delimiter items)

/-- The double that a value was built from. -/
def double? (v : Value) : Option Float :=
  match v.number with
  | some (.real x) => some x
  | _ => none

/-- The double, if any, is finite. -/
def isFinite (v : Value) : Bool :=
  v.double?.all Number.isFinite

/-- The double, if any, is not a long whole number: it is not written like an integer, or it is
that integer. -/
def isShort (v : Value) : Bool :=
  v.double?.all fun x => (Number.whole? x).all fun n => n.natAbs < 1000000000000000

/-- The double, if any, is finite and not the negative zero. -/
def isProper (v : Value) : Bool :=
  v.double?.all fun x => Number.isFinite x && Number.parts x != .finite true 0 (-1074)

/-- The double, if any, is finite and not written like an integer. -/
def isPlain (v : Value) : Bool :=
  v.double?.all fun x => Number.isFinite x && (Number.readWord? v.text.toList).isNone

/-! ## Readings -/

/-- A value is read as its text is, unless it was built from a double; then its text is the text of
this double. -/
theorem Built.cases_double {v : Value} (h : v.Built) :
    v.numeric? = Numeric.read? v.text ∨
      ∃ x, v.double? = some x ∧ v.numeric? = some (.real x) ∧ v.text = Numeric.text (.real x) := by
  cases h with
  | text s => exact .inl rfl
  | quoted s => exact .inl rfl
  | int hn => exact .inl (Numeric.read?_toString hn).symm
  | float x => exact .inr ⟨x, rfl, rfl, rfl⟩
  | bool b => exact .inl rfl
  | list delimiter items => exact .inl rfl

theorem Built.isNumber_eq {v : Value} (h : v.Built) (hfinite : v.isFinite = true) :
    v.isNumber = (Numeric.read? v.text).isSome := by
  rcases h.cases_double with hread | ⟨x, hdouble, hnumeric, htext⟩
  · rw [isNumber, hread]
  · rw [isFinite, hdouble, Option.all_some] at hfinite
    rw [isNumber, hnumeric, htext, Numeric.read?_text_real hfinite]
    rfl

theorem Built.whole?_eq {v : Value} (h : v.Built) (hshort : v.isShort = true) :
    v.whole? = (Numeric.read? v.text).bind Numeric.toWhole? := by
  rcases h.cases_double with hread | ⟨x, hdouble, hnumeric, htext⟩
  · rw [whole?, hread]
  · rw [isShort, hdouble, Option.all_some, Option.all_eq_true] at hshort
    rw [whole?, hnumeric, htext, Option.bind_some]
    exact (Numeric.toWhole?_read?_text fun n hn => of_decide_eq_true (hshort n hn)).symm

theorem Built.toFloat_eq {v : Value} (h : v.Built) (hproper : v.isProper = true) :
    v.numeric?.map Numeric.toFloat = (Numeric.read? v.text).map Numeric.toFloat := by
  rcases h.cases_double with hread | ⟨x, hdouble, hnumeric, htext⟩
  · rw [hread]
  · rw [isProper, hdouble, Option.all_some, Bool.and_eq_true, bne_iff_ne] at hproper
    rw [hnumeric, htext, Numeric.toFloat_read?_text hproper.1 hproper.2]
    rfl

theorem Built.numeric?_eq {v : Value} (h : v.Built) (hplain : v.isPlain = true) :
    v.numeric? = Numeric.read? v.text := by
  rcases h.cases_double with hread | ⟨x, hdouble, hnumeric, htext⟩
  · exact hread
  · rw [isPlain, hdouble, Option.all_some, Bool.and_eq_true, Option.isNone_iff_eq_none] at hplain
    obtain ⟨hfinite, hword⟩ := hplain
    rw [htext] at hword ⊢
    rw [hnumeric, Numeric.read?_text_real hfinite, hword, Option.map_none, Option.getD_none]

/-! ## What is seen of a value -/

/-- Two values with the same text and the same reading. -/
structure Alike (v w : Value) : Prop where
  text : v.text = w.text
  numeric : v.numeric? = w.numeric?

theorem Alike.refl (v : Value) : v.Alike v := ⟨rfl, rfl⟩

theorem toBoolean_congr {v w : Value} (h : v.text = w.text) : v.toBoolean = w.toBoolean := by
  simp only [toBoolean, boolean?, h]

theorem toInteger_congr {v w : Value} (h : v.text = w.text) (hwhole : v.whole? = w.whole?) :
    v.toInteger = w.toInteger := by
  simp only [toInteger, hwhole, h]

theorem toReal_congr {v w : Value} (h : v.text = w.text)
    (hfloat : v.numeric?.map Numeric.toFloat = w.numeric?.map Numeric.toFloat) :
    v.toReal = w.toReal := by
  have hmap (u : Value) : u.toReal = (u.numeric?.map Numeric.toFloat).elim
      (.error (.semantic (.notNumber u.text))) .ok := by
    unfold toReal
    cases u.numeric? with
    | none => rfl
    | some n => rfl
  rw [hmap, hmap, hfloat, h]

theorem contains_congr {v v' w w' : Value} (hv : v.text = v'.text) (hw : w.text = w'.text) :
    v.contains w = v'.contains w' := by
  rw [contains, contains, hv, hw]

theorem Alike.operand_eq {v w : Value} (h : v.Alike w) (operator : String) (side : Side) :
    operand operator side v = operand operator side w := by
  simp only [operand, h.numeric, h.text]

section

variable {v v' w w' : Value}

theorem Alike.operands_eq (hv : v.Alike v') (hw : w.Alike w') (operator : String) :
    operands operator v w = operands operator v' w' := by
  simp only [operands, hv.operand_eq, hw.operand_eq]

theorem Alike.order_eq (hv : v.Alike v') (hw : w.Alike w') : order v w = order v' w' := by
  simp only [order, hv.numeric, hw.numeric, hv.text, hw.text]

end

end Value

open Value

theorem UnaryOp.apply_congr {v w : Value} (h : v.Alike w) (op : UnaryOp) :
    op.apply v = op.apply w := by
  cases op with
  | not => simp only [apply, Value.not, toBoolean_congr h.text]
  | negate => simp only [apply, Value.negate, h.operand_eq]

/-- Operators that see only the texts of their operands. -/
def BinaryOp.isTextual : BinaryOp → Bool
  | concat | concatSpaced | contains | isIn | isNotIn | and | or => true
  | _ => false

namespace BinaryOp

variable {v v' w w' : Value}

theorem apply_congr_text {op : BinaryOp} (htextual : op.isTextual = true) (hv : v.text = v'.text)
    (hw : w.text = w'.text) : op.apply v w = op.apply v' w' := by
  cases op with
  | concat => simp only [apply, Value.concat, hv, hw]
  | concatSpaced => simp only [apply, Value.concatSpaced, hv, hw]
  | contains => simp only [apply, contains_congr hv hw]
  | isIn => simp only [apply, Value.isIn, contains_congr hw hv]
  | isNotIn => simp only [apply, Value.isIn, contains_congr hw hv]
  | and => simp only [apply, Value.and, toBoolean_congr hv, toBoolean_congr hw]
  | or => simp only [apply, Value.or, toBoolean_congr hv, toBoolean_congr hw]
  | _ => cases htextual

theorem apply_congr (hv : v.Alike v') (hw : w.Alike w') (op : BinaryOp) :
    op.apply v w = op.apply v' w' := by
  have hoperands := hv.operands_eq hw
  have horder := hv.order_eq hw
  cases op with
  | add => simp only [apply, Value.add, arithmetic, hoperands]
  | subtract => simp only [apply, Value.subtract, arithmetic, hoperands]
  | multiply => simp only [apply, Value.multiply, arithmetic, hoperands]
  | divide => simp only [apply, Value.divide, divisionOperands, hoperands]
  | div => simp only [apply, Value.div, divisionOperands, hoperands]
  | mod => simp only [apply, Value.mod, divisionOperands, hoperands]
  | power => simp only [apply, Value.power, hoperands]
  | equal => simp only [apply, Value.equals, horder]
  | notEqual => simp only [apply, Value.notEquals, horder]
  | less => simp only [apply, Value.less, horder]
  | greater => simp only [apply, Value.greater, horder]
  | lessEqual => simp only [apply, Value.lessOrEqual, horder]
  | greaterEqual => simp only [apply, Value.greaterOrEqual, horder]
  | _ => exact apply_congr_text rfl hv.text hw.text

end BinaryOp

/-! ## Identity -/

namespace Value

/-- Values of the same text have the same truth value, and operators on texts do not tell them
apart. Both are numbers or neither is, unless one was built from a double that is not finite. They
are the same integer, or both none, unless one was built from a long whole double, and the same
real unless one was built from a double that is not finite or from the negative zero. No coercion
and no operator tells them apart at all unless one was built from a double that is not finite or is
written like an integer. -/
theorem sameText_alike {v w : Value} (hv : v.Built) (hw : w.Built) (h : v.sameText w = true) :
    v.toBoolean = w.toBoolean ∧ UnaryOp.not.apply v = UnaryOp.not.apply w ∧
    (∀ op : BinaryOp, op.isTextual = true → ∀ other,
      op.apply v other = op.apply w other ∧ op.apply other v = op.apply other w) ∧
    (v.isFinite = true → w.isFinite = true → v.isNumber = w.isNumber) ∧
    (v.isShort = true → w.isShort = true → v.toInteger = w.toInteger) ∧
    (v.isProper = true → w.isProper = true → v.toReal = w.toReal) ∧
    (v.isPlain = true → w.isPlain = true →
      v.isNumber = w.isNumber ∧ v.toInteger = w.toInteger ∧ v.toReal = w.toReal ∧
      (∀ op : UnaryOp, op.apply v = op.apply w) ∧
      ∀ (op : BinaryOp) (other : Value),
        op.apply v other = op.apply w other ∧ op.apply other v = op.apply other w) := by
  have htext : v.text = w.text := eq_of_beq h
  refine ⟨toBoolean_congr htext, ?_, ?_, ?_, ?_, ?_, ?_⟩
  · simp only [UnaryOp.apply, Value.not, toBoolean_congr htext]
  · intro op htextual other
    exact ⟨op.apply_congr_text htextual htext rfl, op.apply_congr_text htextual rfl htext⟩
  · intro hfinite hfinite'
    rw [hv.isNumber_eq hfinite, hw.isNumber_eq hfinite', htext]
  · intro hshort hshort'
    refine toInteger_congr htext ?_
    rw [hv.whole?_eq hshort, hw.whole?_eq hshort', htext]
  · intro hproper hproper'
    refine toReal_congr htext ?_
    rw [hv.toFloat_eq hproper, hw.toFloat_eq hproper', htext]
  · intro hplain hplain'
    have hnumeric : v.numeric? = w.numeric? := by
      rw [hv.numeric?_eq hplain, hw.numeric?_eq hplain', htext]
    have halike : v.Alike w := ⟨htext, hnumeric⟩
    refine ⟨?_, ?_, ?_, UnaryOp.apply_congr halike, fun op other => ?_⟩
    · rw [isNumber, isNumber, hnumeric]
    · refine toInteger_congr htext ?_
      rw [whole?, whole?, hnumeric]
    · refine toReal_congr htext ?_
      rw [hnumeric]
    · exact ⟨op.apply_congr halike (.refl other), op.apply_congr (.refl other) halike⟩

/-- One tenth, and three, as doubles and as texts. -/
theorem sameText_alike_tenth :
    let tenth := ofFloat (Number.ofRatio false 1 10)
    let three := ofFloat (Number.ofRatio false 3 1)
    (tenth.text = "0.1" ∧
      BinaryOp.add.apply tenth (ofText "0.2") = BinaryOp.add.apply (ofText "0.1") (ofText "0.2")) ∧
      three.text = "3" ∧ three.isNumber = (ofText "3").isNumber ∧
      three.toInteger = (ofText "3").toInteger ∧ three.toReal = (ofText "3").toReal := by
  intro tenth three
  have htenth : tenth.text = "0.1" ∧ tenth.isPlain = true := by decide +kernel
  have hthree : three.text = "3" ∧ three.isFinite = true ∧ three.isShort = true ∧
      three.isProper = true := by decide +kernel
  obtain ⟨-, -, -, -, -, -, hplain⟩ :=
    sameText_alike (.float (Number.ofRatio false 1 10)) (.text "0.1") (beq_iff_eq.2 htenth.1)
  obtain ⟨-, -, -, hnumber, hinteger, hreal, -⟩ :=
    sameText_alike (.float (Number.ofRatio false 3 1)) (.text "3") (beq_iff_eq.2 hthree.1)
  obtain ⟨-, -, -, -, hbinary⟩ := hplain htenth.2 rfl
  exact ⟨⟨htenth.1, (hbinary .add (ofText "0.2")).1⟩, hthree.1, hnumber hthree.2.1 rfl,
    hinteger hthree.2.2.1 rfl, hreal hthree.2.2.2 rfl⟩

/-- A long double is not the integer it is written like, and infinity is a number of which the text
is none. -/
theorem sameText_not_alike :
    (ofFloat (Number.ofRatio false (10 ^ 16) 1)).sameText (ofText "10000000000000000") = true ∧
      ((ofFloat (Number.ofRatio false (10 ^ 16) 1)).add (ofInt 1)).toOption.map text =
        some "10000000000000000" ∧
      ((ofText "10000000000000000").add (ofInt 1)).toOption.map text =
        some "10000000000000001" ∧
      (ofFloat (Number.ofRatio false (10 ^ 400) 1)).sameText (ofText "inf") = true ∧
      (ofFloat (Number.ofRatio false (10 ^ 400) 1)).isNumber = true ∧
      (ofText "inf").isNumber = false := by
  decide +kernel

end Value

end CardScript
