import CardScript.Text.CaseData

/-!
# Lower case

Full lower-casing of a text. Two characters need more than the one-to-one mapping: a capital
dotted I becomes two characters, and a capital sigma at the end of a word takes its final form.
-/

namespace CardScript.Text

/-- The one-to-one lower-case mapping. -/
def lowerChar (c : Char) : Char :=
  if c.toNat < 0x80 then c.toLower
  else
    match lowerRuns.find? fun run =>
        run.first ≤ c.toNat && c.toNat ≤ run.last && (c.toNat - run.first) % run.step == 0 with
    | some run => Char.ofNat (c.toNat + run.shift).toNat
    | none => c

/-- The first character of `cs` that is not case-ignorable is cased. -/
def casedNext (cs : List Char) : Bool :=
  match cs.dropWhile (inInversionList caseIgnorableChanges) with
  | [] => false
  | c :: _ => inInversionList casedChanges c

/-- What `c` becomes between `before`, the nearest first, and `rest`. -/
def lowerAt (before : List Char) (c : Char) (rest : List Char) : List Char :=
  if c == 'Σ' then [if casedNext before && !casedNext rest then 'ς' else 'σ']
  else if c == 'İ' then ['i', '\u0307']
  else [lowerChar c]

/-- Lower-cases `cs`; `before` holds the characters already passed, the nearest first. -/
def lowerFrom (before : List Char) : List Char → List Char
  | [] => []
  | c :: rest => lowerAt before c rest ++ lowerFrom (c :: before) rest

def lower (cs : List Char) : List Char :=
  lowerFrom [] cs

def lowerString (s : String) : String :=
  String.ofList (lower s.toList)

/-- What is left of `pattern` after `piece`, if the two agree as far as both go. -/
def afterPiece? : (piece pattern : List Char) → Option (List Char)
  | [], pattern => some pattern
  | _ :: _, [] => some []
  | p :: piece, q :: pattern => if p == q then afterPiece? piece pattern else none

/-- The lower-cased text starts with `pattern`; no more of it is lower-cased than that takes. -/
def startsLowered (before pattern : List Char) : List Char → Bool
  | [] => pattern.isEmpty
  | c :: rest =>
    if pattern.isEmpty then true
    else
      match afterPiece? (lowerAt before c rest) pattern with
      | some pattern => startsLowered (c :: before) pattern rest
      | none => false

theorem isPrefixOf_append (pattern piece tail : List Char) :
    pattern.isPrefixOf (piece ++ tail) =
      (afterPiece? piece pattern).any (·.isPrefixOf tail) := by
  induction piece generalizing pattern with
  | nil => simp [afterPiece?]
  | cons p piece ih =>
    cases pattern with
    | nil => simp [afterPiece?]
    | cons q pattern => by_cases h : p = q <;> simp [afterPiece?, List.isPrefixOf, h, ih, Ne.symm]

/-- Looking at the start only agrees with lower-casing the whole. -/
theorem startsLowered_eq (before pattern cs : List Char) :
    startsLowered before pattern cs = pattern.isPrefixOf (lowerFrom before cs) := by
  induction cs generalizing before pattern with
  | nil => cases pattern <;> rfl
  | cons c rest ih =>
    rw [lowerFrom, startsLowered]
    split
    · cases pattern <;> simp_all
    · rw [isPrefixOf_append]
      split <;> simp_all

/-- Equality up to the case of ASCII letters. -/
def sameIgnoringAsciiCase (a b : String) : Bool :=
  a.toList.map Char.toLower == b.toList.map Char.toLower

end CardScript.Text
