import CardScript.Stack.Snapshot

/-!
# Reading back what was written

Encoding writes every field, and decoding finds each one by its name, so a tree is read back if its
parts are (`decode_encode`). Decoders of nested trees run on fuel, of which the depth of the encoded
form is enough: a tag and its fields lie two levels deep and cost one unit. The only trees that are
not read back hold numbers too wide for the words they are exchanged as (`Statement.fits`,
`StackSnapshot.fits`).
-/

namespace CardScript

open Json

theorem mapM_decode_encode {α β : Type} {encode : α → β} {decode : β → Option α} {items : List α}
    (h : ∀ a ∈ items, decode (encode a) = some a) :
    items.mapM (decode ∘ encode) = some items := by
  induction items with
  | nil => rfl
  | cons a rest ih =>
    obtain ⟨ha, hrest⟩ := List.forall_mem_cons.1 h
    simp [ha, ih hrest]

/-! ## Fields -/

namespace Json

variable {α : Type} {decode : Json → Option α} {name : String} {j : Json} {a : α}
  {fields : List (String × Json)}

/-- No field has the name. -/
def Lacks (fields : List (String × Json)) (name : String) : Prop :=
  ∀ field ∈ fields, field.1 ≠ name

@[simp] theorem lacks_nil : Lacks [] name :=
  nofun

@[simp] theorem lacks_cons {field : String × Json} :
    Lacks (field :: fields) name ↔ field.1 ≠ name ∧ Lacks fields name :=
  List.forall_mem_cons

theorem lookup?_cons_of_ne {other : String} (h : other ≠ name) :
    lookup? ((other, j) :: fields) name = lookup? fields name := by
  simp [lookup?, h]

theorem lookup?_cons_self (h : Lacks fields name) :
    lookup? ((name, j) :: fields) name = some (some j) := by
  have hnone : fields.filter (·.1 == name) = [] := by simpa [Lacks] using h
  simp [lookup?, hnone]

@[simp] theorem required?_cons_of_ne {other : String} (h : other ≠ name) :
    required? ((other, j) :: fields) name decode = required? fields name decode := by
  rw [required?, lookup?_cons_of_ne h, required?]

@[simp] theorem required?_cons_self (h : Lacks fields name) :
    required? ((name, j) :: fields) name decode = decode j := by
  rw [required?, lookup?_cons_self h]
  rfl

@[simp] theorem defaulted?_cons_of_ne {other : String} (h : other ≠ name) :
    defaulted? ((other, j) :: fields) name a decode = defaulted? fields name a decode := by
  rw [defaulted?, lookup?_cons_of_ne h, defaulted?]

@[simp] theorem defaulted?_cons_self (h : Lacks fields name) :
    defaulted? ((name, j) :: fields) name a decode = decode j := by
  rw [defaulted?, lookup?_cons_self h]
  rfl

@[simp] theorem optional?_cons_of_ne {other : String} (h : other ≠ name) :
    optional? ((other, j) :: fields) name decode = optional? fields name decode := by
  rw [optional?, lookup?_cons_of_ne h, optional?]

/-- What is decoded from an optional field. -/
def option? (decode : Json → Option α) : Json → Option (Option α)
  | null => some none
  | j => (decode j).map some

@[simp] theorem optional?_cons_self (h : Lacks fields name) :
    optional? ((name, j) :: fields) name decode = option? decode j := by
  rw [optional?, lookup?_cons_self h]
  cases j with
  | null => rfl
  | _ => exact Option.map_eq_bind.symm

theorem option?_eq_some (hnull : decode null = none) (h : decode j = some a) :
    option? decode j = some (some a) := by
  cases j with
  | null => exact absurd (hnull.symm.trans h) nofun
  | _ => simp only [option?, h, Option.map_some]

@[simp] theorem string?_string (s : String) : (string s).string? = some s := rfl

@[simp] theorem bool?_bool (b : Bool) : (bool b).bool? = some b := rfl

@[simp] theorem fields?_object (fields : List (String × Json)) :
    (object fields).fields? = some fields := rfl

@[simp] theorem unit?_null : null.unit? = some () := rfl

@[simp] theorem listOf?_array (items : List Json) :
    listOf? decode (array items) = items.mapM decode := rfl

@[simp] theorem variant?_string (tag : String) : (string tag).variant? = some (tag, null) := rfl

@[simp] theorem variant?_tagged (tag : String) (content : Json) :
    (tagged tag content).variant? = some (tag, content) := rfl

/-! ### Depth -/

theorem depth_pos (j : Json) : 0 < j.depth := by
  cases j <;> simp only [depth] <;> omega

/-- Nothing is decoded without fuel. -/
theorem exists_fuel {j : Json} {fuel : Nat} (h : j.depth ≤ fuel) : ∃ rest, fuel = rest + 1 :=
  Nat.exists_eq_add_one.2 (Nat.lt_of_lt_of_le j.depth_pos h)

theorem depth_tagged (tag : String) (content : Json) :
    (tagged tag content).depth = content.depth + 1 := by
  simp only [tagged, depth, depthFields, Nat.max_zero]

end Json

/-! ## Words -/

@[simp] theorem BinaryOp.ofJson?_toJson (op : BinaryOp) : ofJson? op.toJson = some op := by
  cases op <;> rfl

@[simp] theorem UnaryOp.ofJson?_toJson (op : UnaryOp) : ofJson? op.toJson = some op := by
  cases op <;> rfl

@[simp] theorem Chunk.Kind.ofJson?_toJson (k : Kind) : ofJson? k.toJson = some k := by
  cases k <;> rfl

@[simp] theorem Ordinal.ofJson?_toJson (o : Ordinal) : ofJson? o.toJson = some o := by
  cases o <;> rfl

@[simp] theorem PartType.ofJson?_toJson (t : PartType) : ofJson? t.toJson = some t := by
  cases t <;> rfl

@[simp] theorem Layer.ofJson?_toJson (l : Layer) : ofJson? l.toJson = some l := by
  cases l <;> rfl

@[simp] theorem Position.ofJson?_toJson (p : Position) : ofJson? p.toJson = some p := by
  cases p <;> rfl

@[simp] theorem Preposition.ofJson?_toJson (p : Preposition) : ofJson? p.toJson = some p := by
  cases p <;> rfl

@[simp] theorem TimeUnit.ofJson?_toJson (u : TimeUnit) : ofJson? u.toJson = some u := by
  cases u <;> rfl

@[simp] theorem Symbol.ofJson?_toJson (s : Symbol) : ofJson? s.toJson = some s := rfl

@[simp] theorem Symbol.mapM_ofJson (names : List Symbol) :
    names.mapM (ofJson? ∘ toJson) = some names :=
  mapM_decode_encode fun name _ => name.ofJson?_toJson

@[simp] theorem option?_layerJson (layer : Option Layer) :
    option? Layer.ofJson? (layerJson layer) = some layer := by
  cases layer with
  | none => rfl
  | some l => exact option?_eq_some rfl l.ofJson?_toJson

/-! ## Expressions -/

theorem Expr.decode_null (fuel : Nat) : Expr.decode fuel null = none := by
  cases fuel <;> rfl

theorem IndexExpr.decode_null (fuel : Nat) : IndexExpr.decode fuel null = none := by
  cases fuel <;> rfl

theorem ChunkExpr.decode_null (fuel : Nat) : ChunkExpr.decode fuel null = none := by
  cases fuel <;> rfl

theorem PartExpr.decode_null (fuel : Nat) : PartExpr.decode fuel null = none := by
  cases fuel <;> rfl

mutual

theorem Expr.decode_toJson (e : Expr) (fuel : Nat) (h : e.toJson.depth ≤ fuel) :
    Expr.decode fuel e.toJson = some e := by
  obtain ⟨fuel, rfl⟩ := exists_fuel h
  cases e with
  | literal text quoted => simp [Expr.toJson, Expr.decode]
  | var name => simp [Expr.toJson, Expr.decode]
  | binary op lhs rhs =>
    simp only [Expr.toJson, depth_tagged, depth, depthFields] at h
    have hlhs := lhs.decode_toJson fuel (by omega)
    have hrhs := rhs.decode_toJson fuel (by omega)
    simp [Expr.toJson, Expr.decode, hlhs, hrhs]
  | unary op operand =>
    simp only [Expr.toJson, depth_tagged, depth, depthFields] at h
    have hoperand := operand.decode_toJson fuel (by omega)
    simp [Expr.toJson, Expr.decode, hoperand]
  | chunk c source =>
    simp only [Expr.toJson, depth_tagged, depth, depthFields] at h
    have hchunk := c.decode_toJson fuel (by omega)
    have hsource := source.decode_toJson fuel (by omega)
    simp [Expr.toJson, Expr.decode, hchunk, hsource]
  | property name part =>
    simp only [Expr.toJson, depth_tagged, depth, depthFields] at h
    have hpart := PartExpr.option?_optionJson part fuel (by omega)
    simp [Expr.toJson, Expr.decode, hpart]
  | part p =>
    simp only [Expr.toJson, depth_tagged] at h
    have hpart := p.decode_toJson fuel (by omega)
    simp [Expr.toJson, Expr.decode, hpart]
  | call name args =>
    simp only [Expr.toJson, depth_tagged, depth, depthFields] at h
    have hargs := Expr.mapM_listJson args fuel (by omega)
    simp [Expr.toJson, Expr.decode, hargs]
  | countChunks kind source =>
    simp only [Expr.toJson, depth_tagged, depth, depthFields] at h
    have hsource := source.decode_toJson fuel (by omega)
    simp [Expr.toJson, Expr.decode, hsource]
  | countParts type layer owner =>
    simp only [Expr.toJson, depth_tagged, depth, depthFields] at h
    have howner := PartExpr.option?_optionJson owner fuel (by omega)
    simp [Expr.toJson, Expr.decode, howner]

theorem Expr.mapM_listJson (es : List Expr) (fuel : Nat)
    (h : depthItems (Expr.listJson es) ≤ fuel) :
    (Expr.listJson es).mapM (Expr.decode fuel) = some es := by
  cases es with
  | nil => rfl
  | cons e rest =>
    simp only [Expr.listJson, depthItems] at h
    have he := e.decode_toJson fuel (by omega)
    have hrest := Expr.mapM_listJson rest fuel (by omega)
    simp [Expr.listJson, he, hrest]

theorem Expr.option?_optionJson (e : Option Expr) (fuel : Nat)
    (h : (Expr.optionJson e).depth ≤ fuel) :
    option? (Expr.decode fuel) (Expr.optionJson e) = some e := by
  cases e with
  | none => rfl
  | some e => exact option?_eq_some (Expr.decode_null fuel) (e.decode_toJson fuel h)

theorem IndexExpr.decode_toJson (i : IndexExpr) (fuel : Nat) (h : i.toJson.depth ≤ fuel) :
    IndexExpr.decode fuel i.toJson = some i := by
  obtain ⟨fuel, rfl⟩ := exists_fuel h
  cases i with
  | «at» number =>
    simp only [IndexExpr.toJson, depth_tagged] at h
    have hnumber := number.decode_toJson fuel (by omega)
    simp [IndexExpr.toJson, IndexExpr.decode, hnumber]
  | ordinal word => simp [IndexExpr.toJson, IndexExpr.decode]

theorem IndexExpr.option?_optionJson (i : Option IndexExpr) (fuel : Nat)
    (h : (IndexExpr.optionJson i).depth ≤ fuel) :
    option? (IndexExpr.decode fuel) (IndexExpr.optionJson i) = some i := by
  cases i with
  | none => rfl
  | some i => exact option?_eq_some (IndexExpr.decode_null fuel) (i.decode_toJson fuel h)

theorem ChunkExpr.decode_toJson (c : ChunkExpr) (fuel : Nat) (h : c.toJson.depth ≤ fuel) :
    ChunkExpr.decode fuel c.toJson = some c := by
  obtain ⟨fuel, rfl⟩ := exists_fuel h
  cases c with
  | mk kind start stop outer =>
    simp only [ChunkExpr.toJson, depth, depthFields] at h
    have hstart := start.decode_toJson fuel (by omega)
    have hstop := IndexExpr.option?_optionJson stop fuel (by omega)
    have houter := ChunkExpr.option?_optionJson outer fuel (by omega)
    simp [ChunkExpr.toJson, ChunkExpr.decode, hstart, hstop, houter]

theorem ChunkExpr.option?_optionJson (c : Option ChunkExpr) (fuel : Nat)
    (h : (ChunkExpr.optionJson c).depth ≤ fuel) :
    option? (ChunkExpr.decode fuel) (ChunkExpr.optionJson c) = some c := by
  cases c with
  | none => rfl
  | some c => exact option?_eq_some (ChunkExpr.decode_null fuel) (c.decode_toJson fuel h)

theorem PartExpr.decode_toJson (p : PartExpr) (fuel : Nat) (h : p.toJson.depth ≤ fuel) :
    PartExpr.decode fuel p.toJson = some p := by
  obtain ⟨fuel, rfl⟩ := exists_fuel h
  cases p with
  | id layer type id =>
    simp only [PartExpr.toJson, depth_tagged, depth, depthFields] at h
    have hid := id.decode_toJson fuel (by omega)
    simp [PartExpr.toJson, PartExpr.decode, hid]
  | named layer type name =>
    simp only [PartExpr.toJson, depth_tagged, depth, depthFields] at h
    have hname := name.decode_toJson fuel (by omega)
    simp [PartExpr.toJson, PartExpr.decode, hname]
  | ordinal layer type word => simp [PartExpr.toJson, PartExpr.decode]
  | position type position => simp [PartExpr.toJson, PartExpr.decode]
  | stack name =>
    simp only [PartExpr.toJson, depth_tagged, depth, depthFields] at h
    have hname := Expr.option?_optionJson name fuel (by omega)
    simp [PartExpr.toJson, PartExpr.decode, hname]
  | of part owner =>
    simp only [PartExpr.toJson, depth_tagged, depth, depthFields] at h
    have hpart := part.decode_toJson fuel (by omega)
    have howner := owner.decode_toJson fuel (by omega)
    simp [PartExpr.toJson, PartExpr.decode, hpart, howner]
  | me => rfl
  | target => rfl

theorem PartExpr.option?_optionJson (p : Option PartExpr) (fuel : Nat)
    (h : (PartExpr.optionJson p).depth ≤ fuel) :
    option? (PartExpr.decode fuel) (PartExpr.optionJson p) = some p := by
  cases p with
  | none => rfl
  | some p => exact option?_eq_some (PartExpr.decode_null fuel) (p.decode_toJson fuel h)

end

@[simp] theorem Expr.ofJson?_toJson (e : Expr) : ofJson? e.toJson = some e :=
  e.decode_toJson _ (Nat.le_refl _)

@[simp] theorem Expr.option?_ofJson (e : Option Expr) :
    option? ofJson? (optionJson e) = some e := by
  cases e with
  | none => rfl
  | some e => exact option?_eq_some rfl e.ofJson?_toJson

@[simp] theorem Expr.mapM_ofJson (es : List Expr) : (listJson es).mapM ofJson? = some es := by
  induction es with
  | nil => rfl
  | cons e rest ih => simp [listJson, ih]

@[simp] theorem ChunkExpr.ofJson?_toJson (c : ChunkExpr) : ofJson? c.toJson = some c :=
  c.decode_toJson _ (Nat.le_refl _)

@[simp] theorem ChunkExpr.option?_ofJson (c : Option ChunkExpr) :
    option? ofJson? (optionJson c) = some c := by
  cases c with
  | none => rfl
  | some c => exact option?_eq_some rfl c.ofJson?_toJson

@[simp] theorem PartExpr.ofJson?_toJson (p : PartExpr) : ofJson? p.toJson = some p :=
  p.decode_toJson _ (Nat.le_refl _)

@[simp] theorem PartExpr.option?_ofJson (p : Option PartExpr) :
    option? ofJson? (optionJson p) = some p := by
  cases p with
  | none => rfl
  | some p => exact option?_eq_some rfl p.ofJson?_toJson

@[simp] theorem Container.ofJson?_toJson (c : Container) : ofJson? c.toJson = some c := by
  cases c <;> simp [toJson, ofJson?]

@[simp] theorem LoopKind.ofJson?_toJson (k : LoopKind) : ofJson? k.toJson = some k := by
  cases k <;> simp [toJson, ofJson?]

/-! ## Statements -/

/-- Line and column fit words of thirty-two bits. -/
def Span.fits (s : Span) : Bool :=
  s.line < Number.halfWordCount && s.column < Number.halfWordCount

mutual

/-- All spans inside the command fit. -/
def Command.fits : Command → Bool
  | .choose _ whenTrue whenFalse => Statement.allFit whenTrue && Statement.allFit whenFalse
  | .loop _ body => Statement.allFit body
  | _ => true

def Statement.fits : Statement → Bool
  | .mk span command => span.fits && command.fits

def Statement.allFit : List Statement → Bool
  | [] => true
  | s :: rest => s.fits && Statement.allFit rest

end

theorem Json.natBelow?_ofNat {n limit : Nat} (h : n < limit) :
    natBelow? limit (ofNat n) = some n := by
  simp [natBelow?, ofNat, h]

theorem Span.ofJson?_toJson {s : Span} (h : s.fits) : ofJson? s.toJson = some s := by
  simp only [fits, Bool.and_eq_true, decide_eq_true_eq] at h
  -- steps are recorded one by one, so that no check ever counts up to the limit
  simp -implicitDefEqProofs [toJson, ofJson?, natBelow?_ofNat h.1, natBelow?_ofNat h.2]

mutual

theorem Command.decode_toJson (c : Command) (hc : c.fits) (fuel : Nat)
    (h : c.toJson.depth ≤ fuel) : Command.decode fuel c.toJson = some c := by
  obtain ⟨fuel, rfl⟩ := exists_fuel h
  cases c with
  | choose condition whenTrue whenFalse =>
    simp only [Command.fits, Bool.and_eq_true] at hc
    simp only [Command.toJson, depth_tagged, depth, depthFields] at h
    have htrue := Statement.mapM_listJson whenTrue hc.1 fuel (by omega)
    have hfalse := Statement.mapM_listJson whenFalse hc.2 fuel (by omega)
    simp [Command.toJson, Command.decode, Command.plain?, htrue, hfalse]
  | loop kind body =>
    simp only [Command.fits] at hc
    simp only [Command.toJson, depth_tagged, depth, depthFields] at h
    have hbody := Statement.mapM_listJson body hc fuel (by omega)
    simp [Command.toJson, Command.decode, Command.plain?, hbody]
  | _ => simp [Command.toJson, Command.decode, Command.plain?, Command.simple?]

theorem Statement.decode_toJson (s : Statement) (hs : s.fits) (fuel : Nat)
    (h : s.toJson.depth ≤ fuel) : Statement.decode fuel s.toJson = some s := by
  obtain ⟨fuel, rfl⟩ := exists_fuel h
  cases s with
  | mk span command =>
    simp only [Statement.fits, Bool.and_eq_true] at hs
    simp only [Statement.toJson, depth, depthFields] at h
    have hcommand := command.decode_toJson hs.2 fuel (by omega)
    simp -implicitDefEqProofs [Statement.toJson, Statement.decode, Span.ofJson?_toJson hs.1,
      hcommand]

theorem Statement.mapM_listJson (body : List Statement) (hbody : Statement.allFit body)
    (fuel : Nat) (h : depthItems (Statement.listJson body) ≤ fuel) :
    (Statement.listJson body).mapM (Statement.decode fuel) = some body := by
  cases body with
  | nil => rfl
  | cons s rest =>
    simp only [Statement.allFit, Bool.and_eq_true] at hbody
    simp only [Statement.listJson, depthItems] at h
    have hs := s.decode_toJson hbody.1 fuel (by omega)
    have hrest := Statement.mapM_listJson rest hbody.2 fuel (by omega)
    simp [Statement.listJson, hs, hrest]

end

theorem Command.ofJson?_toJson {c : Command} (h : c.fits) : ofJson? c.toJson = some c :=
  c.decode_toJson h _ (Nat.le_refl _)

theorem Statement.ofJson?_toJson {s : Statement} (h : s.fits) : ofJson? s.toJson = some s :=
  s.decode_toJson h _ (Nat.le_refl _)

theorem Statement.mapM_ofJson {body : List Statement} (h : allFit body) :
    (listJson body).mapM ofJson? = some body := by
  induction body with
  | nil => rfl
  | cons s rest ih =>
    simp only [allFit, Bool.and_eq_true] at h
    simp [listJson, ofJson?_toJson h.1, ih h.2]

/-! ## Scripts -/

def Handler.fits (h : Handler) : Bool :=
  Statement.allFit h.body && h.span.fits

def Script.fits (s : Script) : Bool :=
  s.handlers.all (·.fits)

theorem Handler.ofJson?_toJson {h : Handler} (hfits : h.fits) : ofJson? h.toJson = some h := by
  simp only [fits, Bool.and_eq_true] at hfits
  simp -implicitDefEqProofs [toJson, ofJson?, Statement.mapM_ofJson hfits.1,
    Span.ofJson?_toJson hfits.2]

theorem Script.ofJson?_toJson {s : Script} (h : s.fits) : ofJson? s.toJson = some s := by
  have hhandlers : s.handlers.mapM (Handler.ofJson? ∘ Handler.toJson) = some s.handlers :=
    mapM_decode_encode fun handler hmem =>
      Handler.ofJson?_toJson (List.all_eq_true.1 h handler hmem)
  simp [toJson, ofJson?, hhandlers]

/-! ## Snapshots -/

namespace Text

/-- What comes after all the others is added at the end. -/
theorem insertEntry_of_lt {name text : String} {entries : List (String × String)}
    (h : ∀ e ∈ entries, e.1 < name) :
    insertEntry name text entries = entries ++ [(name, text)] := by
  induction entries with
  | nil => rfl
  | cons e rest ih =>
    obtain ⟨he, hrest⟩ := List.forall_mem_cons.1 h
    rw [insertEntry, if_neg (String.lt_asymm he), if_pos he, ih hrest, List.cons_append]

namespace Dictionary

theorem entries_foldl_insert (rest : List (String × String)) (d : Dictionary)
    (h : SortedNames (d.entries ++ rest)) :
    (rest.foldl (fun d (name, text) => d.insert name text) d).entries = d.entries ++ rest := by
  induction rest generalizing d with
  | nil => simp
  | cons e rest ih =>
    have hlast : ∀ e' ∈ d.entries, e'.1 < e.1 := fun e' he' =>
      (List.pairwise_append.1 h).2.2 e' he' e List.mem_cons_self
    have hinsert : (d.insert e.1 e.2).entries = d.entries ++ [e] := insertEntry_of_lt hlast
    rw [List.foldl_cons, ih, hinsert, List.append_assoc, List.singleton_append]
    rwa [hinsert, List.append_assoc, List.singleton_append]

theorem eq_of_entries {d d' : Dictionary} (h : d.entries = d'.entries) : d = d' := by
  cases d
  cases h
  rfl

theorem ofList_entries (d : Dictionary) : ofList d.entries = d := by
  have hentries : (ofList d.entries).entries = d.entries :=
    entries_foldl_insert d.entries empty d.sorted
  exact eq_of_entries hentries

end Dictionary

end Text

@[simp] theorem dictionary?_dictionaryJson (d : Text.Dictionary) :
    dictionary? (dictionaryJson d) = some d := by
  have hentries : d.entries.mapM ((fun (name, value) => do return (name, ← string? value)) ∘
      fun (name, text) => (name, string text)) = some d.entries :=
    mapM_decode_encode fun _ _ => rfl
  rw [dictionaryJson, dictionary?, fields?_object, Option.bind_eq_bind, Option.bind_some,
    List.mapM_map, hentries]
  exact congrArg some d.ofList_entries

def PartSnapshot.fits (p : PartSnapshot) : Bool :=
  p.script.fits

def BackgroundSnapshot.fits (b : BackgroundSnapshot) : Bool :=
  b.script.fits && b.buttons.all (·.fits) && b.fields.all (·.fits)

/-- The background is given by a word of sixty-four bits. -/
def CardSnapshot.fits (c : CardSnapshot) : Bool :=
  c.background < Number.wordCount && c.script.fits && c.buttons.all (·.fits) &&
    c.fields.all (·.fits)

def StackSnapshot.fits (s : StackSnapshot) : Bool :=
  s.script.fits && s.backgrounds.all (·.fits) && s.cards.all (·.fits)

theorem PartSnapshot.ofJson?_toJson {p : PartSnapshot} (h : p.fits) :
    ofJson? p.toJson = some p := by
  simp [toJson, ofJson?, Script.ofJson?_toJson h]

theorem PartSnapshot.mapM_ofJson {parts : List PartSnapshot} (h : parts.all (·.fits)) :
    parts.mapM (ofJson? ∘ toJson) = some parts :=
  mapM_decode_encode fun p hp => ofJson?_toJson (List.all_eq_true.1 h p hp)

theorem BackgroundSnapshot.ofJson?_toJson {b : BackgroundSnapshot} (h : b.fits) :
    ofJson? b.toJson = some b := by
  simp only [fits, Bool.and_eq_true] at h
  obtain ⟨⟨hscript, hbuttons⟩, hfields⟩ := h
  simp [toJson, ofJson?, Script.ofJson?_toJson hscript, PartSnapshot.mapM_ofJson hbuttons,
    PartSnapshot.mapM_ofJson hfields]

theorem CardSnapshot.ofJson?_toJson {c : CardSnapshot} (h : c.fits) :
    ofJson? c.toJson = some c := by
  simp only [fits, Bool.and_eq_true, decide_eq_true_eq] at h
  obtain ⟨⟨⟨hbackground, hscript⟩, hbuttons⟩, hfields⟩ := h
  simp -implicitDefEqProofs [toJson, ofJson?, natBelow?_ofNat hbackground,
    Script.ofJson?_toJson hscript, PartSnapshot.mapM_ofJson hbuttons,
    PartSnapshot.mapM_ofJson hfields]

theorem StackSnapshot.ofJson?_toJson {s : StackSnapshot} (h : s.fits) :
    ofJson? s.toJson = some s := by
  simp only [fits, Bool.and_eq_true] at h
  obtain ⟨⟨hscript, hbackgrounds⟩, hcards⟩ := h
  have hbackgrounds : s.backgrounds.mapM (BackgroundSnapshot.ofJson? ∘ BackgroundSnapshot.toJson) =
      some s.backgrounds :=
    mapM_decode_encode fun b hb =>
      BackgroundSnapshot.ofJson?_toJson (List.all_eq_true.1 hbackgrounds b hb)
  have hcards : s.cards.mapM (CardSnapshot.ofJson? ∘ CardSnapshot.toJson) = some s.cards :=
    mapM_decode_encode fun c hc => CardSnapshot.ofJson?_toJson (List.all_eq_true.1 hcards c hc)
  simp [toJson, ofJson?, Script.ofJson?_toJson hscript, hbackgrounds, hcards]

/-- **What was written is read back.** Decoding the encoded form of a script, a handler, a statement
or command, an expression, a chunk, a container, the address of a part, or a snapshot gives the same
tree again. Numbers are to fit the words they are exchanged as. -/
theorem decode_encode :
    (∀ s : Script, s.fits → Script.ofJson? s.toJson = some s) ∧
    (∀ h : Handler, h.fits → Handler.ofJson? h.toJson = some h) ∧
    (∀ s : Statement, s.fits → Statement.ofJson? s.toJson = some s) ∧
    (∀ c : Command, c.fits → Command.ofJson? c.toJson = some c) ∧
    (∀ e : Expr, Expr.ofJson? e.toJson = some e) ∧
    (∀ c : ChunkExpr, ChunkExpr.ofJson? c.toJson = some c) ∧
    (∀ c : Container, Container.ofJson? c.toJson = some c) ∧
    (∀ p : PartExpr, PartExpr.ofJson? p.toJson = some p) ∧
    ∀ s : StackSnapshot, s.fits → StackSnapshot.ofJson? s.toJson = some s :=
  ⟨fun _ => Script.ofJson?_toJson, fun _ => Handler.ofJson?_toJson,
    fun _ => Statement.ofJson?_toJson, fun _ => Command.ofJson?_toJson, Expr.ofJson?_toJson,
    ChunkExpr.ofJson?_toJson, Container.ofJson?_toJson, PartExpr.ofJson?_toJson,
    fun _ => StackSnapshot.ofJson?_toJson⟩

/-- A statement with others inside it, in the last column that can be exchanged, in the script of a
card on the last such background. -/
theorem decode_encode_nested :
    let command : Command :=
      .choose (.binary .less (.var ⟨"Count"⟩) (.literal "10" false))
        [.mk { line := 3, column := 4 } (.loop .forever [.mk {} .exitRepeat])] []
    let statement : Statement := .mk { line := 2, column := 4294967295 } command
    let handler : Handler := { name := ⟨"MouseUp"⟩, params := [⟨"Count"⟩], body := [statement] }
    let script : Script := { handlers := [handler] }
    let snapshot : StackSnapshot :=
      { cards := [{ background := 18446744073709551615, script,
                    backgroundText := .ofList [("notes", "one"), ("Notes", "two")] }] }
    Script.ofJson? script.toJson = some script ∧ Handler.ofJson? handler.toJson = some handler ∧
      Statement.ofJson? statement.toJson = some statement ∧
      Command.ofJson? command.toJson = some command ∧
      StackSnapshot.ofJson? snapshot.toJson = some snapshot := by
  obtain ⟨hscript, hhandler, hstatement, hcommand, _, _, _, _, hsnapshot⟩ := decode_encode
  exact ⟨hscript _ (by decide), hhandler _ (by decide), hstatement _ (by decide),
    hcommand _ (by decide), hsnapshot _ (by decide)⟩

end CardScript
