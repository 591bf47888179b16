import CardScript.Proofs.Script.Whereabouts
import CardScript.Proofs.Stack.Entries
import CardScript.Proofs.Text.LetterCase

/-!
# Properties that belong to no part

Scripts set these properties in many ways, but all of them come down to one table. Setting a
property neither adds nor removes a name (`PropertyTable.names_set`) and never touches a name that
scripts cannot set. The item delimiter is guarded by its name up to the case of ASCII letters and
stored under its lower-cased name; no other name is stored there, so it is never left empty
(`World.Furnished.setProperty`). One change of the world keeps all this, hence a run does, and a
reset begins anew (`World.Furnished.after`).
-/

namespace CardScript

/-! ## Tables -/

namespace PropertyTable

variable {t t' : PropertyTable} {name : String} {value : Value}

/-- The names of a table, in lower case. -/
def names (t : PropertyTable) : List String :=
  t.entries.map (·.1)

theorem map_fst_put {key : String} {entries : List (String × Value)}
    (h : key ∈ entries.map (·.1)) (value : Value) :
    (put key value entries).map (·.1) = entries.map (·.1) := by
  induction entries with
  | nil => cases h
  | cons e rest ih =>
    simp only [put]
    split
    · rfl
    next hne =>
      have hrest : key ∈ rest.map (·.1) := by
        rcases List.mem_cons.1 h with rfl | h
        · exact absurd (beq_self_eq_true _) hne
        · exact h
      rw [List.map_cons, ih hrest, List.map_cons]

theorem find?_eq_none_iff {key : String} : t.find? key = none ↔ key ∉ t.names := by
  simp only [find?, names, Option.map_eq_none_iff, List.find?_eq_none, List.mem_map, beq_iff_eq,
    not_exists, not_and]

/-- What scripts can set is in the table and is not kept from them. -/
theorem settable_of_set (h : t.set name value = .ok t') :
    Text.lowerString name ∉ t.readOnly ∧ Text.lowerString name ∈ t.names := by
  obtain ⟨_, h, -⟩ := Failure.bind_eq_ok.1 h
  rw [checkSet] at h
  split at h
  · cases h
  next hreadOnly =>
    refine ⟨by simpa using hreadOnly, ?_⟩
    by_contra hkey
    rw [find?_eq_none_iff.2 hkey] at h
    cases h

/-- A table takes up no name and loses none. -/
theorem names_set (h : t.set name value = .ok t') : t'.names = t.names := by
  rw [set_eq_ok h]
  exact map_fst_put (settable_of_set h).2 value

theorem readOnly_set (h : t.set name value = .ok t') : t'.readOnly = t.readOnly := by
  rw [set_eq_ok h]

/-- What scripts cannot set stays as it is. -/
theorem find?_set_readOnly {key : String} (h : t.set name value = .ok t')
    (hkey : key ∈ t.readOnly) : t'.find? key = t.find? key := by
  refine find?_set_ne h ?_
  rintro rfl
  exact (settable_of_set h).1 hkey

end PropertyTable

/-! ## The world -/

namespace World

variable {settings : Settings} {w w' : World}

/-- The properties that belong to no part are those that the settings give rise to, the version is
what it was, and items are divided by something. -/
structure Furnished (settings : Settings) (w : World) : Prop where
  settings_eq : w.settings = settings
  names_eq : w.properties.names = (usualProperties settings).names
  readOnly_eq : w.properties.readOnly = (usualProperties settings).readOnly
  version_eq : w.properties.find? "systemversion" = some (.ofText systemVersion)
  delimiter_ne : w.itemDelimiter ≠ []

theorem names_usualProperties (settings : Settings) : (usualProperties settings).names =
    ["itemdelimiter", "lockscreen", "lockmessages", "userlevel", "systemversion"] := by
  rfl

theorem readOnly_usualProperties (settings : Settings) :
    (usualProperties settings).readOnly = ["systemversion"] := by
  rfl

namespace Furnished

theorem of_usual (hsettings : w.settings = settings) (h : w.properties = usualProperties settings)
    (hdelimiter : settings.itemDelimiter ≠ "") : w.Furnished settings where
  settings_eq := hsettings
  names_eq := by rw [h]
  readOnly_eq := by rw [h]
  version_eq := by
    rw [h]
    rfl
  delimiter_ne := by
    have hfind : (usualProperties settings).find? "itemdelimiter" =
        some (.ofText settings.itemDelimiter) := by rfl
    rw [itemDelimiter, h, hfind]
    exact fun hnil => hdelimiter (String.toList_eq_nil_iff.1 hnil)

theorem congr (hw : w.Furnished settings) (hsettings : w'.settings = w.settings)
    (hproperties : w'.properties = w.properties) : w'.Furnished settings where
  settings_eq := hsettings.trans hw.settings_eq
  names_eq := by rw [hproperties, hw.names_eq]
  readOnly_eq := by rw [hproperties, hw.readOnly_eq]
  version_eq := by rw [hproperties, hw.version_eq]
  delimiter_ne := by
    have hdelimiter := hw.delimiter_ne
    unfold itemDelimiter at hdelimiter ⊢
    rwa [hproperties]

theorem setProperty (hw : w.Furnished settings) (h : w.setProperty name value = .ok w') :
    w'.Furnished settings := by
  obtain ⟨table, htable, rfl, -, hvalue⟩ := setProperty_eq_ok h
  have hversion : "systemversion" ∈ w.properties.readOnly := by
    rw [hw.readOnly_eq, readOnly_usualProperties]
    exact List.mem_singleton_self _
  refine ⟨hw.settings_eq, ?_, ?_, ?_, ?_⟩
  · exact (PropertyTable.names_set htable).trans hw.names_eq
  · exact (PropertyTable.readOnly_set htable).trans hw.readOnly_eq
  · exact (PropertyTable.find?_set_readOnly htable hversion).trans hw.version_eq
  · have hkey : Text.lowerString "itemDelimiter" = "itemdelimiter" := by decide +kernel
    by_cases hname : Text.lowerString name = "itemdelimiter"
    · -- the guard looks at the name in another way than the table does
      have hletters : ∀ d ∈ (Text.lowerString "itemDelimiter").toList, Text.isPlainLetter d :=
        List.all_eq_true.1 (by decide +kernel)
      have hguard := Text.sameIgnoringAsciiCase_of_lowerString hletters (hname.trans hkey.symm)
      have hfind := PropertyTable.find?_set htable
      rw [hname] at hfind
      rw [itemDelimiter, hfind]
      intro hnil
      have hempty : value.isEmpty = true := by
        rw [Value.isEmpty, String.toList_eq_nil_iff.1 hnil]
        rfl
      exact Bool.false_ne_true ((hvalue hguard).symm.trans hempty)
    · have hfind := PropertyTable.find?_set_ne htable (Ne.symm hname)
      have hdelimiter := hw.delimiter_ne
      unfold itemDelimiter at hdelimiter ⊢
      rwa [hfind]

theorem change (hw : w.Furnished settings) (h : Change w w') : w'.Furnished settings := by
  cases h with
  | property h => exact hw.setProperty h
  | contents h | partProperty h =>
    obtain ⟨s, -, h⟩ := Failure.bind_eq_ok.1 h
    cases h
    exact hw.congr rfl rfl
  | _ => exact hw.congr rfl rfl

/-- The selected text is asked of the desktop and not kept among the properties. -/
theorem selectedText (hw : w.Furnished settings) :
    w.properties.find? "selectedtext" = none := by
  rw [PropertyTable.find?_eq_none_iff, hw.names_eq, names_usualProperties]
  decide

theorem version (hw : w.Furnished settings)
    (hname : Text.lowerString name = Text.lowerString "systemVersion") :
    w.property name = .ok (.ofText systemVersion) := by
  have hkey : Text.lowerString "systemVersion" = "systemversion" := by decide +kernel
  have hletters : ∀ d ∈ (Text.lowerString "systemVersion").toList, Text.isPlainLetter d :=
    List.all_eq_true.1 (by decide +kernel)
  have hsame := Text.sameIgnoringAsciiCase_of_lowerString hletters hname
  have hother : Text.sameIgnoringAsciiCase name "selectedText" = false := by
    rw [Text.sameIgnoringAsciiCase, eq_of_beq hsame]
    decide
  rw [property, hother, if_neg Bool.false_ne_true, PropertyTable.get, hname, hkey, hw.version_eq]

end Furnished

end World

theorem Machine.Course.furnished {m m' : Machine} (h : Course e m m')
    (hm : m.world.Furnished settings) : m'.world.Furnished settings := by
  induction h with
  | refl => exact hm
  | trans _ _ ih₁ ih₂ => exact ih₂ (ih₁ hm)
  | world h => exact hm.change h
  | call hpush _ ih =>
    obtain ⟨-, f, -, -, -, -, -, -, hworld⟩ := pushFrame_eq_ok hpush
    refine ih ?_
    rw [hworld]
    exact hm.congr rfl rfl
  | send _ ih => exact ih hm
  | _ => exact hm

/-! ## Runs and resets -/

/-- What comes to a world: a request, or a reset. -/
inductive Episode where
  | visit (v : Visit)
  | reset

namespace World

variable {settings : Settings} {w : World}

/-- The world after an episode. -/
def afterEpisode (w : World) : Episode → World
  | .visit v => (w.answer v).2
  | .reset => w.reset

/-- The world after some episodes. -/
def afterEpisodes (w : World) (episodes : List Episode) : World :=
  episodes.foldl afterEpisode w

theorem Furnished.afterEpisode (hw : w.Furnished settings)
    (hdelimiter : settings.itemDelimiter ≠ "") (episode : Episode) :
    (w.afterEpisode episode).Furnished settings := by
  cases episode with
  | visit v =>
    have hstart : (v.start w).world.Furnished settings := hw.congr rfl rfl
    simp only [World.afterEpisode, answer_eq]
    exact (v.action_follows (v.start w)).furnished hstart
  | reset =>
    refine .of_usual hw.settings_eq ?_ hdelimiter
    rw [← hw.settings_eq]
    rfl

theorem furnished_opening (hdelimiter : settings.itemDelimiter ≠ "") (allStacks : List Stack)
    (opened : List Nat) : (opening settings allStacks opened).Furnished settings :=
  List.foldlRecOn opened openStack (motive := fun w => w.Furnished settings)
    (.of_usual rfl rfl hdelimiter) fun _ hw _ _ => hw.congr rfl rfl

theorem furnished_afterEpisodes (hdelimiter : settings.itemDelimiter ≠ "") (allStacks : List Stack)
    (opened : List Nat) (episodes : List Episode) :
    ((opening settings allStacks opened).afterEpisodes episodes).Furnished settings :=
  List.foldlRecOn episodes World.afterEpisode (motive := fun w => w.Furnished settings)
    (furnished_opening hdelimiter allStacks opened)
    fun _ hw episode _ => hw.afterEpisode hdelimiter episode

/-- **Properties that belong to no part stay well formed.** Whatever requests and resets come to a
world whose settings have an item delimiter, its properties keep the names that they had at the
start, the version is what it was under any spelling of its name, items are divided by something,
and the selected text is not kept. The same holds in the middle of a run: whatever statements are
carried out, in whatever frame and however they end, they leave the properties well formed. -/
theorem properties_wellFormed {settings : Settings} (hdelimiter : settings.itemDelimiter ≠ "")
    (allStacks : List Stack) (opened : List Nat) (episodes : List Episode) :
    let w := (opening settings allStacks opened).afterEpisodes episodes
    (w.properties.names = (usualProperties settings).names ∧
      (∀ name, Text.lowerString name = Text.lowerString "systemVersion" →
        w.property name = .ok (.ofText systemVersion)) ∧
      w.itemDelimiter ≠ [] ∧ w.properties.find? "selectedtext" = none) ∧
    w.Furnished settings ∧
    ∀ (m : Machine) (fuel : Nat) (block : List Statement), m.world.Furnished settings →
      ((execBlock (invoke fuel) fuel block).after m).world.Furnished settings := by
  have hw := furnished_afterEpisodes hdelimiter allStacks opened episodes
  refine ⟨⟨hw.names_eq, fun name hname => hw.version hname, hw.delimiter_ne, hw.selectedText⟩, hw,
    ?_⟩
  intro m fuel block hm
  exact (execBlock_follows (invoke_follows fuel) block m).furnished hm

/-- The item delimiter is set under a name in capital letters, and is not emptied by a chunk. -/
theorem properties_wellFormed_emptied :
    let first : ChunkExpr := .mk .char (.at (.literal "1" false)) none none
    let comma : Visit :=
      { request := .eval none [.mk {} (.set ⟨"ITEMDELIMITER"⟩ none (.literal "," true))] }
    let nothing : Visit :=
      { request := .eval none [.mk {} (.put (.literal "" true) .into
          (.property ⟨"itemDelimiter"⟩ none (some first)))] }
    let w := (opening { itemDelimiter := ";" } [] []).afterEpisodes
      [.reset, .visit comma, .visit nothing]
    w.itemDelimiter = [','] ∧ (w.answer nothing).1.isOk = false ∧
      w.properties.names = (usualProperties { itemDelimiter := ";" }).names := by
  intro first comma nothing
  have hdelimiter : ({ itemDelimiter := ";" } : Settings).itemDelimiter ≠ "" := by decide
  have hfacts := properties_wellFormed hdelimiter [] [] [.reset, .visit comma, .visit nothing]
  exact ⟨by decide +kernel, by decide +kernel, hfacts.1.1⟩

end World

end CardScript
