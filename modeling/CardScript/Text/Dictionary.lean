/-!
# Dictionaries

Texts by name, sorted by name and each name once.
-/

namespace CardScript.Text

/-- The entries with one added, or replaced, at its place. -/
def insertEntry (name text : String) : List (String × String) → List (String × String)
  | [] => [(name, text)]
  | (other, t) :: rest =>
    if name < other then (name, text) :: (other, t) :: rest
    else if other < name then (other, t) :: insertEntry name text rest
    else (name, text) :: rest

theorem mem_insertEntry {name text : String} {entries : List (String × String)}
    {e : String × String} (h : e ∈ insertEntry name text entries) :
    e = (name, text) ∨ e ∈ entries := by
  induction entries with
  | nil => simpa [insertEntry] using h
  | cons head rest ih =>
    obtain ⟨other, t⟩ := head
    simp only [insertEntry] at h
    split at h
    · simpa using h
    · split at h
      · rcases List.mem_cons.1 h with rfl | h
        · simp
        · rcases ih h with h | h <;> simp [h]
      · rcases List.mem_cons.1 h with rfl | h <;> simp [*]

/-- Names in ascending order. -/
abbrev SortedNames (entries : List (String × String)) : Prop :=
  entries.Pairwise fun a b => a.1 < b.1

theorem SortedNames.insertEntry {name text : String} {entries : List (String × String)}
    (h : SortedNames entries) : SortedNames (insertEntry name text entries) := by
  induction entries with
  | nil => simp [Text.insertEntry, SortedNames]
  | cons head rest ih =>
    obtain ⟨other, t⟩ := head
    have ⟨hhead, hrest⟩ := List.pairwise_cons.1 h
    simp only [Text.insertEntry]
    split
    · next lt =>
      refine List.pairwise_cons.2 ⟨fun e he => ?_, h⟩
      rcases List.mem_cons.1 he with rfl | he
      · exact lt
      · exact String.lt_trans lt (hhead e he)
    · split
      · next lt =>
        refine List.pairwise_cons.2 ⟨fun e he => ?_, ih hrest⟩
        rcases mem_insertEntry he with rfl | he
        · exact lt
        · exact hhead e he
      · next notLt notGt =>
        have same : name = other :=
          String.le_antisymm (String.not_lt.1 notGt) (String.not_lt.1 notLt)
        exact List.pairwise_cons.2 ⟨by simpa [same] using hhead, hrest⟩

structure Dictionary where
  entries : List (String × String)
  sorted : SortedNames entries

namespace Dictionary

def empty : Dictionary :=
  ⟨[], .nil⟩

instance : Inhabited Dictionary := ⟨empty⟩

def insert (d : Dictionary) (name text : String) : Dictionary :=
  ⟨insertEntry name text d.entries, d.sorted.insertEntry⟩

/-- Of entries with the same name the last one counts. -/
def ofList (entries : List (String × String)) : Dictionary :=
  entries.foldl (fun d (name, text) => d.insert name text) empty

end Dictionary

end CardScript.Text
