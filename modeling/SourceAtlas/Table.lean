/-! Tables from texts to values, kept in increasing order of the keys. -/
namespace SourceAtlas

/-- Puts a value into an ordered list of entries, in place of one with the same key. -/
def insertEntry {α : Type} (key : String) (value : α) :
    List (String × α) → List (String × α)
  | [] => [(key, value)]
  | entry :: rest =>
    if key < entry.1 then (key, value) :: entry :: rest
    else if entry.1 < key then entry :: insertEntry key value rest
    else (key, value) :: rest

def Increasing {α : Type} (entries : List (String × α)) : Prop :=
  entries.Pairwise fun a b => a.1 < b.1

theorem mem_insertEntry {α : Type} {key : String} {value : α} {entries : List (String × α)}
    {entry : String × α} (inside : entry ∈ insertEntry key value entries) :
    entry = (key, value) ∨ entry ∈ entries := by
  induction entries with
  | nil => simpa [insertEntry] using inside
  | cons first rest ih =>
    unfold insertEntry at inside
    split at inside
    · simpa using inside
    · split at inside
      · rcases List.mem_cons.1 inside with here | later
        · exact .inr (by simp [here])
        · rcases ih later with same | old
          · exact .inl same
          · exact .inr (List.mem_cons_of_mem _ old)
      · rcases List.mem_cons.1 inside with here | later
        · exact .inl here
        · exact .inr (List.mem_cons_of_mem _ later)

theorem eq_of_not_lt {a b : String} (left : ¬a < b) (right : ¬b < a) : a = b :=
  String.le_antisymm (String.not_lt.1 right) (String.not_lt.1 left)

theorem increasing_insertEntry {α : Type} {key : String} {value : α} {entries : List (String × α)}
    (order : Increasing entries) : Increasing (insertEntry key value entries) := by
  induction entries with
  | nil => simp [insertEntry, Increasing]
  | cons first rest ih =>
    obtain ⟨above, tail⟩ := List.pairwise_cons.1 order
    unfold insertEntry
    split
    · next less =>
      refine List.pairwise_cons.2 ⟨fun entry inside => ?_, order⟩
      rcases List.mem_cons.1 inside with rfl | later
      · exact less
      · exact String.lt_trans less (above entry later)
    · next notLess =>
      split
      · next greater =>
        refine List.pairwise_cons.2 ⟨fun entry inside => ?_, ih tail⟩
        rcases mem_insertEntry inside with rfl | old
        · exact greater
        · exact above entry old
      · next notGreater =>
        have same := eq_of_not_lt notLess notGreater
        refine List.pairwise_cons.2 ⟨fun entry inside => ?_, tail⟩
        exact same ▸ above entry inside

structure Table (α : Type) where
  entries : List (String × α)
  increasing : Increasing entries

namespace Table

variable {α : Type}

def empty : Table α := ⟨[], List.Pairwise.nil⟩

def insert (table : Table α) (key : String) (value : α) : Table α :=
  ⟨insertEntry key value table.entries, increasing_insertEntry table.increasing⟩

def get? (table : Table α) (key : String) : Option α :=
  (table.entries.find? (·.1 == key)).map (·.2)

def keys (table : Table α) : List String := table.entries.map (·.1)

def values (table : Table α) : List α := table.entries.map (·.2)

end Table

end SourceAtlas
