import Mathlib.Data.List.Nodup
import SourceAtlas.Table

/-! Tables by their look-ups: what an insertion changes, and that equal look-ups make equal tables. -/
namespace SourceAtlas

variable {α : Type}

theorem find?_insertEntry (key other : String) (value : α) (entries : List (String × α)) :
    (insertEntry key value entries).find? (·.1 == other) =
      if key = other then some (key,value) else entries.find? (·.1 == other) := by
  induction entries with
  | nil => by_cases same : key = other <;> simp [insertEntry,same]
  | cons first rest ih =>
    unfold insertEntry
    split
    · by_cases same : key = other <;> simp [same]
    · next notLess =>
      split
      · next greater =>
        have apart : key ≠ first.1 := fun same => String.lt_irrefl _ (same ▸ greater)
        rw [List.find?_cons,List.find?_cons,ih]
        by_cases here : first.1 = other
        · have absent : key ≠ other := fun same => apart (same.trans here.symm)
          simp [here,absent]
        · simp [beq_false_of_ne here]
      · next notGreater =>
        have same := eq_of_not_lt notLess notGreater
        by_cases here : key = other
        · simp [here]
        · simp [here,same ▸ here]

theorem Increasing.keys_nodup {entries : List (String × α)} (order : Increasing entries) :
    (entries.map Prod.fst).Nodup := by
  apply List.pairwise_map.mpr
  apply order.imp
  intro a b less same
  exact String.lt_irrefl _ (same ▸ less)

namespace Table

theorem get?_insert (table : Table α) (key other : String) (value : α) :
    (table.insert key value).get? other = if key = other then some value else table.get? other := by
  rw [get?,insert,find?_insertEntry]
  split <;> rfl

theorem get?_eq_some_iff {table : Table α} {key : String} {value : α} :
    table.get? key = some value ↔ (key,value) ∈ table.entries := by
  constructor
  · intro found
    obtain ⟨entry,first,rfl⟩ := Option.map_eq_some_iff.mp found
    have same : entry.1 = key := by simpa using List.find?_some first
    exact same ▸ List.mem_of_find?_eq_some first
  · intro member
    have present : (table.entries.find? (·.1 == key)).isSome = true :=
      List.find?_isSome.mpr ⟨(key,value),member,by simp⟩
    obtain ⟨entry,first⟩ := Option.isSome_iff_exists.mp present
    have same : entry.1 = key := by simpa using List.find?_some first
    have unique := List.inj_on_of_nodup_map table.increasing.keys_nodup
      (List.mem_of_find?_eq_some first) member same
    rw [get?,first,unique]
    rfl

theorem mem_keys_iff {table : Table α} {key : String} :
    key ∈ table.keys ↔ ∃ value, table.get? key = some value := by
  simp [keys,get?_eq_some_iff]

theorem keys_nodup (table : Table α) : table.keys.Nodup := table.increasing.keys_nodup

/-- A table is determined by its look-ups: its entries stand in the one increasing order. -/
theorem eq_of_get? {first second : Table α} (same : ∀ key, first.get? key = second.get? key) :
    first = second := by
  have members (entry : String × α) : entry ∈ first.entries ↔ entry ∈ second.entries := by
    rw [← get?_eq_some_iff,← get?_eq_some_iff,same]
  have permuted : first.entries.Perm second.entries :=
    (List.perm_ext_iff_of_nodup first.increasing.keys_nodup.of_map
      second.increasing.keys_nodup.of_map).mpr members
  have equal : first.entries = second.entries := by
    apply List.Perm.eq_of_pairwise _ first.increasing second.increasing permuted
    intro a b _ _ less greater
    exact absurd (String.lt_trans less greater) (String.lt_irrefl _)
  cases first
  cases second
  cases equal
  rfl

theorem insert_comm (table : Table α) {a b : String} (x y : α) (different : a ≠ b) :
    (table.insert a x).insert b y = (table.insert b y).insert a x := by
  apply eq_of_get?
  intro other
  rw [get?_insert,get?_insert,get?_insert,get?_insert]
  by_cases here : a = other
  · have apart : b ≠ other := fun same => different (here.trans same.symm)
    rw [if_neg apart,if_pos here,if_pos here]
  · rw [if_neg here,if_neg here]

theorem insert_insert (table : Table α) (key : String) (first second : α) :
    (table.insert key first).insert key second = table.insert key second := by
  apply eq_of_get?
  intro other
  rw [get?_insert,get?_insert,get?_insert]
  by_cases same : key = other
  · rw [if_pos same,if_pos same]
  · rw [if_neg same,if_neg same,if_neg same]

end Table

end SourceAtlas
