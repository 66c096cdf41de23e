import Mathlib.Data.List.Basic

/-! The items of a list at chosen positions. Selections by position describe what a pass over a text
keeps without naming the steps of the pass. -/
namespace SourceAtlas

variable {α : Type}

/-- The items at the positions that pass a test, in order, when the first item is at `offset`. -/
def select (test : Nat → Bool) (items : List α) (offset : Nat := 0) : List α :=
  ((items.zipIdx offset).filter fun entry => test entry.2).map Prod.fst

theorem select_nil (test : Nat → Bool) (offset : Nat) : select test ([] : List α) offset = [] := rfl

theorem select_cons (test : Nat → Bool) (item : α) (rest : List α) (offset : Nat) :
    select test (item :: rest) offset =
      (if test offset then [item] else []) ++ select test rest (offset + 1) := by
  unfold select
  rw [List.zipIdx_cons,List.filter_cons]
  split <;> rfl

theorem select_append (test : Nat → Bool) (first second : List α) (offset : Nat) :
    select test (first ++ second) offset =
      select test first offset ++ select test second (offset + first.length) := by
  simp [select,List.zipIdx_append]

theorem select_congr {test other : Nat → Bool} {items : List α} (offset : Nat)
    (same : ∀ i, offset ≤ i → i < offset + items.length → test i = other i) :
    select test items offset = select other items offset := by
  induction items generalizing offset with
  | nil => rfl
  | cons item rest ih =>
    have here := same offset (Nat.le_refl _) (by simp)
    have later := ih (offset + 1) fun i low high =>
      same i (by omega) (by simp only [List.length_cons]; omega)
    rw [select_cons,select_cons,here,later]

theorem select_all {test : Nat → Bool} {items : List α} (offset : Nat)
    (all : ∀ i, offset ≤ i → i < offset + items.length → test i = true) :
    select test items offset = items := by
  have same : select test items offset = select (fun _ => true) items offset := select_congr offset all
  rw [same]
  simp [select]

theorem select_none {test : Nat → Bool} {items : List α} (offset : Nat)
    (none : ∀ i, offset ≤ i → i < offset + items.length → test i = false) :
    select test items offset = [] := by
  have same : select test items offset = select (fun _ => false) items offset :=
    select_congr offset none
  rw [same]
  simp [select]

theorem mem_select {test : Nat → Bool} {items : List α} {item : α} :
    item ∈ select test items ↔ ∃ i, items[i]? = some item ∧ test i = true := by
  simp only [select,List.mem_map,List.mem_filter,Prod.exists,List.mem_zipIdx_iff_getElem?]
  constructor
  · rintro ⟨other,i,⟨read,kept⟩,rfl⟩
    exact ⟨i,read,kept⟩
  · rintro ⟨i,read,kept⟩
    exact ⟨item,i,⟨read,kept⟩,rfl⟩

/-- A selection with what comes before and after one of its items. -/
theorem select_around {test : Nat → Bool} {items : List α} {position : Nat} {item : α}
    (read : items[position]? = some item) (kept : test position = true) :
    select test items = select (fun i => i < position && test i) items ++
      item :: select (fun i => position < i && test i) items := by
  obtain ⟨inside,value⟩ := List.getElem?_eq_some_iff.mp read
  have size : (items.take position).length = position := List.length_take_of_le (Nat.le_of_lt inside)
  have parts : items = items.take position ++ item :: items.drop (position + 1) := by
    rw [← value,List.getElem_cons_drop,List.take_append_drop]
  have before : select (fun i => i < position && test i) items =
      select test (items.take position) := by
    rw [parts,select_append,select_none (0 + _) fun i low _ => by simp; omega,List.append_nil,← parts]
    exact select_congr 0 fun i _ high => by simp; omega
  have after : select (fun i => position < i && test i) items =
      select test (items.drop (position + 1)) (position + 1) := by
    rw [parts,select_append,select_none 0 fun i _ high => by simp; omega,List.nil_append,size,
      select_cons,← parts,Nat.zero_add]
    simp only [Nat.lt_irrefl,decide_false,Bool.false_and,Bool.false_eq_true,if_false,List.nil_append]
    exact select_congr _ fun i low _ => by simp; omega
  rw [before,after]
  conv_lhs => rw [parts,select_append,select_cons,size,Nat.zero_add,if_pos kept]
  rfl

private theorem drop_take_eq_select_from (items : List α) (low high offset : Nat) :
    (items.take (high - offset)).drop (low - offset) =
      select (fun i => low ≤ i && i < high) items offset := by
  induction items generalizing offset with
  | nil => simp [select_nil]
  | cons item rest ih =>
    rcases Nat.lt_or_ge offset high with open' | closed
    · obtain ⟨n,size⟩ : ∃ n, high - offset = n + 1 := ⟨high - offset - 1,by omega⟩
      have later : high - (offset + 1) = n := by omega
      rw [select_cons,← ih,later,size,List.take_succ_cons]
      rcases Nat.lt_or_ge offset low with before | inside
      · obtain ⟨m,skip⟩ : ∃ m, low - offset = m + 1 := ⟨low - offset - 1,by omega⟩
        have rest : low - (offset + 1) = m := by omega
        simp [skip,rest,Nat.not_le_of_lt before]
      · have start : low - offset = 0 := by omega
        have rest : low - (offset + 1) = 0 := by omega
        simp [start,rest,inside,open']
    · rw [select_none offset fun i low _ => by simp; omega]
      simp [show high - offset = 0 by omega]

theorem drop_take_eq_select (items : List α) (low high : Nat) :
    (items.take high).drop low = select (fun i => low ≤ i && i < high) items :=
  drop_take_eq_select_from items low high 0

/-- A selection within bounds is one of the items between them. -/
theorem select_between {low high : Nat} (ordered : low ≤ high) {items : List α}
    (bounded : high ≤ items.length) (test : Nat → Bool) :
    select (fun i => (low ≤ i && i < high) && test i) items =
      select test ((items.drop low).take (high - low)) low := by
  have parts : items = items.take low ++ ((items.drop low).take (high - low) ++ items.drop high) := by
    rw [show items.drop high = (items.drop low).drop (high - low) by
      rw [List.drop_drop,Nat.add_sub_cancel' ordered],List.take_append_drop,List.take_append_drop]
  have front : (items.take low).length = low := List.length_take_of_le (by omega)
  have middle : ((items.drop low).take (high - low)).length = high - low := by simp; omega
  conv_lhs => rw [parts]
  rw [select_append,select_append,Nat.zero_add,front,middle,
    select_none 0 fun i _ below => by simp; omega,
    select_none (low + (high - low)) fun i above _ => by simp; omega,
    List.nil_append,List.append_nil]
  exact select_congr low fun i above below => by simp; omega

/-- Two selections, the first below a position and the second from there on, make one. -/
theorem select_append_select {first second : Nat → Bool} (cut : Nat)
    (below : ∀ i, first i = true → i < cut) (above : ∀ i, second i = true → cut ≤ i)
    (items : List α) (offset : Nat) :
    select first items offset ++ select second items offset =
      select (fun i => first i || second i) items offset := by
  induction items generalizing offset with
  | nil => rfl
  | cons item rest ih =>
    rcases Nat.lt_or_ge offset cut with before | after
    · have absent : second offset = false := by
        by_contra present
        have := above offset (by simpa using present)
        omega
      simp only [select_cons,absent,Bool.or_false,List.append_assoc]
      rw [← ih]
      simp
    · have absent (i : Nat) (low : offset ≤ i) : first i = false := by
        by_contra present
        have := below i (by simpa using present)
        omega
      rw [select_none offset fun i low _ => absent i low,List.nil_append]
      exact select_congr offset fun i low _ => by simp [absent i low]

/-- Tests that differ only where the items fail a filter select the same filtered items. -/
theorem filter_select_congr {test other : Nat → Bool} {keep : α → Bool} {items : List α} (offset : Nat)
    (same : ∀ i item, items[i]? = some item → keep item = true → test (offset + i) = other (offset + i)) :
    (select test items offset).filter keep = (select other items offset).filter keep := by
  induction items generalizing offset with
  | nil => rfl
  | cons item rest ih =>
    have later := ih (offset + 1) fun i other read kept => by
      have := same (i + 1) other (by simpa using read) kept
      simpa [Nat.add_assoc,Nat.add_comm 1 i] using this
    rw [select_cons,select_cons,List.filter_append,List.filter_append,later]
    congr 1
    by_cases kept : keep item = true
    · have here := same 0 item (by simp) kept
      simp only [Nat.add_zero] at here
      rw [here]
    · split <;> split <;> simp [kept]

end SourceAtlas
