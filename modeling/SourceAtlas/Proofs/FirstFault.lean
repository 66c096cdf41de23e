import Mathlib.Data.List.Forall2

/-! Traversals that stop at the first fault: they give all results, or the fault of the first item that
has none. -/
namespace SourceAtlas

variable {ε α β : Type}

theorem bind_eq_ok_iff {first : Except ε α} {next : α → Except ε β} {result : β} :
    first >>= next = .ok result ↔ ∃ value, first = .ok value ∧ next value = .ok result := by
  cases first with
  | error fault => simp [bind,Except.bind]
  | ok value => simp [bind,Except.bind]

theorem bind_eq_error_iff {first : Except ε α} {next : α → Except ε β} {fault : ε} :
    first >>= next = .error fault ↔
      first = .error fault ∨ ∃ value, first = .ok value ∧ next value = .error fault := by
  cases first with
  | error other => simp [bind,Except.bind]
  | ok value => simp [bind,Except.bind]

theorem mapError_eq_ok_iff {δ : Type} {first : Except ε α} {wrap : ε → δ} {result : α} :
    first.mapError wrap = .ok result ↔ first = .ok result := by
  cases first with
  | error fault => simp [Except.mapError]
  | ok value => simp [Except.mapError]

theorem mapError_eq_error_iff {δ : Type} {first : Except ε α} {wrap : ε → δ} {fault : δ} :
    first.mapError wrap = .error fault ↔ ∃ cause, first = .error cause ∧ wrap cause = fault := by
  cases first with
  | error cause => simp [Except.mapError]
  | ok value => simp [Except.mapError]

theorem map_eq_ok_iff {first : Except ε α} {change : α → β} {result : β} :
    first.map change = .ok result ↔ ∃ value, first = .ok value ∧ change value = result := by
  cases first with
  | error fault => simp [Except.map]
  | ok value => simp [Except.map]

theorem map_eq_error_iff {first : Except ε α} {change : α → β} {fault : ε} :
    first.map change = .error fault ↔ first = .error fault := by
  cases first with
  | error other => simp [Except.map]
  | ok value => simp [Except.map]

theorem mapM_eq_ok_iff {step : α → Except ε β} {items : List α} {results : List β} :
    items.mapM step = .ok results ↔ List.Forall₂ (fun item result => step item = .ok result) items results := by
  induction items generalizing results with
  | nil =>
    rw [List.mapM_nil,List.forall₂_nil_left_iff]
    exact ⟨fun same => (Except.ok.inj same).symm,fun same => congrArg _ same.symm⟩
  | cons item items ih =>
    rw [List.mapM_cons,bind_eq_ok_iff,List.forall₂_cons_left_iff]
    apply exists_congr
    intro result
    constructor
    · rintro ⟨here,later⟩
      obtain ⟨rest,others,returned⟩ := bind_eq_ok_iff.mp later
      exact ⟨rest,here,ih.mp others,(Except.ok.inj returned).symm⟩
    · rintro ⟨rest,here,others,rfl⟩
      exact ⟨here,bind_eq_ok_iff.mpr ⟨rest,ih.mpr others,rfl⟩⟩

theorem exists_of_forall₂ {relates : α → β → Prop} {items : List α} {results : List β} {result : β}
    (all : List.Forall₂ relates items results) (member : result ∈ results) :
    ∃ item ∈ items, relates item result := by
  induction all with
  | nil => exact absurd member List.not_mem_nil
  | cons here _ ih =>
    rcases List.mem_cons.mp member with rfl | later
    · exact ⟨_,List.mem_cons_self,here⟩
    · obtain ⟨item,inside,related⟩ := ih later
      exact ⟨item,List.mem_cons_of_mem _ inside,related⟩

theorem mapM_eq_ok_map {step : α → Except ε β} {value : α → β} {items : List α}
    (each : ∀ item ∈ items, step item = .ok (value item)) : items.mapM step = .ok (items.map value) := by
  rw [mapM_eq_ok_iff,List.forall₂_map_right_iff,List.forall₂_same]
  exact each

theorem mapM_option_eq_ok_iff {step : α → Except ε (Option β)} {items : List α} {results : List (Option β)} :
    items.mapM step = .ok results ↔ (∀ item ∈ items, ∃ result, step item = .ok result) ∧
      results = items.map fun item => (step item).toOption.join := by
  constructor
  · intro made
    have all := mapM_eq_ok_iff.mp made
    clear made
    induction all with
    | nil => exact ⟨fun _ inside => absurd inside List.not_mem_nil,rfl⟩
    | cons here _ ih =>
      obtain ⟨each,same⟩ := ih
      refine ⟨List.forall_mem_cons.mpr ⟨⟨_,here⟩,each⟩,?_⟩
      rw [List.map_cons,here,← same]
      rfl
  · rintro ⟨each,rfl⟩
    apply mapM_eq_ok_map
    intro item inside
    obtain ⟨result,passed⟩ := each item inside
    rw [passed]
    rfl

theorem mapM_eq_error_iff {step : α → Except ε β} {items : List α} {fault : ε} :
    items.mapM step = .error fault ↔ ∃ before item after, items = before ++ item :: after ∧
      (∀ earlier ∈ before, ∃ result, step earlier = .ok result) ∧ step item = .error fault := by
  induction items with
  | nil => simp [pure,Except.pure]
  | cons item items ih =>
    rw [List.mapM_cons,bind_eq_error_iff]
    constructor
    · rintro (here | ⟨result,passed,later⟩)
      · exact ⟨[],item,items,rfl,by simp,here⟩
      · rcases bind_eq_error_iff.mp later with failed | ⟨rest,_,returned⟩
        · obtain ⟨before,other,after,rfl,earlier,failed⟩ := ih.mp failed
          refine ⟨item :: before,other,after,rfl,?_,failed⟩
          exact List.forall_mem_cons.mpr ⟨⟨result,passed⟩,earlier⟩
        · simp [pure,Except.pure] at returned
    · rintro ⟨before,other,after,parted,earlier,failed⟩
      cases before with
      | nil =>
        obtain ⟨rfl,_⟩ := List.cons.inj parted
        exact .inl failed
      | cons first before =>
        obtain ⟨rfl,rfl⟩ := List.cons.inj parted
        obtain ⟨⟨result,passed⟩,rest⟩ := List.forall_mem_cons.mp earlier
        have later := ih.mpr ⟨before,other,after,rfl,rest,failed⟩
        exact .inr ⟨result,passed,bind_eq_error_iff.mpr (.inl later)⟩

-- Traversals that need every result

section Traversals

variable {step other : α → Option β} {items : List α} {results : List β}

theorem mapM_eq_of_forall (each : ∀ item ∈ items, step item = other item) :
    items.mapM step = items.mapM other := by
  induction items with
  | nil => rfl
  | cons item items ih =>
    obtain ⟨here,later⟩ := List.forall_mem_cons.mp each
    rw [List.mapM_cons,List.mapM_cons,here,ih later]

theorem mapM_eq_some_iff : items.mapM step = some results ↔ items.map step = results.map some := by
  induction items generalizing results with
  | nil => cases results <;> simp
  | cons item items ih =>
    rw [List.mapM_cons]
    simp only [Option.bind_eq_bind,Option.bind_eq_some_iff,ih]
    constructor
    · rintro ⟨result,here,rest,later,returned⟩
      cases returned
      rw [List.map_cons,List.map_cons,here,later]
    · intro mapped
      obtain ⟨result,rest,rfl,here,later⟩ := List.map_eq_cons_iff.mp mapped.symm
      exact ⟨result,here.symm,rest,later.symm,rfl⟩

end Traversals

end SourceAtlas
