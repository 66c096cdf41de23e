import SourceAtlas.Path

/-! The order of paths. It is total, and only equal components are equal in it, so that sorting
different paths makes a strictly increasing list. -/
namespace SourceAtlas

open Std

namespace Component

theorem eq_of_order {a b : Component} (same : a.order b = .eq) : a = b := by
  obtain ⟨ranks,texts⟩ := Ordering.then_eq_eq.mp same
  have rank : a.rank = b.rank := LawfulEqCmp.eq_of_compare ranks
  have text : a.text = b.text := LawfulEqCmp.eq_of_compare texts
  cases a <;> cases b <;> simp_all [Component.rank,Component.text]

instance : TransCmp order := inferInstanceAs (TransCmp (compareLex (compareOn rank) (compareOn text)))

instance : LawfulEqCmp order where
  eq_of_compare := eq_of_order

theorem orderAll_eq_compareLex : orderAll = List.compareLex order := by
  funext as bs
  induction as generalizing bs with
  | nil => cases bs <;> rfl
  | cons a as ih =>
    cases bs with
    | nil => rfl
    | cons b bs => rw [orderAll,List.compareLex_cons_cons,ih]

end Component

namespace Path

open Component

theorem le_trans (a b c : Path) (first : a.le b = true) (second : b.le c = true) : a.le c = true := by
  rw [le,orderAll_eq_compareLex] at *
  exact TransCmp.isLE_trans first second

theorem le_total (a b : Path) : (a.le b || b.le a) = true := by
  have swapped : List.compareLex order b.components a.components =
      (List.compareLex order a.components b.components).swap := OrientedCmp.eq_swap
  rw [le,le,orderAll_eq_compareLex,swapped]
  cases List.compareLex order a.components b.components <;> rfl

theorem lt_of_le_of_ne {a b : Path} (ordered : a.le b = true) (different : a.components ≠ b.components) :
    orderAll a.components b.components = .lt := by
  rw [le,orderAll_eq_compareLex] at *
  have apart : List.compareLex order a.components b.components ≠ .eq :=
    fun same => different (LawfulEqCmp.eq_of_compare same)
  cases relation : List.compareLex order a.components b.components with
  | lt => rfl
  | eq => exact absurd relation apart
  | gt => simp [relation] at ordered

/-- Sorting paths that differ from each other leaves no two neighbours equal. -/
theorem mergeSort_increasing {paths : List Path} (distinct : (paths.map components).Nodup) :
    (paths.mergeSort le).Pairwise fun a b => orderAll a.components b.components = .lt := by
  have sorted := List.pairwise_mergeSort le_trans le_total paths
  have permuted := (List.mergeSort_perm paths le).map components
  have apart := List.pairwise_map.mp (permuted.nodup_iff.mpr distinct)
  exact sorted.imp₂ (fun _ _ => lt_of_le_of_ne) apart

end Path

end SourceAtlas
