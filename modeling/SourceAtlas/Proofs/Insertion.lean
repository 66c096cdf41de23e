import Mathlib.Algebra.GroupWithZero.Nat
import SourceAtlas.Proofs.Assembly

/-! Insertions into an atlas of one project, one after the other: what each of them gives back, which
files the atlas holds in the end, and how its totals move. -/
namespace SourceAtlas

-- Sums over a table

theorem find?_eq_none_of_lt {α : Type} {key : String} {entries : List (String × α)}
    (above : ∀ entry ∈ entries, key < entry.1) : entries.find? (·.1 == key) = none := by
  apply List.find?_eq_none.mpr
  intro entry inside same
  have equal : entry.1 = key := by simpa using same
  exact String.lt_irrefl _ (equal ▸ above entry inside)

theorem sum_insertEntry {α : Type} (count : α → Nat) (key : String) (value : α)
    {entries : List (String × α)} (order : Increasing entries) :
    ((insertEntry key value entries).map fun entry => count entry.2).sum +
        (((entries.find? (·.1 == key)).map Prod.snd).map count).getD 0 =
      (entries.map fun entry => count entry.2).sum + count value := by
  induction entries with
  | nil => simp [insertEntry]
  | cons first rest ih =>
    obtain ⟨above,tail⟩ := List.pairwise_cons.mp order
    unfold insertEntry
    split
    · next less =>
      have absent : (first :: rest).find? (·.1 == key) = none :=
        find?_eq_none_of_lt (List.forall_mem_cons.mpr
          ⟨less,fun entry inside => String.lt_trans less (above entry inside)⟩)
      rw [absent,List.map_cons,List.sum_cons,Nat.add_comm (count _)]
      rfl
    · next notLess =>
      split
      · next greater =>
        have apart : (first.1 == key) = false :=
          beq_false_of_ne fun same => String.lt_irrefl _ (same ▸ greater)
        have later := ih tail
        simp only [List.find?_cons,apart,List.map_cons,List.sum_cons]
        omega
      · next notGreater =>
        have same : (first.1 == key) = true := beq_iff_eq.mpr (eq_of_not_lt notGreater notLess)
        simp only [List.find?_cons,same,List.map_cons,List.sum_cons,Option.map_some,Option.getD_some]
        omega

/-- An insertion adds what the new value counts and takes away what the value in its place has counted. -/
theorem Table.sum_insert {α : Type} (table : Table α) (count : α → Nat) (key : String) (value : α) :
    ((table.insert key value).values.map count).sum + ((table.get? key).map count).getD 0 =
      (table.values.map count).sum + count value := by
  rw [values,values,List.map_map,List.map_map]
  exact sum_insertEntry count key value table.increasing

-- Totals

namespace Totals

/-- What some files declare in all: the declarations of the files themselves and those in their
classes, each kind apart. -/
def counted (records : List ModuleRecord) : Totals where
  modules := records.length
  classes := (records.map fun record => record.classes.length).sum
  functions := (records.map fun record =>
    record.functions.length + (record.classes.map (·.functions.length)).sum).sum
  interfaces := (records.map fun record =>
    record.interfaces.length + (record.classes.map (·.interfaces.length)).sum).sum
  enums := (records.map fun record =>
    record.enums.length + (record.classes.map (·.enums.length)).sum).sum
  dependencies := (records.map fun record => record.dependencies.length).sum

theorem counted_cons (record : ModuleRecord) (records : List ModuleRecord) :
    counted (record :: records) = (ofModule record).add (counted records) := by
  have inClasses (count : ClassRecord → Nat) :
      record.classes.foldl (fun n item => n + count item) 0 = (record.classes.map count).sum := by
    rw [List.sum_eq_foldl,List.foldl_map]
  simp [counted,ofModule,add,inClasses,Nat.add_comm]

theorem add_zero (totals : Totals) : totals.add zero = totals := rfl

theorem add_assoc (a b c : Totals) : (a.add b).add c = a.add (b.add c) := by
  simp [add,Nat.add_assoc]

theorem foldl_add (records : List ModuleRecord) (start : Totals) :
    (records.map ofModule).foldl add start = start.add (counted records) := by
  induction records generalizing start with
  | nil => rfl
  | cons record records ih => rw [List.map_cons,List.foldl_cons,ih,counted_cons,add_assoc]

/-- The files that replace others move the totals by the difference of the two. -/
theorem counted_insert (modules : Table ModuleRecord) (record : ModuleRecord) :
    (counted (modules.insert record.path record).values).add
        (counted (modules.get? record.path).toList) =
      (counted modules.values).add (counted [record]) := by
  have field (count : ModuleRecord → Nat) :
      ((modules.insert record.path record).values.map count).sum +
          ((modules.get? record.path).toList.map count).sum =
        (modules.values.map count).sum + ([record].map count).sum := by
    have moved := modules.sum_insert count record.path record
    cases found : modules.get? record.path with
    | none => simpa [found] using moved
    | some old => simpa [found] using moved
  have lengths (records : List ModuleRecord) : records.length = (records.map fun _ => 1).sum := by simp
  simp only [counted,add,Totals.mk.injEq,field,and_self,and_true]
  rw [lengths,lengths (modules.get? _).toList,lengths modules.values,lengths [record]]
  exact field fun _ => 1

end Totals

namespace Atlas

theorem totals_eq (atlas : Atlas) : atlas.totals = .counted atlas.modules.values := by
  rw [totals,Totals.foldl_add]
  simp [Totals.zero,Totals.add]

-- Insertions

/-- Inserts files one after the other. The files that they replace are given back in the same order. -/
def insertions (atlas : Atlas) : List ModuleRecord → List (Option ModuleRecord) × Atlas
  | [] => ([],atlas)
  | record :: records =>
    let (next,replaced) := atlas.insert record
    let (later,final) := next.insertions records
    (replaced :: later,final)

theorem eq_ofModules {atlas : Atlas} {name : String} (single : atlas.projects.keys = [name]) :
    ∃ modules, atlas = ofModules name modules := by
  obtain ⟨⟨entries,order⟩⟩ := atlas
  obtain ⟨⟨_,⟨modules⟩⟩,rfl,rfl⟩ := List.map_eq_singleton_iff.mp single
  exact ⟨modules,rfl⟩

variable {name : String} {modules : Table ModuleRecord}

theorem insert_single (record : ModuleRecord) : (ofModules name modules).insert record =
    (ofModules name (modules.insert record.path record),modules.get? record.path) :=
  Prod.ext (insert_ofModules record) rfl

theorem insertions_final (records : List ModuleRecord) :
    ((ofModules name modules).insertions records).2 = ofModules name (insertAll modules records) := by
  induction records generalizing modules with
  | nil => rfl
  | cons record records ih =>
    change (((ofModules name modules).insert record).1.insertions records).2 = _
    rw [insert_ofModules,ih]
    rfl

theorem length_insertions (atlas : Atlas) (records : List ModuleRecord) :
    (atlas.insertions records).1.length = records.length := by
  induction records generalizing atlas with
  | nil => rfl
  | cons record records ih => exact congrArg Nat.succ (ih _)

theorem insertions_append (atlas : Atlas) (before after : List ModuleRecord) :
    atlas.insertions (before ++ after) = ((atlas.insertions before).1 ++
      ((atlas.insertions before).2.insertions after).1,
      ((atlas.insertions before).2.insertions after).2) := by
  induction before generalizing atlas with
  | nil => rfl
  | cons record before ih =>
    simp only [List.cons_append,insertions,ih]

/-- The file that is found under a path after some insertions: the last of them with this path, or the
one that was there before. -/
theorem get?_insertAll (records : List ModuleRecord) (path : String) :
    (insertAll modules records).get? path =
      (records.reverse.find? (·.path = path)).or (modules.get? path) := by
  induction records generalizing modules with
  | nil => rfl
  | cons record records ih =>
    rw [insertAll,List.foldl_cons,← insertAll,ih,Table.get?_insert,List.reverse_cons,
      List.find?_append,Option.or_assoc,List.find?_singleton]
    by_cases same : record.path = path <;> simp [same]

/-- A whole run of insertions into an atlas of one project. Each insertion gives back the file that the
atlas holds under its path just then, and moves the totals by what it puts in and takes out. In the end
the last file with a path stands under it, or the one that stood there first. The project stays the same,
its files stay in order, and the totals are the sums over them. -/
theorem insertions_exact (atlas : Atlas) (name : String) (single : atlas.projects.keys = [name])
    (records : List ModuleRecord) :
    (atlas.insertions records).1.length = records.length ∧
    (∀ before record after, records = before ++ record :: after →
      ∃ current next replaced, (atlas.insertions before).2 = current ∧
        current.insert record = (next,replaced) ∧ (atlas.insertions (before ++ [record])).2 = next ∧
        (atlas.insertions records).1[before.length]? = some replaced ∧
        replaced = current.module? record.path ∧
        next.totals.add (.counted replaced.toList) = current.totals.add (.counted [record])) ∧
    ∀ final, (atlas.insertions records).2 = final →
      (∀ path, final.module? path =
        (records.reverse.find? (·.path = path)).or (atlas.module? path)) ∧
      final.projects.keys = [name] ∧ final.projectName = name ∧
      final.modules.keys.Pairwise (· < ·) ∧ final.totals = .counted final.modules.values := by
  obtain ⟨modules,rfl⟩ := eq_ofModules single
  refine ⟨length_insertions _ _,?_,?_⟩
  · rintro before record after rfl
    have reached : ((ofModules name modules).insertions before).2 =
        ofModules name (insertAll modules before) := insertions_final before
    refine ⟨_,_,_,reached,insert_single record,?_,?_,rfl,?_⟩
    · rw [insertions_append,reached,insertions,insert_single]
      rfl
    · rw [insertions_append,reached,insertions,insert_single,
        ← length_insertions (ofModules name modules) before,
        List.getElem?_append_right (Nat.le_refl _),Nat.sub_self]
      rfl
    · rw [totals_eq,totals_eq]
      exact Totals.counted_insert (insertAll modules before) record
  · rintro final rfl
    rw [insertions_final]
    refine ⟨fun path => get?_insertAll records path,rfl,rfl,?_,totals_eq _⟩
    exact List.pairwise_map.mpr (insertAll modules records).increasing

def countedClass : ClassRecord :=
  ⟨some "C",[⟨"m","m();",[],"any",none⟩],[],[⟨"I",[],none⟩],[]⟩

/-- An atlas with one file, which has a class. -/
def shelf : Atlas :=
  .ofModules "p" (Table.empty.insert "b.ts" ⟨"b.ts",[countedClass],[],[],[],["import 'a';"]⟩)

def arrivals : List ModuleRecord :=
  [.empty "a.ts" [],⟨"b.ts",[],[],[],[⟨"E",[],none⟩],[]⟩,⟨"a.ts",[countedClass],[],[],[],[]⟩]

theorem insertions_exact_shelf : shelf.projects.keys = ["p"] ∧
    (shelf.insertions arrivals).1[2]? = some (some (.empty "a.ts" [])) ∧
    (shelf.insertions arrivals).2.module? "b.ts" = some ⟨"b.ts",[],[],[],[⟨"E",[],none⟩],[]⟩ ∧
    (shelf.insertions arrivals).2.totals = ⟨2,1,1,1,1,0⟩ := by
  have single : shelf.projects.keys = ["p"] := by decide
  obtain ⟨_,steps,ends⟩ := insertions_exact shelf "p" single arrivals
  obtain ⟨_,_,_,rfl,_,_,given,rfl,_⟩ := steps (arrivals.take 2) _ [] rfl
  obtain ⟨lookups,_,_,_,totals⟩ := ends _ rfl
  refine ⟨single,given.trans ?_,?_,?_⟩
  · decide +kernel
  · rw [lookups]
    decide +kernel
  · rw [totals]
    decide +kernel

end Atlas

end SourceAtlas
