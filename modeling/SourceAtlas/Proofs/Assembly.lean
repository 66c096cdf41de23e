import Mathlib.Data.List.Perm.Basic
import SourceAtlas.Proofs.FirstFault
import SourceAtlas.Proofs.PathKey
import SourceAtlas.Proofs.Table
import SourceAtlas.Survey

/-! What an assembled atlas holds, or which fault stops the assembly. Every root file is recorded under
its key; a later file replaces an earlier one with the same key. -/
namespace SourceAtlas

open Syntax

-- Atlases of one project

namespace Atlas

def ofModules (name : String) (modules : Table ModuleRecord) : Atlas :=
  ⟨Table.empty.insert name ⟨modules⟩⟩

variable {name : String} {modules : Table ModuleRecord}

theorem insert_ofModules (record : ModuleRecord) :
    ((ofModules name modules).insert record).1 = ofModules name (modules.insert record.path record) :=
  congrArg Atlas.mk (Table.insert_insert ..)

def insertAll (modules : Table ModuleRecord) (records : List ModuleRecord) : Table ModuleRecord :=
  records.foldl (fun modules record => modules.insert record.path record) modules

theorem foldl_insert_ofModules (records : List ModuleRecord) :
    records.foldl (fun atlas record => (atlas.insert record).1) (ofModules name modules) =
      ofModules name (insertAll modules records) := by
  induction records generalizing modules with
  | nil => rfl
  | cons record records ih => rw [List.foldl_cons,insert_ofModules,ih]; rfl

theorem insertAll_append (before after : List ModuleRecord) :
    insertAll modules (before ++ after) = insertAll (insertAll modules before) after :=
  List.foldl_append

theorem get?_insertAll_of_absent {records : List ModuleRecord} {key : String}
    (absent : ∀ record ∈ records, record.path ≠ key) :
    (insertAll modules records).get? key = modules.get? key := by
  induction records generalizing modules with
  | nil => rfl
  | cons record records ih =>
    obtain ⟨here,later⟩ := List.forall_mem_cons.mp absent
    rw [insertAll,List.foldl_cons,← insertAll,ih later,Table.get?_insert,if_neg here]

theorem get?_insertAll_last {before after : List ModuleRecord} {record : ModuleRecord}
    (last : ∀ later ∈ after, later.path ≠ record.path) :
    (insertAll modules (before ++ record :: after)).get? record.path = some record := by
  rw [insertAll_append,insertAll,List.foldl_cons,← insertAll,get?_insertAll_of_absent last,
    Table.get?_insert,if_pos rfl]

theorem mem_keys_insertAll {records : List ModuleRecord} {key : String} :
    key ∈ (insertAll modules records).keys ↔
      key ∈ modules.keys ∨ ∃ record ∈ records, record.path = key := by
  induction records generalizing modules with
  | nil => simp [insertAll]
  | cons record records ih =>
    have keys : key ∈ (modules.insert record.path record).keys ↔
        record.path = key ∨ key ∈ modules.keys := by
      rw [Table.mem_keys_iff,Table.mem_keys_iff,Table.get?_insert]
      by_cases same : record.path = key <;> simp [same]
    rw [insertAll,List.foldl_cons,← insertAll,ih,keys,List.exists_mem_cons_iff]
    tauto

theorem mem_keys_insertAll_empty {records : List ModuleRecord} {key : String} :
    key ∈ (insertAll .empty records).keys ↔ key ∈ records.map ModuleRecord.path := by
  rw [mem_keys_insertAll,List.mem_map]
  exact or_iff_right List.not_mem_nil

theorem insertAll_perm {records order : List ModuleRecord}
    (distinct : (records.map ModuleRecord.path).Nodup) (permuted : order.Perm records) :
    insertAll modules order = insertAll modules records := by
  apply permuted.foldl_eq'
  intro first insideFirst second insideSecond table
  by_cases same : first.path = second.path
  · have equal := List.inj_on_of_nodup_map distinct (permuted.subset insideFirst)
      (permuted.subset insideSecond) same
    rw [equal]
  · exact Table.insert_comm table first second same

theorem length_keys_insertAll {records : List ModuleRecord}
    (distinct : (records.map ModuleRecord.path).Nodup) :
    (insertAll .empty records).keys.length = records.length := by
  have permuted := (List.perm_ext_iff_of_nodup (Table.keys_nodup _) distinct).mpr fun _ =>
    mem_keys_insertAll_empty
  rw [permuted.length_eq,List.length_map]

end Atlas

-- The record of one root file

namespace Reader

theorem path_foldl_append (members : List Member) (record : ModuleRecord) :
    (members.foldl ModuleRecord.append record).path = record.path := by
  induction members generalizing record with
  | nil => rfl
  | cons member members ih =>
    rw [List.foldl_cons,ih]
    cases member <;> rfl

theorem path_of_moduleRecord {reader : Reader} {file : SourceFile} {key : String}
    {dependencies : List String} {record : ModuleRecord}
    (recorded : reader.moduleRecord file key dependencies = .ok record) : record.path = key := by
  obtain ⟨members,_,returned⟩ := bind_eq_ok_iff.mp recorded
  rw [← Except.ok.inj returned,path_foldl_append]
  rfl

end Reader

namespace Provider

/-- A root file with a source text, whose imports and declarations can all be recorded. -/
inductive Recorded (provider : Provider) (root path : Path) (record : ModuleRecord) : Prop
  | intro (file : SourceFile) (dependencies : List String)
    (text : provider.file? path = some file)
    (imports : provider.reader.imports file = .ok dependencies)
    (declarations :
      provider.reader.moduleRecord file (keyOf root path) dependencies = .ok record)

/-- The fault of a root file: of its text before its imports, and of these before its declarations. -/
inductive Refused (provider : Provider) (root path : Path) : Fault → Prop
  | text (missing : provider.file? path = none) :
    Refused provider root path (.missingSourceFile path)
  | imports (file : SourceFile) (fault : Fault) (text : provider.file? path = some file)
    (failed : provider.reader.imports file = .error fault) : Refused provider root path fault
  | declarations (file : SourceFile) (dependencies : List String) (fault : Fault)
    (text : provider.file? path = some file)
    (imports : provider.reader.imports file = .ok dependencies)
    (failed : provider.reader.moduleRecord file (keyOf root path) dependencies = .error fault) :
    Refused provider root path fault

variable {provider : Provider} {root path : Path}

theorem record_eq_ok_iff {record : ModuleRecord} :
    provider.record root path = .ok record ↔ Recorded provider root path record := by
  unfold Provider.record
  constructor
  · intro recorded
    split at recorded
    · simp at recorded
    · next file text =>
      obtain ⟨dependencies,imports,declarations⟩ := bind_eq_ok_iff.mp recorded
      exact ⟨file,dependencies,text,imports,declarations⟩
  · rintro ⟨file,dependencies,text,imports,declarations⟩
    rw [text]
    exact bind_eq_ok_iff.mpr ⟨dependencies,imports,declarations⟩

theorem record_eq_error_iff {fault : Fault} :
    provider.record root path = .error fault ↔ Refused provider root path fault := by
  unfold Provider.record
  constructor
  · intro refused
    split at refused
    · next missing =>
      cases Except.error.inj refused
      exact .text missing
    · next file text =>
      rcases bind_eq_error_iff.mp refused with failed | ⟨dependencies,imports,failed⟩
      · exact .imports file fault text failed
      · exact .declarations file dependencies fault text imports failed
  · intro refused
    cases refused with
    | text missing => rw [missing]
    | imports file _ text failed =>
      rw [text]
      exact bind_eq_error_iff.mpr (.inl failed)
    | declarations file dependencies _ text imports failed =>
      rw [text]
      exact bind_eq_error_iff.mpr (.inr ⟨dependencies,imports,failed⟩)

theorem Recorded.path_eq {record : ModuleRecord} (recorded : Recorded provider root path record) :
    record.path = keyOf root path := by
  obtain ⟨_,_,_,_,declarations⟩ := recorded
  exact Reader.path_of_moduleRecord declarations

-- The whole assembly

def RecordedAll (provider : Provider) (root : Path) (roots : List Path) (records : List ModuleRecord) :
    Prop := List.Forall₂ (fun path record => Recorded provider root path record) roots records

theorem RecordedAll.paths {roots : List Path} {records : List ModuleRecord}
    (recorded : RecordedAll provider root roots records) :
    records.map ModuleRecord.path = roots.map (keyOf root) := by
  induction recorded with
  | nil => rfl
  | cons here _ ih => rw [List.map_cons,List.map_cons,here.path_eq,ih]

theorem RecordedAll.part {before after : List Path} {records : List ModuleRecord}
    (recorded : RecordedAll provider root (before ++ path :: after) records) :
    ∃ front record back, records = front ++ record :: back ∧
      Recorded provider root path record ∧ RecordedAll provider root after back := by
  induction before generalizing records with
  | nil =>
    obtain ⟨record,back,here,later,rfl⟩ := List.forall₂_cons_left_iff.mp recorded
    exact ⟨[],record,back,rfl,here,later⟩
  | cons first before ih =>
    obtain ⟨head,records,_,later,rfl⟩ := List.forall₂_cons_left_iff.mp recorded
    obtain ⟨front,record,back,rfl,here,rest⟩ := ih later
    exact ⟨head :: front,record,back,rfl,here,rest⟩

theorem exists_recordedAll {roots : List Path}
    (recorded : ∀ path ∈ roots, ∃ record, Recorded provider root path record) :
    ∃ records, RecordedAll provider root roots records := by
  induction roots with
  | nil => exact ⟨[],.nil⟩
  | cons path roots ih =>
    obtain ⟨⟨record,here⟩,later⟩ := List.forall_mem_cons.mp recorded
    obtain ⟨records,rest⟩ := ih later
    exact ⟨record :: records,.cons here rest⟩

theorem assemble_eq_ok_iff {name : String} {atlas : Atlas} :
    provider.assemble root name = .ok atlas ↔ ∃ records,
      RecordedAll provider root provider.roots records ∧
        atlas = .ofModules name (Atlas.insertAll .empty records) := by
  rw [assemble,bind_eq_ok_iff]
  apply exists_congr
  intro records
  rw [mapM_eq_ok_iff,RecordedAll]
  simp only [record_eq_ok_iff]
  apply and_congr_right
  intro _
  rw [← Atlas.foldl_insert_ofModules]
  exact ⟨fun returned => (Except.ok.inj returned).symm,fun same => congrArg _ same.symm⟩

theorem assemble_eq_error_iff {name : String} {fault : Fault} :
    provider.assemble root name = .error fault ↔ ∃ before path after,
      provider.roots = before ++ path :: after ∧
        (∀ earlier ∈ before, ∃ record, Recorded provider root earlier record) ∧
        Refused provider root path fault := by
  rw [assemble,bind_eq_error_iff,mapM_eq_error_iff]
  simp only [record_eq_ok_iff,record_eq_error_iff]
  constructor
  · rintro (refused | ⟨records,_,returned⟩)
    · exact refused
    · simp [pure,Except.pure] at returned
  · exact .inl

/-- An atlas of exactly the root files: under each key stands the record of the last file that has it. -/
structure Assembled (provider : Provider) (root : Path) (name : String) (atlas : Atlas) : Prop where
  projects : atlas.projects.keys = [name]
  named : atlas.projectName = name
  keys : ∀ key, key ∈ atlas.modules.keys ↔ ∃ path ∈ provider.roots, keyOf root path = key
  last : ∀ before path after, provider.roots = before ++ path :: after →
    (∀ later ∈ after, keyOf root later ≠ keyOf root path) →
      ∃ record, Recorded provider root path record ∧ atlas.module? (keyOf root path) = some record

theorem assembled_of_recordedAll {name : String} {records : List ModuleRecord}
    (recorded : RecordedAll provider root provider.roots records) :
    Assembled provider root name (.ofModules name (Atlas.insertAll .empty records)) where
  projects := rfl
  named := rfl
  keys key := by
    have keyed : key ∈ (Atlas.insertAll .empty records).keys ↔ key ∈ provider.roots.map (keyOf root) := by
      rw [Atlas.mem_keys_insertAll_empty,recorded.paths]
    exact keyed.trans List.mem_map
  last before path after parted last := by
    obtain ⟨front,record,back,rfl,here,later⟩ := (parted ▸ recorded).part
    have others : ∀ other ∈ back, other.path ≠ record.path := by
      intro other member same
      have keyed : record.path ∈ after.map (keyOf root) := by
        rw [← later.paths,← same]
        exact List.mem_map_of_mem member
      obtain ⟨path,inside,key⟩ := List.mem_map.mp keyed
      exact last path inside (key.trans here.path_eq)
    refine ⟨record,here,?_⟩
    rw [← here.path_eq]
    exact Atlas.get?_insertAll_last others

/-- Assembly gives the atlas of all root files, or the fault of the first one that is refused. Neither
the roots after that one nor their texts change the fault. -/
theorem assemble_exact (provider : Provider) (root : Path) (name : String) :
    ((∀ path ∈ provider.roots, ∃ record, Recorded provider root path record) →
      ∃ atlas, provider.assemble root name = .ok atlas ∧ Assembled provider root name atlas) ∧
    ((∃ path ∈ provider.roots, ∀ record, ¬Recorded provider root path record) →
      ∃ before path after fault, provider.roots = before ++ path :: after ∧
        (∀ earlier ∈ before, ∃ record, Recorded provider root earlier record) ∧
        Refused provider root path fault ∧ provider.assemble root name = .error fault ∧
        ∀ other : Provider, before ++ [path] <+: other.roots → other.reader = provider.reader →
          (∀ shared ∈ before ++ [path], other.file? shared = provider.file? shared) →
            other.assemble root name = .error fault) := by
  constructor
  · intro recorded
    obtain ⟨records,all⟩ := exists_recordedAll recorded
    exact ⟨_,assemble_eq_ok_iff.mpr ⟨records,all,rfl⟩,assembled_of_recordedAll all⟩
  · rintro ⟨bad,inside,unrecorded⟩
    cases outcome : provider.assemble root name with
    | ok atlas =>
      obtain ⟨records,all,_⟩ := assemble_eq_ok_iff.mp outcome
      obtain ⟨before,after,parted⟩ := List.append_of_mem inside
      obtain ⟨_,record,_,_,here,_⟩ := (parted ▸ all).part
      exact absurd here (unrecorded record)
    | error fault =>
      obtain ⟨before,path,after,parted,earlier,refused⟩ := assemble_eq_error_iff.mp outcome
      refine ⟨before,path,after,fault,parted,earlier,refused,rfl,?_⟩
      rintro other ⟨rest,roots⟩ reader texts
      have agree : ∀ shared ∈ before ++ [path],
          other.record root shared = provider.record root shared := by
        intro shared member
        rw [Provider.record,Provider.record,texts shared member,reader]
      have parts : other.roots = before ++ path :: rest := by
        rw [← roots,List.append_assoc,List.singleton_append]
      apply assemble_eq_error_iff.mpr
      refine ⟨before,path,rest,parts,?_,?_⟩
      · intro shared member
        obtain ⟨record,recorded⟩ := earlier shared member
        refine ⟨record,record_eq_ok_iff.mp ?_⟩
        rw [agree shared (List.mem_append_left _ member)]
        exact record_eq_ok_iff.mpr recorded
      · apply record_eq_error_iff.mp
        rw [agree path (List.mem_append_right _ (List.mem_singleton_self path))]
        exact record_eq_error_iff.mpr refused

-- The order of the root files

theorem keyOf_injective_below {other : Path} (below : root.components <+: path.components)
    (belowOther : root.components <+: other.components) (same : keyOf root path = keyOf root other) :
    path.components = other.components := by
  obtain ⟨rest,parted⟩ := below
  obtain ⟨restOther,partedOther⟩ := belowOther
  obtain ⟨found,key⟩ := Path.below?_eq_some parted.symm
  obtain ⟨foundOther,keyOther⟩ := Path.below?_eq_some partedOther.symm
  rw [keyOf,keyOf,found,foundOther,Option.getD_some,Option.getD_some,key,keyOther] at same
  have proper : Component.Proper rest := .suffix (parted ▸ Path.components_proper path)
  have properOther : Component.Proper restOther := .suffix (partedOther ▸ Path.components_proper other)
  rw [← parted,← partedOther,Path.keyOf_injective proper properOther same]

theorem keys_nodup {roots : List Path} (below : ∀ path ∈ roots, root.components <+: path.components)
    (different : roots.Pairwise fun a b => a.same b = false) : (roots.map (keyOf root)).Nodup := by
  apply List.pairwise_map.mpr
  apply different.imp_of_mem
  intro a b insideA insideB apart same
  have equal := keyOf_injective_below (below a insideA) (below b insideB) same
  exact Bool.false_ne_true (apart.symm.trans (decide_eq_true equal))

theorem Recorded.withRoots {record : ModuleRecord} (recorded : Recorded provider root path record)
    (order : List Path) : Recorded { provider with roots := order } root path record := by
  obtain ⟨file,dependencies,text,imports,declarations⟩ := recorded
  exact ⟨file,dependencies,text,imports,declarations⟩

theorem assemble_reordered {name : String} {atlas : Atlas} {order : List Path}
    (distinct : (provider.roots.map (keyOf root)).Nodup) (permuted : order.Perm provider.roots)
    (outcome : provider.assemble root name = .ok atlas) :
    Provider.assemble { provider with roots := order } root name = .ok atlas := by
  obtain ⟨records,all,rfl⟩ := assemble_eq_ok_iff.mp outcome
  obtain ⟨others,recorded,shuffled⟩ := List.perm_comp_forall₂ permuted all
  have everyOther : RecordedAll { provider with roots := order } root order others :=
    recorded.imp fun _ _ here => here.withRoots order
  have paths : (records.map ModuleRecord.path).Nodup := all.paths ▸ distinct
  exact assemble_eq_ok_iff.mpr ⟨others,everyOther,by rw [Atlas.insertAll_perm paths shuffled]⟩

/-- Files below the root that are different paths all keep their own place in the atlas, and their
order does not matter. -/
theorem assemble_perm (provider : Provider) (root : Path) (name : String)
    (below : ∀ path ∈ provider.roots, root.components <+: path.components)
    (different : provider.roots.Pairwise fun a b => a.same b = false) :
    (∀ atlas, provider.assemble root name = .ok atlas →
      atlas.modules.keys.length = provider.roots.length ∧
      (∀ path ∈ provider.roots, ∃ relative record, root.below? path = some relative ∧
        Recorded provider root path record ∧ atlas.module? relative.key = some record) ∧
      ∀ order, order.Perm provider.roots →
        Provider.assemble { provider with roots := order } root name = .ok atlas) ∧
    ∀ fault, provider.assemble root name = .error fault →
      ∀ order, order.Perm provider.roots →
        ∃ other, Provider.assemble { provider with roots := order } root name = .error other := by
  have distinct := keys_nodup below different
  constructor
  · intro atlas outcome
    refine ⟨?_,?_,fun order permuted => assemble_reordered distinct permuted outcome⟩
    · obtain ⟨records,all,rfl⟩ := assemble_eq_ok_iff.mp outcome
      have paths : (records.map ModuleRecord.path).Nodup := all.paths ▸ distinct
      exact (Atlas.length_keys_insertAll paths).trans all.length_eq.symm
    · intro path inside
      obtain ⟨records,all,rfl⟩ := assemble_eq_ok_iff.mp outcome
      obtain ⟨before,after,parted⟩ := List.append_of_mem inside
      have apart := parted ▸ distinct
      rw [List.map_append,List.map_cons] at apart
      have others : ∀ later ∈ after, keyOf root later ≠ keyOf root path := by
        intro later member same
        apply (List.nodup_cons.mp apart.of_append_right).1
        exact same ▸ List.mem_map_of_mem member
      obtain ⟨record,here,found⟩ := (assembled_of_recordedAll all).last before path after parted others
      obtain ⟨rest,whole⟩ := below path inside
      have relative := (Path.below?_eq_some whole.symm).1
      rw [keyOf,relative] at found
      exact ⟨_,record,relative,here,found⟩
  · intro fault outcome order permuted
    cases reordered : Provider.assemble { provider with roots := order } root name with
    | error other => exact ⟨other,rfl⟩
    | ok atlas =>
      have shuffled : (order.map (keyOf root)).Nodup :=
        (permuted.map (keyOf root)).nodup_iff.mpr distinct
      have back := assemble_reordered shuffled permuted.symm reordered
      rw [back] at outcome
      cases outcome

def emptyPair : Provider where
  roots := [⟨"/p/b.ts"⟩,⟨"/p//a.ts"⟩]
  file? path := some ⟨path,[],⟨"program",true,0,0,[],[]⟩⟩
  reader := .syntactic

def emptyPairAtlas : Atlas := .ofModules "p" (Atlas.insertAll .empty [.empty "b.ts" [],.empty "a.ts" []])

theorem assemble_perm_emptyPair : emptyPair.assemble ⟨"/p"⟩ "p" = .ok emptyPairAtlas ∧
    ∀ order, order.Perm emptyPair.roots →
      Provider.assemble { emptyPair with roots := order } ⟨"/p"⟩ "p" = .ok emptyPairAtlas := by
  have below : ∀ path ∈ emptyPair.roots, (Path.mk "/p").components <+: path.components := by decide
  have different : emptyPair.roots.Pairwise fun a b => a.same b = false := by decide
  have outcome : emptyPair.assemble ⟨"/p"⟩ "p" = .ok emptyPairAtlas := rfl
  exact ⟨outcome,((assemble_perm emptyPair ⟨"/p"⟩ "p" below different).1 _ outcome).2.2⟩

end Provider

end SourceAtlas
